import YangSubscriptions.Instant.Basic
import YangSubscriptions.Text.Length

/-!
# RFC 3339 texts of instants

Writing is in UTC with a fraction of no, three, six or nine digits, whichever suffices; a year
outside 0 to 9999 carries its sign. Reading takes the date, the time and the offset in turn and
reports the first fault.
-/

namespace YangSubscriptions.Instant

/-- The decimal digits of `n`, padded with zeros to at least `width`. -/
def padded (width n : Nat) : List Char :=
  let ds := Nat.toDigits 10 n
  List.replicate (width - ds.length) '0' ++ ds

/-- A year of four digits or more, signed beyond 9999. -/
def yearChars (year : Int) : List Char :=
  if 0 ≤ year ∧ year ≤ 9999 then padded 4 year.toNat
  else (if year < 0 then '-' else '+') :: padded 4 year.natAbs

/-- The shortest fraction of three, six or nine digits. -/
def fractionChars (nanos : Nat) : List Char :=
  if nanos = 0 then []
  else if nanos % 1000000 = 0 then '.' :: padded 3 (nanos / 1000000)
  else if nanos % 1000 = 0 then '.' :: padded 6 (nanos / 1000)
  else '.' :: padded 9 nanos

/-- An instant in UTC; a leap second shows as second 60. -/
def chars (t : Instant) : List Char :=
  let date := Date.ofDays (t.seconds / 86400)
  let secondOfDay := (t.seconds % 86400).toNat
  let leap := if t.nanos < 1000000000 then 0 else 1
  yearChars date.year ++ '-' :: padded 2 date.month ++ '-' :: padded 2 date.day ++ 'T' ::
    padded 2 (secondOfDay / 3600) ++ ':' :: padded 2 (secondOfDay / 60 % 60) ++ ':' ::
    padded 2 (secondOfDay % 60 + leap) ++ fractionChars (t.nanos - leap * 1000000000) ++ ['Z']

/-- The text of an instant in every encoding (`format_date_time`). -/
def render (t : Instant) : String := String.ofList t.chars

inductive Fault where
  | outOfRange
  | invalid
  | tooShort
  | tooLong
  deriving DecidableEq, Repr

def Fault.message : Fault → String
  | .outOfRange => "input is out of range"
  | .invalid => "input contains invalid characters"
  | .tooShort => "premature end of input"
  | .tooLong => "trailing input"

/-- A number of exactly `n` digits; `acc` is the number read before. -/
def digits (n acc : Nat) (cs : List Char) : Except Fault (Nat × List Char) :=
  match n, cs with
  | 0, cs => .ok (acc, cs)
  | _ + 1, [] => .error .tooShort
  | n + 1, c :: r => if c.isDigit then digits n (10 * acc + (c.toNat - 48)) r else .error .invalid

/-- One of the characters, which `r` follows. -/
def oneOf (allowed : List Char) : List Char → Except Fault (List Char)
  | [] => .error .tooShort
  | c :: r => if allowed.contains c then .ok r else .error .invalid

/-- A fraction after its point, in nanoseconds; digits beyond the ninth are dropped. -/
def fraction (cs : List Char) : Except Fault (Nat × List Char) :=
  let ds := cs.takeWhile Char.isDigit
  if ds.isEmpty then .error (if cs.isEmpty then .tooShort else .invalid)
  else
    let kept := ds.take 9
    .ok (kept.foldl (fun n c => 10 * n + (c.toNat - 48)) 0 * Nat.pow 10 (9 - kept.length), cs.dropWhile Char.isDigit)

/-- Two digits, or their lack: a lone character of more than one byte counts as invalid. -/
def twoDigits : List Char → Except Fault (Nat × Nat × List Char)
  | [] => .error .tooShort
  | [c] => .error (if c.utf8Size < 2 then .tooShort else .invalid)
  | a :: b :: r =>
    if a.isDigit ∧ b.isDigit then .ok (a.toNat - 48, b.toNat - 48, r) else .error .invalid

/-- The offset from UTC in seconds. -/
def offset : List Char → Except Fault (Int × List Char)
  | [] => .error .tooShort
  | c :: r =>
    if c = 'Z' ∨ c = 'z' then .ok (0, r)
    else if c = '+' ∨ c = '-' ∨ c = '\u2212' then do
      let (a, b, r) ← twoDigits r
      let r ← oneOf [':'] r
      let (m, n, r) ← twoDigits r
      if 5 < m then .error .outOfRange
      let magnitude : Int := (10 * a + b) * 3600 + (10 * m + n) * 60
      .ok (if c = '+' then magnitude else -magnitude, r)
    else .error .invalid

/-- Reads a date, a time and an offset. -/
def parseChars (cs : List Char) : Except Fault Instant := do
  if Text.byteLength cs < 19 then .error .tooShort
  let (year, cs) ← digits 4 0 cs
  let cs ← oneOf ['-'] cs
  let (month, cs) ← digits 2 0 cs
  let cs ← oneOf ['-'] cs
  let (day, cs) ← digits 2 0 cs
  let date : Date := ⟨year, month, day⟩
  if !date.isValid then .error .outOfRange
  let cs ← oneOf ['t', 'T', ' '] cs
  let (hour, cs) ← digits 2 0 cs
  let cs ← oneOf [':'] cs
  let (minute, cs) ← digits 2 0 cs
  let cs ← oneOf [':'] cs
  let (second, cs) ← digits 2 0 cs
  let (nanos, cs) ← match cs with
    | '.' :: r => fraction r
    | _ => .ok (0, cs)
  if 23 < hour ∨ 59 < minute ∨ 60 < second then .error .outOfRange
  let (shift, cs) ← offset cs
  if !cs.isEmpty then .error .tooLong
  if shift ≤ -86400 ∨ 86400 ≤ shift then .error .outOfRange
  let leap := if second = 60 then 1 else 0
  .ok ⟨date.toDays * 86400 + (hour * 3600 + minute * 60 + (second - leap) : Nat) - shift, nanos + leap * 1000000000⟩

def parse (s : String) : Except Fault Instant := parseChars s.toList

end YangSubscriptions.Instant
