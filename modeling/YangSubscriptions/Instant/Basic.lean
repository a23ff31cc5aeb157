/-!
# Instants

Points in time as seconds since 1970-01-01T00:00:00Z with a fraction in nanoseconds. A fraction of
a second or more belongs to a leap second, which follows the second that carries it and precedes
the next one. The calendar is the proleptic Gregorian one.
-/

namespace YangSubscriptions

structure Instant where
  seconds : Int
  nanos : Nat
  deriving DecidableEq, Repr, Inhabited

namespace Instant

/-- Before, where a leap second comes after the second that carries it. -/
def lt (s t : Instant) : Bool := s.seconds < t.seconds || (s.seconds = t.seconds && s.nanos < t.nanos)

def le (s t : Instant) : Bool := !t.lt s

instance : LT Instant := ⟨fun s t => s.lt t = true⟩
instance : LE Instant := ⟨fun s t => s.le t = true⟩

instance (s t : Instant) : Decidable (s < t) := inferInstanceAs (Decidable (s.lt t = true))
instance (s t : Instant) : Decidable (s ≤ t) := inferInstanceAs (Decidable (s.le t = true))

def addSeconds (t : Instant) (n : Int) : Instant := { t with seconds := t.seconds + n }

end Instant

/-- A day of the calendar. -/
structure Date where
  year : Int
  month : Nat
  day : Nat
  deriving DecidableEq, Repr

namespace Date

def isLeap (year : Int) : Bool := year % 4 = 0 && (year % 100 ≠ 0 || year % 400 = 0)

def monthLength (year : Int) (month : Nat) : Nat :=
  match month with
  | 2 => if isLeap year then 29 else 28
  | 4 | 6 | 9 | 11 => 30
  | _ => 31

def isValid (d : Date) : Bool := 1 ≤ d.month && d.month ≤ 12 && 1 ≤ d.day && d.day ≤ monthLength d.year d.month

/-- Days since 1970-01-01. The year is taken to begin in March, so that a leap day ends it. -/
def toDays (d : Date) : Int :=
  let year := if d.month ≤ 2 then d.year - 1 else d.year
  let cycle := year / 400
  let yearOfCycle := year % 400
  let month : Int := if d.month ≤ 2 then d.month + 9 else d.month - 3
  let dayOfYear := (153 * month + 2) / 5 + d.day - 1
  146097 * cycle + (365 * yearOfCycle + yearOfCycle / 4 - yearOfCycle / 100 + dayOfYear) - 719468

/-- The day with that number, counted from 1970-01-01. -/
def ofDays (n : Int) : Date :=
  let n := n + 719468
  let cycle := n / 146097
  let dayOfCycle := n % 146097
  let yearOfCycle := (dayOfCycle - dayOfCycle / 1460 + dayOfCycle / 36524 - dayOfCycle / 146096) / 365
  let dayOfYear := dayOfCycle - (365 * yearOfCycle + yearOfCycle / 4 - yearOfCycle / 100)
  let month := (5 * dayOfYear + 2) / 153
  let day := dayOfYear - (153 * month + 2) / 5 + 1
  let month' := if month < 10 then month + 3 else month - 9
  ⟨yearOfCycle + 400 * cycle + (if month' ≤ 2 then 1 else 0), month'.toNat, day.toNat⟩

end Date

end YangSubscriptions
