/-!
# Socket addresses

An IPv4 address in dotted decimal, or an IPv6 address in brackets with an optional scope, and a
port. An IPv6 address is written with its longest run of zero groups left out, the first of several
and none of one group, in lower-case hexadecimal; an IPv4-mapped one keeps the dotted form.
-/

namespace YangSubscriptions

/-- An address with a port; a scope of zero is none. -/
inductive SocketAddress where
  | v4 (octets : List Nat) (port : Nat)
  | v6 (groups : List Nat) (scope : Nat) (port : Nat)
  deriving DecidableEq, Repr, Inhabited

namespace SocketAddress

/-- The port of the loopback address. -/
def loopback (port : Nat) : SocketAddress := .v4 [127, 0, 0, 1] port

/-! ## Writing -/

def decimal (n : Nat) : List Char := Nat.toDigits 10 n

def dotted (octets : List Nat) : List Char := List.intercalate ['.'] (octets.map decimal)

def colons (groups : List Nat) : List Char := List.intercalate [':'] (groups.map (Nat.toDigits 16))

/-- The first of the longest runs of zeros, as its start and length. -/
def longestZeros (groups : List Nat) : Nat × Nat :=
  let runs := (List.range groups.length).map fun i => (i, ((groups.drop i).takeWhile (· = 0)).length)
  runs.foldl (fun best run => if best.2 < run.2 then run else best) (0, 0)

/-- The eight groups, the longest run of zeros left out. -/
def groupsChars (groups : List Nat) : List Char :=
  match groups with
  | [0, 0, 0, 0, 0, 0xffff, a, b] => "::ffff:".toList ++ dotted [a / 256, a % 256, b / 256, b % 256]
  | groups =>
    let (start, length) := longestZeros groups
    if 1 < length then colons (groups.take start) ++ [':', ':'] ++ colons (groups.drop (start + length))
    else colons groups

def chars : SocketAddress → List Char
  | .v4 octets port => dotted octets ++ ':' :: decimal port
  | .v6 groups scope port =>
    '[' :: groupsChars groups ++ (if scope = 0 then [] else '%' :: decimal scope) ++ ']' :: ':' :: decimal port

def render (a : SocketAddress) : String := String.ofList a.chars

/-! ## Reading -/

def digit? (radix : Nat) (c : Char) : Option Nat :=
  let n := if c.isDigit then c.toNat - 48
    else if 'a' ≤ c ∧ c ≤ 'f' then c.toNat - 87
    else if 'A' ≤ c ∧ c ≤ 'F' then c.toNat - 55
    else radix
  if n < radix then some n else none

/-- A number of at most `width` digits and below `bound`, and what follows it. A zero in front of
other digits is allowed if `padded`. -/
def number? (radix width bound : Nat) (padded : Bool) (cs : List Char) : Option (Nat × List Char) :=
  let ds := cs.takeWhile fun c => (digit? radix c).isSome
  let n := ds.foldl (fun n c => radix * n + (digit? radix c).getD 0) 0
  if ds.isEmpty ∨ width < ds.length ∨ bound ≤ n ∨ (!padded && ds.head? = some '0' && 1 < ds.length) then none
  else some (n, cs.drop ds.length)

/-- What follows the character. -/
def after? (c : Char) : List Char → Option (List Char)
  | d :: r => if d = c then some r else none
  | [] => none

/-- A number of the port's kind: as many digits as there are. -/
def decimal? (bound : Nat) (cs : List Char) : Option (Nat × List Char) := number? 10 cs.length bound true cs

/-- A number up to 255 without zeros in front. -/
def octet? : List Char → Option (Nat × List Char) := number? 10 3 256 false

def octets? (cs : List Char) : Option (List Nat × List Char) := do
  let (a, cs) ← octet? cs
  let (b, cs) ← octet? (← after? '.' cs)
  let (c, cs) ← octet? (← after? '.' cs)
  let (d, cs) ← octet? (← after? '.' cs)
  some ([a, b, c, d], cs)

/-- Up to `limit` groups between colons, the last two perhaps in dotted form, and whether they are.
Colons precede the groups unless `first`. -/
def groups (first : Bool) : Nat → List Char → List Nat × Bool × List Char
  | 0, cs => ([], false, cs)
  | limit + 1, cs =>
    match (if first then some cs else after? ':' cs) with
    | none => ([], false, cs)
    | some r =>
      match (if limit = 0 then none else octets? r) with
      | some ([a, b, c, d], rest) => ([256 * a + b, 256 * c + d], true, rest)
      | _ =>
        match number? 16 4 65536 true r with
        | none => ([], false, cs)
        | some (g, rest) =>
          let (gs, isDotted, rest) := groups false limit rest
          (g :: gs, isDotted, rest)

/-- Eight groups, or fewer around a double colon. -/
def address? (cs : List Char) : Option (List Nat × List Char) :=
  let (front, isDotted, rest) := groups true 8 cs
  if front.length = 8 then some (front, rest)
  else if isDotted then none
  else do
    let rest ← after? ':' (← after? ':' rest)
    let (back, _, rest) := groups true (7 - front.length) rest
    some (front ++ List.replicate (8 - front.length - back.length) 0 ++ back, rest)

def port? (cs : List Char) : Option (Nat × List Char) := do decimal? 65536 (← after? ':' cs)

/-- A scope that is not well formed is no scope, and then no bracket follows. -/
def scope (cs : List Char) : Nat × List Char :=
  match (after? '%' cs).bind (decimal? UInt32.size) with
  | some (n, rest) => (n, rest)
  | none => (0, cs)

def parse4? (cs : List Char) : Option (SocketAddress × List Char) := do
  let (octets, cs) ← octets? cs
  let (port, cs) ← port? cs
  some (.v4 octets port, cs)

def parse6? (cs : List Char) : Option (SocketAddress × List Char) := do
  let (groups, cs) ← address? (← after? '[' cs)
  let (scope, cs) := scope cs
  let (port, cs) ← port? (← after? ']' cs)
  some (.v6 groups scope port, cs)

/-- An address that is the whole text. -/
def parse? (s : String) : Option SocketAddress :=
  match (parse4? s.toList).orElse fun _ => parse6? s.toList with
  | some (a, []) => some a
  | _ => none

end SocketAddress

end YangSubscriptions
