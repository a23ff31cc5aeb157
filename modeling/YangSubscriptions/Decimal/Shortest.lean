import YangSubscriptions.Decimal.Binary64

/-!
# The shortest decimal of a binary64 value

Of the decimals that round to the value, the ones with the fewest digits, and of those the nearest.
A value is positional from `0.00001` up to below `10 ^ 16` and keeps a fraction of `.0`; beyond it
has an exponent with its sign written out when positive needs telling from the digits.
-/

namespace YangSubscriptions.Binary64

/-- The reals that round to a positive value, as bounds with a common denominator, the value itself
between them; the bounds belong to the interval iff the significand is even. -/
structure Interval where
  lower : Nat
  value : Nat
  upper : Nat
  unit : Nat
  closed : Bool

/-- Quarters of the last place: the gap below a power of two is half as wide as the one above. -/
def interval (x : Binary64) : Interval :=
  let below := if x.significand = hiddenBit ∧ -1074 < x.exponent then 1 else 2
  let m := 4 * x.significand
  let e := x.exponent - 2
  let scale (n : Nat) := if 0 ≤ e then n * Nat.pow 2 e.toNat else n
  ⟨scale (m - below), scale m, scale (m + 2), if 0 ≤ e then 1 else Nat.pow 2 (-e).toNat, x.significand % 2 = 0⟩

namespace Interval

/-- Does `d · 10 ^ k` lie in the interval? -/
def contains (i : Interval) (d : Nat) (k : Int) : Bool :=
  let n := if 0 ≤ k then d * Nat.pow 10 k.toNat * i.unit else d * i.unit
  let s := if 0 ≤ k then 1 else Nat.pow 10 (-k).toNat
  if i.closed then i.lower * s ≤ n && n ≤ i.upper * s else i.lower * s < n && n < i.upper * s

/-- The exponent of the leading digit of the value. -/
def leading (i : Interval) : Int :=
  ((Nat.toDigits 10 (i.value * Nat.pow 10 330 / i.unit)).length : Int) - 331

/-- The best decimal on the grid of multiples of `10 ^ k`, if one lies in the interval. -/
def onGrid (i : Interval) (k : Int) : Option Nat :=
  let num := if 0 ≤ k then i.value else i.value * Nat.pow 10 (-k).toNat
  let den := if 0 ≤ k then i.unit * Nat.pow 10 k.toNat else i.unit
  let d := num / den
  match i.contains d k, i.contains (d + 1) k with
  | false, false => none
  | true, false => some d
  | false, true => some (d + 1)
  | true, true => some (roundDiv num den)

/-- Tries `n` digits, then one more, as long as tries are left. -/
def search (i : Interval) : Nat → Nat → Option (Nat × Int)
  | 0, _ => none
  | tries + 1, n =>
    let k := i.leading - n + 1
    match i.onGrid k with
    | some d => some (d, k)
    | none => i.search tries (n + 1)

end Interval

/-- Digits without trailing zeros and the exponent of the first of them. -/
def shortest (x : Binary64) : List Char × Int :=
  match x.interval.search 17 1 with
  | none => (['0'], 0)
  | some (d, k) =>
    let ds := Nat.toDigits 10 d
    ((ds.reverse.dropWhile (· = '0')).reverse, k + ds.length - 1)

/-- Where positional notation begins and ends, as exponents of the first digit. -/
structure Layout where
  least : Int
  greatest : Int

/-- A number of a document is positional from `10 ^ -5` to below `10 ^ 16`. -/
def documentLayout : Layout := ⟨-5, 15⟩

/-- Digits with the point or the exponent that the layout asks for. -/
def digitsText (style : Layout) (ds : List Char) (k : Int) : List Char :=
  if 0 ≤ k ∧ k ≤ style.greatest then
    let whole := ds.take (k.toNat + 1)
    let fraction := ds.drop (k.toNat + 1)
    whole ++ List.replicate (k.toNat + 1 - whole.length) '0' ++ '.' :: (if fraction.isEmpty then ['0'] else fraction)
  else if k < 0 ∧ style.least ≤ k then '0' :: '.' :: (List.replicate (-k - 1).toNat '0' ++ ds)
  else
    let fraction := ds.drop 1
    ds.take 1 ++ (if fraction.isEmpty then [] else '.' :: fraction) ++ 'e' ::
      (if k < 0 then '-' else '+') :: Nat.toDigits 10 k.natAbs

/-- The text of a value in a document. -/
def render (x : Binary64) : List Char :=
  (if x.negative then ['-'] else []) ++
    (if x.significand = 0 then ['0', '.', '0']
     else
      let (ds, k) := x.shortest
      digitsText documentLayout ds k)

end YangSubscriptions.Binary64
