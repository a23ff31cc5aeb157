/-!
# Binary64 values

The finite IEEE 754 doubles as exact dyadic numbers, with rounding to nearest (ties to even) in
exact natural-number arithmetic. `roundRatio` is the only place that rounds; product and quotient
go through it.
-/

namespace YangSubscriptions

/-- The number `± significand · 2 ^ exponent`, with `significand < 2 ^ 53`, `-1074 ≤ exponent` and
the exponent as small as these allow. -/
structure Binary64 where
  negative : Bool
  significand : Nat
  exponent : Int
  deriving DecidableEq, Repr, Inhabited

namespace Binary64

/-- The least significand of a normal value, `2 ^ 52`. -/
def hiddenBit : Nat := 4503599627370496

/-- The nearest integer to `num / den`, the even one of two. -/
def roundDiv (num den : Nat) : Nat :=
  let q := num / den
  let r := num % den
  if 2 * r < den then q
  else if den < 2 * r then q + 1
  else if q % 2 = 0 then q else q + 1

/-- The pair `(num', den')` with `num' / den' = num / den / 2 ^ e`. -/
def scaled (num den : Nat) (e : Int) : Nat × Nat :=
  if 0 ≤ e then (num, den * Nat.pow 2 e.toNat) else (num * Nat.pow 2 (-e).toNat, den)

/-- The exponent of the last place of `num / den`. -/
def lastPlace (num den : Nat) : Int :=
  let e : Int := (num.log2 : Int) - den.log2 - 52
  let p := scaled num den e
  max (-1074) (if p.1 < p.2 * hiddenBit then e - 1 else e)

def zero (negative : Bool) : Binary64 := ⟨negative, 0, -1074⟩

/-- The value nearest to `± num / den`; none if that is beyond the largest finite one. -/
def roundRatio (negative : Bool) (num den : Nat) : Option Binary64 :=
  if num = 0 then some (zero negative)
  else
    let e := lastPlace num den
    let p := scaled num den e
    let m := roundDiv p.1 p.2
    let m' := if m = 2 * hiddenBit then hiddenBit else m
    let e' := if m = 2 * hiddenBit then e + 1 else e
    if 971 < e' then none else some ⟨negative, m', e'⟩

/-- Numerator and denominator of the magnitude. -/
def ratio (x : Binary64) : Nat × Nat :=
  if 0 ≤ x.exponent then (x.significand * Nat.pow 2 x.exponent.toNat, 1)
  else (x.significand, Nat.pow 2 (-x.exponent).toNat)

/-- The product, rounded once. -/
def mul (x y : Binary64) : Option Binary64 :=
  roundRatio (x.negative != y.negative) (x.ratio.1 * y.ratio.1) (x.ratio.2 * y.ratio.2)

/-- The quotient by a value that is not zero. -/
def div (x y : Binary64) : Option Binary64 :=
  roundRatio (x.negative != y.negative) (x.ratio.1 * y.ratio.2) (x.ratio.2 * y.ratio.1)

def ofNat (n : Nat) : Option Binary64 := roundRatio false n 1

def neg (x : Binary64) : Binary64 := { x with negative := !x.negative }

end Binary64

end YangSubscriptions
