/-
# `JsonProjection.Json.Double` -- finite binary64 numbers as exact data.

A finite double is a sign, a mantissa and an exponent of two, in the one form that the standard gives it:
the mantissa has 53 bits, or the exponent is the least one and the mantissa has fewer.  Nothing here
computes with hardware floats, so every statement about doubles is one about natural numbers.

`ofRatio?` rounds a quotient of natural numbers to the nearest double, a tie to the even mantissa, and
refuses a quotient that rounds beyond the largest double.  Every operation is the exact result rounded
once by it: `ofDecimal?` for a decimal, `times?` and `over?` for two doubles.  `ofScaled?` is a decimal in
floating point: its digits and its power of ten are rounded first, and their product or quotient after.
It agrees with `ofDecimal?` where both parts are exact, and may be off by a unit or so elsewhere.
-/
namespace JsonProjection.Json

/-- **Finite doubles.** The value is `mantissa * 2 ^ exponent`, with the sign `negative`.  The bounds of
the mantissa are the powers `2 ^ 53` and `2 ^ 52`. -/
structure Double where
  negative : Bool
  mantissa : Nat
  exponent : Int
  mantissa_lt : mantissa < 9007199254740992
  normal : 4503599627370496 ≤ mantissa ∨ exponent = -1074
  exponent_ge : -1074 ≤ exponent
  exponent_le : exponent ≤ 971
  deriving DecidableEq

namespace Double

/-- Zero, which has a sign. -/
def zero (negative : Bool) : Double :=
  ⟨negative, 0, -1074, by decide, by decide, by decide, by decide⟩

/-- The value without its sign, as a numerator and a denominator. -/
def ratio (d : Double) : Nat × Nat :=
  if 0 ≤ d.exponent then (d.mantissa * Nat.pow 2 d.exponent.toNat, 1)
  else (d.mantissa, Nat.pow 2 (-d.exponent).toNat)

/-! ## Rounding -/

/-- `num / den` rounded to the nearest natural number, a half to the even one. -/
def roundHalfEven (num den : Nat) : Nat :=
  let q := num / den
  let r := num % den
  if 2 * r < den then q
  else if den < 2 * r then q + 1
  else q + q % 2

/-- `num / (den * 2 ^ e)` as a numerator and a denominator. -/
def scaled (num den : Nat) (e : Int) : Nat × Nat :=
  if 0 ≤ e then (num, den * Nat.pow 2 e.toNat) else (num * Nat.pow 2 (-e).toNat, den)

/-- The exponent of the last bit that a double near `num / den` has: the one that leaves 53 bits before
the point, but not less than the least exponent. -/
def unitExponent (num den : Nat) : Int :=
  -- the logarithms leave 53 or 54 bits; the comparison decides which
  let e : Int := (num.log2 : Int) - (den.log2 : Int) - 53
  let (n, d) := scaled num den e
  max (if n < 9007199254740992 * d then e else e + 1) (-1074)

/-- The double of a mantissa of at most 53 bits, or of `2 ^ 53`; nothing beyond the largest exponent. -/
def ofMantissa? (negative : Bool) (mantissa : Nat) (exponent : Int) : Option Double :=
  -- rounding up may have carried into a further bit
  let (m, e) :=
    if mantissa = 9007199254740992 then (4503599627370496, exponent + 1) else (mantissa, exponent)
  if h : m < 9007199254740992 ∧ (4503599627370496 ≤ m ∨ e = -1074) ∧ -1074 ≤ e ∧ e ≤ 971 then
    some ⟨negative, m, e, h.1, h.2.1, h.2.2.1, h.2.2.2⟩
  else none

/-- **The nearest double** to `num / den`, ties to the even mantissa; `none` beyond the largest. -/
def ofRatio? (negative : Bool) (num den : Nat) : Option Double :=
  if num = 0 then some (zero negative)
  else
    let e := unitExponent num den
    let (n, d) := scaled num den e
    ofMantissa? negative (roundHalfEven n d) e

/-- **The nearest double** to `digits * 10 ^ exponent`. -/
def ofDecimal? (negative : Bool) (digits : Nat) (exponent : Int) : Option Double :=
  if 0 ≤ exponent then ofRatio? negative (digits * Nat.pow 10 exponent.toNat) 1
  else ofRatio? negative digits (Nat.pow 10 (-exponent).toNat)

/-! ## Products and quotients -/

/-- The product of two doubles, rounded once. -/
def times? (a b : Double) : Option Double :=
  ofRatio? (a.negative ^^ b.negative) (a.ratio.1 * b.ratio.1) (a.ratio.2 * b.ratio.2)

/-- The quotient of two doubles, rounded once; there is none by zero. -/
def over? (a b : Double) : Option Double :=
  if b.mantissa = 0 then none
  else ofRatio? (a.negative ^^ b.negative) (a.ratio.1 * b.ratio.2) (a.ratio.2 * b.ratio.1)

/-! ## Decimals in floating point -/

/-- The nearest double to `10 ^ k`; up to `k = 308` there is one. -/
def powerOfTen? (k : Nat) : Option Double := ofRatio? false (Nat.pow 10 k) 1

/-- The double times `10 ^ k`.  Zero stays zero however large the power is. -/
def scaleUp? (d : Double) (k : Nat) : Option Double :=
  if d.mantissa = 0 then some d
  else if k ≤ 308 then (powerOfTen? k).bind d.times?
  else none

/-- The double, which is to be below `10 ^ 20`, over `10 ^ k`.  A power that is no double is divided by in
two steps, and beyond `10 ^ 616` nothing is left. -/
def scaleDown? (d : Double) (k : Nat) : Option Double :=
  if k ≤ 308 then (powerOfTen? k).bind d.over?
  else if k ≤ 616 then do
    let part ← (powerOfTen? 308).bind d.over?
    (powerOfTen? (k - 308)).bind part.over?
  else some (zero d.negative)

/-- **A decimal in floating point**: `digits`, a number of 64 bits, is rounded to a double and then scaled
by `10 ^ exponent`; `none` beyond the largest double. -/
def ofScaled? (negative : Bool) (digits : Nat) (exponent : Int) : Option Double := do
  let d ← ofRatio? negative digits 1
  if 0 ≤ exponent then d.scaleUp? exponent.toNat else d.scaleDown? (-exponent).toNat

end Double

end JsonProjection.Json
