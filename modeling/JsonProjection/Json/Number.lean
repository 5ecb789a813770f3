/-
# `JsonProjection.Json.Number` -- the numbers of a JSON document, read and written.

A literal without point and exponent that fits into 64 bits (unsigned, or signed if it has a minus sign)
is kept as an integer; every other literal, and `-0`, is a double, its significand scaled in floating
point.

An integer is written in decimal.  A double is written with the fewest digits to which it is the nearest
double, of those digits the ones nearest to its value, of two equally near ones the even one; `Layout`
says where the point stands.  The digits are searched for by rounding the candidates.  Since reading
rounds more than once, the text of a double need not be read as the same double again.
-/
import JsonProjection.Json.Double
import JsonProjection.Json.Literal

namespace JsonProjection.Json

/-- **Numbers**: integers of 64 bits, from `-2 ^ 63` up to but not including `2 ^ 64`, and finite
doubles. -/
inductive Number where
  | int (n : Int) (ge : -9223372036854775808 ≤ n) (lt : n < 18446744073709551616)
  | float (d : Double)
  deriving DecidableEq

/-! ## Reading -/

namespace Literal

/-- The double of the literal. -/
def toDouble? (literal : Literal) : Option Double :=
  let (digits, scale) := literal.significand
  Double.ofScaled? literal.negative digits scale

/-- The integer that the literal stands for, if it has neither point nor exponent; a zero with a minus
sign stands for no integer. -/
def toInt? (literal : Literal) : Option Int :=
  if literal.isInteger then
    if literal.negative then
      if literal.wholeNumber = 0 then none else some (-(literal.wholeNumber : Int))
    else some (literal.wholeNumber : Int)
  else none

/-- **The number of a literal**; `none` if it is too large for a double. -/
def toNumber? (literal : Literal) : Option Number :=
  match literal.toInt? with
  | some n =>
    if h : -9223372036854775808 ≤ n ∧ n < 18446744073709551616 then some (.int n h.1 h.2)
    else literal.toDouble?.map .float
  | none => literal.toDouble?.map .float

end Literal

/-- The number that the characters of a word stand for. -/
def Number.ofChars? (cs : List Char) : Option Number := do
  let literal ← Literal.ofChars? cs
  literal.toNumber?

/-! ## Writing -/

/-- Where the point stands in the text of a double: numbers whose first digit stands for a power of ten
between these bounds are written out, all others with an exponent. -/
structure Layout where
  least : Int
  greatest : Int

/-- Doubles of a document are written out from `0.00001` up to sixteen digits before the point. -/
def Layout.json : Layout := ⟨-5, 15⟩

namespace Layout

/-- The text of the exponent, always with a sign. -/
def exponentChars (e : Int) : List Char :=
  'e' :: (if e < 0 then '-' else '+') :: Nat.toDigits 10 e.natAbs

/-- The digits `ds`, the first of which stands for `10 ^ e`, as a text without a sign. -/
def chars (layout : Layout) (ds : List Char) (e : Int) : List Char :=
  if layout.least ≤ e ∧ e ≤ layout.greatest then
    if 0 ≤ e then
      let whole := e.toNat + 1
      let fraction := ds.drop whole
      ds.take whole ++ List.replicate (whole - ds.length) '0' ++ '.' ::
        (if fraction.isEmpty then ['0'] else fraction)
    else '0' :: '.' :: (List.replicate ((-e).toNat - 1) '0' ++ ds)
  else
    match ds with
    | [] => []
    | [d] => d :: exponentChars e
    | d :: rest => d :: '.' :: (rest ++ exponentChars e)

end Layout

namespace Double

/-- The text of `digits * 10 ^ exponent` with the given sign; zeros at the end of the digits are left
out. -/
def decimalChars (negative : Bool) (digits : Nat) (exponent : Int) : List Char :=
  let ds := Nat.toDigits 10 digits
  let first := exponent + (ds.length : Int) - 1
  let short := (ds.reverse.dropWhile (· = '0')).reverse
  (if negative then ['-'] else []) ++ Layout.json.chars short first

/-- This is the nearest double to `digits * 10 ^ unit`, with the sign of this one. -/
def isNearest (d : Double) (unit : Int) (digits : Nat) : Bool :=
  decide (ofDecimal? d.negative digits unit = some d)

/-- The power of ten that the first digit of the value stands for.  Every double that is not zero is
larger than `10 ^ (-324)`. -/
def firstPower (d : Double) : Int :=
  let (num, den) := d.ratio
  ((Nat.toDigits 10 (num * Nat.pow 10 324 / den)).length : Int) - 325

/-- The two neighbours of the value among the multiples of `10 ^ unit`, the nearer one first.  Of two
equally near ones the even one comes first. -/
def neighbours (d : Double) (unit : Int) : List Nat :=
  let (num, den) := d.ratio
  let (n, m) := if 0 ≤ unit then (num, den * Nat.pow 10 unit.toNat) else (num * Nat.pow 10 (-unit).toNat, den)
  let q := n / m
  if roundHalfEven n m = q then [q, q + 1] else [q + 1, q]

/-- All digits of the value, and the power of ten of the last. -/
def exactDecimal (d : Double) : Nat × Int :=
  if 0 ≤ d.exponent then (d.mantissa * Nat.pow 2 d.exponent.toNat, 0)
  else (d.mantissa * Nat.pow 5 (-d.exponent).toNat, d.exponent)

/-- **The shortest decimal** to which this is the nearest double, the nearest to the value among those, as
digits and the power of ten of the last.  Seventeen digits are always enough. -/
def shortestDecimal (d : Double) : Nat × Int :=
  let first := d.firstPower
  -- one digit, two digits, and so on
  let found := (List.range 17).findSome? fun (k : Nat) =>
    let unit := first - (k : Int)
    ((d.neighbours unit).find? (d.isNearest unit)).map fun digits => (digits, unit)
  found.getD d.exactDecimal

/-- The text of a double. -/
def chars (d : Double) : List Char :=
  if d.mantissa = 0 then (if d.negative then ['-'] else []) ++ ['0', '.', '0']
  else
    let (digits, unit) := d.shortestDecimal
    decimalChars d.negative digits unit

end Double

/-- The characters of an integer. -/
def intChars (n : Int) : List Char :=
  (if n < 0 then ['-'] else []) ++ Nat.toDigits 10 n.natAbs

/-- **The text of a number** in a document. -/
def Number.chars : Number → List Char
  | .int n _ _ => intChars n
  | .float d => d.chars

end JsonProjection.Json
