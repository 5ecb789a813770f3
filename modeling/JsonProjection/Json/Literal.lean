/-
# `JsonProjection.Json.Literal` -- the grammar of JSON number literals.

A literal has an optional minus sign, an integer part without needless zeros, an optional part after a
point and an optional exponent.  `Literal.ofChars?` splits a word into these parts or refuses it.

What number the literal stands for is not decided here, but which of its digits count is: `significand` is
a number of 64 bits, made of as many digits as fit, and a power of ten that makes up for the others.
-/
namespace JsonProjection.Json

/-- A decimal digit. -/
def isDigit (c : Char) : Bool := '0' ≤ c && c ≤ '9'

/-- **The parts of a number literal**, the digits as characters. -/
structure Literal where
  negative : Bool
  whole : List Char
  /-- the digits after the point, if there is a point -/
  fraction : Option (List Char)
  /-- the exponent, if there is one -/
  exponent : Option Int
  deriving DecidableEq

namespace Literal

/-- The digits at the beginning of a text, at least one, and what follows them. -/
def digits? (cs : List Char) : Option (List Char × List Char) :=
  match cs.takeWhile isDigit with
  | [] => none
  | d :: ds => some (d :: ds, cs.dropWhile isDigit)

/-- The part after a point, if a point comes next. -/
def fraction? (cs : List Char) : Option (Option (List Char) × List Char) :=
  match cs with
  | '.' :: rest => (digits? rest).map fun (ds, rest) => (some ds, rest)
  | _ => some (none, cs)

/-- An optional minus sign: whether it is there, and what follows it. -/
def sign (cs : List Char) : Bool × List Char :=
  match cs with
  | '-' :: rest => (true, rest)
  | _ => (false, cs)

/-- The digits of an exponent, after its sign if it has one; nothing may follow. -/
def exponentValue? (cs : List Char) : Option Int :=
  let (negative, ds) :=
    match cs with
    | '+' :: rest => (false, rest)
    | _ => sign cs
  match digits? ds with
  | some (ds, []) =>
    let n : Int := Nat.ofDigitChars 10 ds 0
    some (if negative then -n else n)
  | _ => none

/-- The exponent at the end of a literal, if there is one. -/
def exponent? (cs : List Char) : Option (Option Int) :=
  match cs with
  | [] => some none
  | c :: rest => if c = 'e' ∨ c = 'E' then (exponentValue? rest).map some else none

/-- **Splitting a literal**: `none` if the characters are no number literal. -/
def ofChars? (cs : List Char) : Option Literal := do
  let (negative, cs) := sign cs
  let (whole, cs) ← digits? cs
  if whole.head? = some '0' ∧ whole ≠ ['0'] then none
  let (fraction, cs) ← fraction? cs
  let exponent ← exponent? cs
  return ⟨negative, whole, fraction, exponent⟩

/-- Whether the literal has neither a point nor an exponent. -/
def isInteger (literal : Literal) : Bool := literal.fraction.isNone && literal.exponent.isNone

/-- The number that the digits before the point stand for. -/
def wholeNumber (literal : Literal) : Nat := Nat.ofDigitChars 10 literal.whole 0

/-! ## The digits that count -/

/-- Digits appended to a number one after the other while it stays below `2 ^ 64`: the number, and the
digits from the first that does not fit. -/
def appendDigits (n : Nat) : List Char → Nat × List Char
  | [] => (n, [])
  | c :: cs =>
    let next := Nat.ofDigitChars 10 [c] n
    if next < 18446744073709551616 then appendDigits next cs else (n, c :: cs)

/-- **The significand**: the digits that fit into 64 bits, read as one number, and the power of ten that it
is to be multiplied with.  A digit that is left out before the point raises the power by one; digits that
are left out after the point are lost. -/
def significand (literal : Literal) : Nat × Int :=
  let fraction := literal.fraction.getD []
  let (n, wholeLeft) := appendDigits 0 literal.whole
  -- a smaller digit may fit again after the point
  let (n, fractionLeft) := appendDigits n fraction
  let taken : Int := (fraction.length : Int) - (fractionLeft.length : Int)
  (n, literal.exponent.getD 0 + (wholeLeft.length : Int) - taken)

end Literal

end JsonProjection.Json
