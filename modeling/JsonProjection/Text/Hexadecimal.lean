/-
# `JsonProjection.Text.Hexadecimal` -- numbers of hexadecimal digits.

The letters of the digits may be in either case.
-/
namespace JsonProjection.Text

/-- The value of a hexadecimal digit, in either case. -/
def hexValue? (c : Char) : Option Nat :=
  if '0' ≤ c ∧ c ≤ '9' then some (c.toNat - '0'.toNat)
  else if 'a' ≤ c ∧ c ≤ 'f' then some (c.toNat - 'a'.toNat + 10)
  else if 'A' ≤ c ∧ c ≤ 'F' then some (c.toNat - 'A'.toNat + 10)
  else none

/-- The number that the digits continue; a character that is no digit counts as zero. -/
def ofHexDigits (value : Nat) (digits : List Char) : Nat :=
  digits.foldl (fun value c => value * 16 + (hexValue? c).getD 0) value

/-- The character with a code point, if the number is one: below U+110000 and no surrogate. -/
def ofCodePoint? (n : Nat) : Option Char :=
  if n.isValidChar then some (Char.ofNat n) else none

end JsonProjection.Text
