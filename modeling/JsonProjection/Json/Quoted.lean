/-
# `JsonProjection.Json.Quoted` -- what stands between the quotes of a JSON string.

`encode` writes a text with the fewest escapes: the quote, the backslash and the characters below U+0020
are escaped, the last with a letter where the format has one and with four hexadecimal digits otherwise;
every other character stands for itself.  `decode` reads any text the format admits.  It takes two
passes: the first turns escapes into characters or sixteen-bit units, the second joins the two units of a
surrogate pair and refuses a surrogate that stands alone.
-/
import JsonProjection.Text.Hexadecimal

namespace JsonProjection.Json.Quoted

open JsonProjection.Text (hexValue?)

/-! ## Writing -/

/-- The letter that escapes a character, for the characters that have one. -/
def escapeLetter? (c : Char) : Option Char :=
  if c = '"' then some '"'
  else if c = '\\' then some '\\'
  else if c = '\x08' then some 'b'
  else if c = '\x0c' then some 'f'
  else if c = '\n' then some 'n'
  else if c = '\r' then some 'r'
  else if c = '\t' then some 't'
  else none

/-- One character, escaped if it has to be. -/
def encodeChar (c : Char) : List Char :=
  match escapeLetter? c with
  | some letter => ['\\', letter]
  | none =>
    if c.toNat < 0x20 then
      ['\\', 'u', '0', '0', Nat.digitChar (c.toNat / 16), Nat.digitChar (c.toNat % 16)]
    else [c]

/-- **Writing** a text between quotes. -/
def encode (cs : List Char) : List Char := cs.flatMap encodeChar

/-! ## Reading -/

/-- The character that an escape letter stands for; a slash may be escaped too. -/
def ofEscapeLetter? (letter : Char) : Option Char :=
  if letter = '"' then some '"'
  else if letter = '\\' then some '\\'
  else if letter = '/' then some '/'
  else if letter = 'b' then some '\x08'
  else if letter = 'f' then some '\x0c'
  else if letter = 'n' then some '\n'
  else if letter = 'r' then some '\r'
  else if letter = 't' then some '\t'
  else none

/-- The sixteen-bit unit of four hexadecimal digits. -/
def unit? (a b c d : Char) : Option Nat := do
  let a ← hexValue? a
  let b ← hexValue? b
  let c ← hexValue? c
  let d ← hexValue? d
  return ((a * 16 + b) * 16 + c) * 16 + d

/-- A piece of a string: a character, or a unit that was written in hexadecimal. -/
inductive Piece where
  | char (c : Char)
  | unit (n : Nat)
  deriving DecidableEq

/-- Resolves the escapes; a character below U+0020 must be escaped. -/
def pieces? : List Char → Option (List Piece)
  | [] => some []
  | '\\' :: 'u' :: a :: b :: c :: d :: rest =>
    match unit? a b c d, pieces? rest with
    | some n, some more => some (.unit n :: more)
    | _, _ => none
  | '\\' :: letter :: rest =>
    match ofEscapeLetter? letter, pieces? rest with
    | some c, some more => some (.char c :: more)
    | _, _ => none
  | c :: rest =>
    if c = '\\' ∨ c.toNat < 0x20 then none else (pieces? rest).map (.char c :: ·)

/-- Whether a unit is the first of a surrogate pair. -/
def isHigh (n : Nat) : Bool := 0xD800 ≤ n && n < 0xDC00

/-- Whether a unit is the second of a surrogate pair. -/
def isLow (n : Nat) : Bool := 0xDC00 ≤ n && n < 0xE000

/-- Turns units into characters, two at a time where they form a pair. -/
def join? : List Piece → Option (List Char)
  | [] => some []
  | .char c :: rest => (join? rest).map (c :: ·)
  | .unit n :: .unit m :: rest =>
    if isHigh n then
      if isLow m then
        -- ten bits from each unit
        (join? rest).map (Char.ofNat (0x10000 + (n - 0xD800) * 0x400 + (m - 0xDC00)) :: ·)
      else none
    else if isLow n then none
    else (join? (.unit m :: rest)).map (Char.ofNat n :: ·)
  | .unit n :: rest =>
    if isHigh n || isLow n then none else (join? rest).map (Char.ofNat n :: ·)

/-- **Reading** what stands between quotes. -/
def decode (cs : List Char) : Option (List Char) := (pieces? cs).bind join?

end JsonProjection.Json.Quoted
