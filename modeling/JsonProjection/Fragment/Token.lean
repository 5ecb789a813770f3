/-
# `JsonProjection.Fragment.Token` -- the tokens of a fragment, each with its place in the text.

A fragment is read character by character, whitespace left out.  Five characters punctuate; a `-` whose
next character (whitespace left out) is `>` is the arrow, in whatever place it stands; every other
character is a token of its own, because whitespace may stand inside a name and a name is therefore not a
run of the text.  `locate` keeps with each token the number of bytes before it in the text as given.
-/
import JsonProjection.Text.Whitespace

namespace JsonProjection.Fragment

open JsonProjection.Text (isWhitespace)

/-! ## Tokens -/

/-- A token of a fragment. -/
inductive Token where
  /-- a character of a name, or one that has no place in a fragment -/
  | plain (c : Char)
  /-- `->` -/
  | arrow
  /-- `,` -/
  | comma
  /-- `:` -/
  | colon
  /-- the left brace -/
  | opening
  /-- the right brace -/
  | closing
  deriving DecidableEq

namespace Token

/-- The token of a character that starts no arrow. -/
def ofChar (c : Char) : Token :=
  if c = ',' then .comma
  else if c = ':' then .colon
  else if c = '{' then .opening
  else if c = '}' then .closing
  else .plain c

/-- The first character of a token, the one that an error names. -/
def first : Token → Char
  | .plain c => c
  | .arrow => '-'
  | .comma => ','
  | .colon => ':'
  | .opening => '{'
  | .closing => '}'

/-- The characters of a token, without whitespace. -/
def chars : Token → List Char
  | .arrow => ['-', '>']
  | token => [token.first]

/-- The text of a row of tokens, without whitespace. -/
def text (tokens : List Token) : String := String.ofList (tokens.flatMap chars)

end Token

/-- **Name characters**: letters and digits of ASCII, `_` and `-`. -/
def isNameChar (c : Char) : Bool :=
  c.isAlphanum || c = '_' || c = '-'

/-! ## From characters to tokens -/

/-- The characters that are no whitespace, each with the number of bytes before it; `offset` bytes
precede the whole. -/
def visible (offset : Nat) : List Char → List (Nat × Char)
  | [] => []
  | c :: cs =>
    if isWhitespace c then visible (offset + c.utf8Size) cs
    else (offset, c) :: visible (offset + c.utf8Size) cs

/-- Joins each `-` with a `>` that follows it to an arrow; an arrow stands where its `-` does. -/
def joinArrows : List (Nat × Char) → List (Nat × Token)
  | [] => []
  | [(offset, c)] => [(offset, .ofChar c)]
  | (offset, c) :: (offset', c') :: rest =>
    if c = '-' ∧ c' = '>' then (offset, .arrow) :: joinArrows rest
    else (offset, .ofChar c) :: joinArrows ((offset', c') :: rest)

/-- **The tokens of a text**, each with the number of bytes before it. -/
def locate (cs : List Char) : List (Nat × Token) := joinArrows (visible 0 cs)

end JsonProjection.Fragment
