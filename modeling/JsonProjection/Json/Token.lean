/-
# `JsonProjection.Json.Token` -- the tokens of a JSON text.

A text is cut into punctuation, strings and words; a word is a longest run of letters, digits, signs and
points, and is `null`, `true`, `false` or a number.  Cutting at the longest run refuses nothing that the
grammar admits, because no two words may stand side by side.

The lexer takes one character at a time.  Inside a string it only looks for the closing quote; the
characters between the quotes are read by `Quoted.decode`.
-/
import JsonProjection.Json.Number
import JsonProjection.Json.Quoted
import JsonProjection.Text.Whitespace

namespace JsonProjection.Json

open JsonProjection.Text (isBlank)

/-- A token of a JSON text. -/
inductive Token where
  | openArray
  | closeArray
  | openObject
  | closeObject
  | comma
  | colon
  | null
  | bool (b : Bool)
  | num (n : Number)
  | str (s : String)
  deriving DecidableEq

namespace Token

/-! ## Writing -/

/-- A string in quotes. -/
def quoted (s : String) : List Char := '"' :: (Quoted.encode s.toList ++ ['"'])

/-- The characters of a token. -/
def chars : Token → List Char
  | .openArray => ['[']
  | .closeArray => [']']
  | .openObject => ['{']
  | .closeObject => ['}']
  | .comma => [',']
  | .colon => [':']
  | .null => ['n', 'u', 'l', 'l']
  | .bool true => ['t', 'r', 'u', 'e']
  | .bool false => ['f', 'a', 'l', 's', 'e']
  | .num n => n.chars
  | .str s => quoted s

/-! ## Reading -/

/-- A character of a word. -/
def isWordChar (c : Char) : Bool := c.isAlphanum || c = '+' || c = '-' || c = '.'

/-- The token that a word is. -/
def ofWord? (word : List Char) : Option Token :=
  if word = ['n', 'u', 'l', 'l'] then some .null
  else if word = ['t', 'r', 'u', 'e'] then some (.bool true)
  else if word = ['f', 'a', 'l', 's', 'e'] then some (.bool false)
  else (Number.ofChars? word).map .num

/-- The token that a single character is. -/
def ofPunctuation? (c : Char) : Option Token :=
  if c = '[' then some .openArray
  else if c = ']' then some .closeArray
  else if c = '{' then some .openObject
  else if c = '}' then some .closeObject
  else if c = ',' then some .comma
  else if c = ':' then some .colon
  else none

end Token

/-- Where the lexer stands.  Characters are kept newest first. -/
inductive Lexer.Phase where
  /-- between tokens -/
  | between
  /-- in a word -/
  | word (newest : List Char)
  /-- in a string; `escaped` says that the last character was a backslash that escapes the next -/
  | string (newest : List Char) (escaped : Bool)
  deriving DecidableEq

/-- The state of the lexer: the tokens so far, newest first, and the phase. -/
structure Lexer where
  tokens : List Token
  phase : Lexer.Phase
  deriving DecidableEq

namespace Lexer

/-- Before the first character. -/
def initial : Lexer := ⟨[], .between⟩

/-- Ends the word that is being read, if any. -/
def endWord? (lexer : Lexer) : Option Lexer :=
  match lexer.phase with
  | .word newest => (Token.ofWord? newest.reverse).map fun token => ⟨token :: lexer.tokens, .between⟩
  | _ => some lexer

/-- A character between two tokens. -/
def stepBetween? (lexer : Lexer) (c : Char) : Option Lexer :=
  if isBlank c then some ⟨lexer.tokens, .between⟩
  else if c = '"' then some ⟨lexer.tokens, .string [] false⟩
  else if Token.isWordChar c then some ⟨lexer.tokens, .word [c]⟩
  else (Token.ofPunctuation? c).map fun token => ⟨token :: lexer.tokens, .between⟩

/-- **One character.** -/
def step? (lexer : Lexer) (c : Char) : Option Lexer :=
  match lexer.phase with
  | .between => lexer.stepBetween? c
  | .word newest =>
    if Token.isWordChar c then some ⟨lexer.tokens, .word (c :: newest)⟩
    else lexer.endWord?.bind fun ended => ended.stepBetween? c
  | .string newest escaped =>
    -- an escaped quote closes nothing, and an escaped backslash escapes nothing
    if escaped then some ⟨lexer.tokens, .string (c :: newest) false⟩
    else if c = '"' then
      (Quoted.decode newest.reverse).map fun cs => ⟨.str (String.ofList cs) :: lexer.tokens, .between⟩
    else some ⟨lexer.tokens, .string (c :: newest) (c = '\\')⟩

/-- The tokens at the end of the text; a string must be closed. -/
def finish? (lexer : Lexer) : Option (List Token) :=
  match lexer.phase with
  | .string _ _ => none
  | _ => lexer.endWord?.map fun ended => ended.tokens.reverse

/-- The characters one after the other. -/
def run? (lexer : Lexer) : List Char → Option Lexer
  | [] => some lexer
  | c :: cs =>
    match lexer.step? c with
    | some next => next.run? cs
    | none => none

end Lexer

/-- **The tokens of a text**; `none` if it cannot be cut into tokens. -/
def tokens? (cs : List Char) : Option (List Token) :=
  (Lexer.initial.run? cs).bind Lexer.finish?

end JsonProjection.Json
