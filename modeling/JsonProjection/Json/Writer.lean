/-
# `JsonProjection.Json.Writer` -- from a JSON value to a text.

The compact text is the text of the value's tokens and nothing between them, so that reading it back is
reading tokens.  The pretty text puts every item and member on a line of its own, two blanks deeper than
its container; an empty container stays on one line.
-/
import JsonProjection.Json.Basic
import JsonProjection.Json.Token

namespace JsonProjection.Json

/-! ## Compact text -/

/-- The comma between two neighbours of a list: none before the end. -/
def separator {α : Type} (rest : List α) : List Token := if rest.isEmpty then [] else [.comma]

mutual

/-- **The tokens of a value.** -/
def tokens : Json → List Token
  | .null => [.null]
  | .bool b => [.bool b]
  | .num n => [.num n]
  | .str s => [.str s]
  | .arr items => .openArray :: (itemTokens items ++ [.closeArray])
  | .obj members => .openObject :: (memberTokens members ++ [.closeObject])
termination_by structural json => json

/-- The items of an array, with commas between them. -/
def itemTokens : List Json → List Token
  | [] => []
  | item :: rest => item.tokens ++ (separator rest ++ itemTokens rest)
termination_by structural items => items

/-- The members of an object, with commas between them. -/
def memberTokens : List (String × Json) → List Token
  | [] => []
  | (name, value) :: rest =>
    .str name :: .colon :: (value.tokens ++ (separator rest ++ memberTokens rest))
termination_by structural members => members

end

/-- **The compact text** of a value. -/
def compact (json : Json) : String := String.ofList (json.tokens.flatMap Token.chars)

/-! ## Pretty text -/

/-- The end of a line and the indentation of the next. -/
def newline (depth : Nat) : List Char := '\n' :: List.replicate (2 * depth) ' '

/-- A comma before a further neighbour. -/
def commaBefore {α : Type} (rest : List α) : List Char := if rest.isEmpty then [] else [',']

mutual

/-- The text of a value that starts in a line with the given indentation. -/
def prettyChars (depth : Nat) : Json → List Char
  | .null => Token.null.chars
  | .bool b => (Token.bool b).chars
  | .num n => (Token.num n).chars
  | .str s => (Token.str s).chars
  | .arr items =>
    if items.isEmpty then ['[', ']']
    else '[' :: (prettyItems (depth + 1) items ++ (newline depth ++ [']']))
  | .obj members =>
    if members.isEmpty then ['{', '}']
    else '{' :: (prettyMembers (depth + 1) members ++ (newline depth ++ ['}']))
termination_by structural json => json

/-- The items of an array, each on a line of its own. -/
def prettyItems (depth : Nat) : List Json → List Char
  | [] => []
  | item :: rest =>
    newline depth ++ (item.prettyChars depth ++ (commaBefore rest ++ prettyItems depth rest))
termination_by structural items => items

/-- The members of an object, each on a line of its own. -/
def prettyMembers (depth : Nat) : List (String × Json) → List Char
  | [] => []
  | (name, value) :: rest =>
    newline depth ++ (Token.quoted name ++ (':' :: ' ' :: (value.prettyChars depth ++
      (commaBefore rest ++ prettyMembers depth rest))))
termination_by structural members => members

end

/-- **The pretty text** of a value. -/
def pretty (json : Json) : String := String.ofList (json.prettyChars 0)

end JsonProjection.Json
