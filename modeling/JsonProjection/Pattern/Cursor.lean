/-
# `JsonProjection.Pattern.Cursor` -- a place in the text of a pattern.

A cursor is the rest of the text together with the number of characters before it.  Where blanks and
comments are allowed, a comment goes from a number sign to the end of its line, and most readers step over
both after every character they take.
-/
import JsonProjection.Pattern.SyntaxError
import JsonProjection.Text.Whitespace

namespace JsonProjection.Pattern

/-- **A place in a text.** -/
structure Cursor where
  place : Nat
  rest : List Char

/-- What a reader passes over. -/
inductive Gap where
  /-- nothing: every character counts -/
  | none
  /-- blanks, and comments that may follow -/
  | blanks
  /-- a comment -/
  | comment
  deriving DecidableEq

namespace Gap

/-- What may stand between two characters; only a `verbose` text has gaps. -/
def between (verbose : Bool) : Gap := if verbose then .blanks else .none

/-- The gap after this character; `none` if the character does not belong to it. -/
def after? (gap : Gap) (c : Char) : Option Gap :=
  match gap with
  | .none => Option.none
  | .blanks =>
    if Text.isWhitespace c then some .blanks else if c = '#' then some .comment else Option.none
  | .comment => some (if c = '\n' then .blanks else .comment)

/-- The place after the gap; `n` characters precede the text. -/
def skip (gap : Gap) (n : Nat) : List Char → Cursor
  | [] => ⟨n, []⟩
  | c :: cs =>
    match gap.after? c with
    | some gap => gap.skip (n + 1) cs
    | Option.none => ⟨n, c :: cs⟩

/-- The characters with a property, each with its place, and the place after them.  Between them, and after
the last, there may be gaps; `gap` is the one before the first. -/
def takeWhile (verbose : Bool) (p : Char → Bool) (gap : Gap) (n : Nat) :
    List Char → List (Nat × Char) × Cursor
  | [] => ([], ⟨n, []⟩)
  | c :: cs =>
    match gap.after? c with
    | some gap => takeWhile verbose p gap (n + 1) cs
    | Option.none =>
      if p c then
        let (taken, cursor) := takeWhile verbose p (.between verbose) (n + 1) cs
        ((n, c) :: taken, cursor)
      else ([], ⟨n, c :: cs⟩)

end Gap

namespace Cursor

/-- The next place. -/
def next (cursor : Cursor) : Cursor :=
  match cursor.rest with
  | [] => cursor
  | _ :: cs => ⟨cursor.place + 1, cs⟩

/-- The place after a gap. -/
def skip (verbose : Bool) (cursor : Cursor) : Cursor :=
  (Gap.between verbose).skip cursor.place cursor.rest

/-- The next place, or that after a gap there. -/
def advance (verbose : Bool) (cursor : Cursor) : Cursor := cursor.next.skip verbose

/-- The characters from here on that have a property, with gaps between them and after them. -/
def takeWhile (verbose : Bool) (p : Char → Bool) (cursor : Cursor) : List (Nat × Char) × Cursor :=
  Gap.takeWhile verbose p .none cursor.place cursor.rest

/-- Whether the text ends here. -/
def atEnd (cursor : Cursor) : Bool := cursor.rest.isEmpty

/-- Whether this character comes next. -/
def isAt (c : Char) (cursor : Cursor) : Bool := cursor.rest.head? = some c

/-- The place, as a part without characters. -/
def here (cursor : Cursor) : Span := .place cursor.place

/-- The next character, as a part. -/
def char (cursor : Cursor) : Span := .char cursor.place

/-- The part that began at `start` and ends here. -/
def since (start : Nat) (cursor : Cursor) : Span := ⟨start, cursor.place⟩

/-- The character after the next, where a gap between them is looked over; of a comment only the number
sign is. -/
def peek? (verbose : Bool) (cursor : Cursor) : Option Char :=
  let after := cursor.rest.tail
  if verbose then
    match after.dropWhile Text.isWhitespace with
    | '#' :: comment => (comment.dropWhile Text.isWhitespace).head?
    | after => after.head?
  else after.head?

end Cursor

end JsonProjection.Pattern
