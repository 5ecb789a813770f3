/-
# `JsonProjection.Pattern.CharClass` -- reading a class of characters in brackets.

A class may hold classes, and operations between its parts, which are all done from the left.  The reader
keeps the open classes, the innermost first; a class that is not closed is reported at the beginning of the
innermost.  Minus signs at the beginning of a class, and a right bracket there, stand for themselves.
-/
import JsonProjection.Pattern.Escape

namespace JsonProjection.Pattern

namespace CharClass

/-! ## Classes by name -/

/-- The characters of a class that has a name; only ASCII characters are in these classes. -/
def rangesOf? (name : String) : Option (List (Char × Char)) :=
  if name = "alnum" then some [('0', '9'), ('A', 'Z'), ('a', 'z')]
  else if name = "alpha" then some [('A', 'Z'), ('a', 'z')]
  else if name = "ascii" then some [('\x00', '\x7f')]
  else if name = "blank" then some [('\t', '\t'), (' ', ' ')]
  else if name = "cntrl" then some [('\x00', '\x1f'), ('\x7f', '\x7f')]
  else if name = "digit" then some [('0', '9')]
  else if name = "graph" then some [('!', '~')]
  else if name = "lower" then some [('a', 'z')]
  else if name = "print" then some [(' ', '~')]
  else if name = "punct" then some [('!', '/'), (':', '@'), ('[', '\x60'), ('\x7b', '~')]
  else if name = "space" then some [('\t', '\r'), (' ', ' ')]
  else if name = "upper" then some [('A', 'Z')]
  else if name = "word" then some [('0', '9'), ('A', 'Z'), ('_', '_'), ('a', 'z')]
  else if name = "xdigit" then some [('0', '9'), ('A', 'F'), ('a', 'f')]
  else none

/-- A class by its name between `[:` and `:]`, perhaps with a caret before the name; a left bracket comes
next.  Anything else is no such class, and then the bracket opens a class. -/
def named? (cursor : Cursor) : Option (ClassExpression × Cursor) :=
  match cursor.rest with
  | '[' :: ':' :: cs =>
    let negated := cs.head? = some '^'
    let cs := if negated then cs.tail else cs
    match cs.dropWhile (· ≠ ':') with
    | ':' :: ']' :: rest =>
      (rangesOf? (String.ofList (cs.takeWhile (· ≠ ':')))).map fun ranges =>
        let after : Cursor := ⟨cursor.place + (cursor.rest.length - rest.length), rest⟩
        (.named (after.since cursor.place) negated ranges, after)
    | _ => none
  | _ => none

/-! ## Open classes -/

/-- **An open class.** -/
structure Frame where
  /-- its beginning, up to the first item -/
  head : Span
  negated : Bool
  /-- an operation and all before it -/
  pending : Option (SetOperation × ClassExpression)
  /-- where the items after the operation stand -/
  span : Span
  /-- these items, newest first -/
  items : List ClassExpression

namespace Frame

/-- A further item. -/
def push (frame : Frame) (item : ClassExpression) : Frame :=
  let start := if frame.items.isEmpty then item.span.start else frame.span.start
  { frame with span := ⟨start, item.span.stop⟩, items := item :: frame.items }

/-- All that has been read. -/
def content (frame : Frame) : ClassExpression :=
  let right := ClassExpression.ofItems frame.span frame.items.reverse
  match frame.pending with
  | none => right
  | some (operation, left) => .operation ⟨left.span.start, right.span.stop⟩ operation left right

/-- An operation, which ends before `place`. -/
def operate (frame : Frame) (operation : SetOperation) (place : Nat) : Frame :=
  { frame with pending := some (operation, frame.content), span := .place place, items := [] }

/-- The class, which ends before `place`. -/
def close (frame : Frame) (place : Nat) : ClassExpression :=
  .bracketed ⟨frame.head.start, place⟩ frame.negated frame.content

end Frame

/-- The beginning of a class; the left bracket comes next. -/
def readHead (verbose : Bool) (cursor : Cursor) : Except PatternError (Frame × Cursor) :=
  let start := cursor.place
  let cursor := cursor.advance verbose
  let negated := cursor.isAt '^'
  let cursor := if negated then cursor.advance verbose else cursor
  if cursor.atEnd then refuse .classUnclosed (cursor.since start)
  else
    let literal (n : Nat) (c : Char) : ClassExpression := .atom (.literal ⟨.char n, c, false⟩)
    let empty : Frame := ⟨.place start, negated, none, cursor.here, []⟩
    let (minuses, after) := cursor.takeWhile verbose (· = '-')
    if after.atEnd then refuse .classUnclosed (.place start)
    else if minuses.isEmpty ∧ cursor.isAt ']' then
      let after := cursor.advance verbose
      if after.atEnd then refuse .classUnclosed (after.since start)
      else .ok ({ empty.push (literal cursor.place ']') with head := after.since start }, after)
    else
      let frame := minuses.foldl (fun frame minus => frame.push (literal minus.1 minus.2)) empty
      .ok ({ frame with head := after.since start }, after)

/-! ## Items -/

/-- A character, or what an escape means. -/
def readPart (verbose : Bool) (cursor : Cursor) : Except PatternError (Expression × Cursor) :=
  match cursor.rest with
  | [] => .ok (.empty cursor.here, cursor)
  | c :: _ =>
    if c = '\\' then Escape.read verbose cursor
    else .ok (.atom (.literal ⟨cursor.char, c, false⟩), cursor.next)

/-- A part that is an item of a class; a condition on a place is none. -/
def item : Expression → Except PatternError ClassExpression
  | .atom a => .ok (.atom a)
  | other => refuse .classEscape other.span

/-- A part that is one end of a range. -/
def rangeEnd : Expression → Except PatternError Literal
  | .atom (.literal l) => .ok l
  | other => refuse .classRangeEnd other.span

/-- An item or a range; a minus sign before the end of the class, or before another, makes no range. -/
def readItem (verbose : Bool) (frame : Frame) (cursor : Cursor) :
    Except PatternError (ClassExpression × Cursor) := do
  let (first, cursor) ← readPart verbose cursor
  let cursor := cursor.skip verbose
  let peeked := cursor.peek? verbose
  if cursor.atEnd then refuse .classUnclosed frame.head
  else if !cursor.isAt '-' || peeked = some ']' || peeked = some '-' then
    return (← item first, cursor)
  else
    let cursor := cursor.advance verbose
    if cursor.atEnd then refuse .classUnclosed frame.head
    else
      let (last, cursor) ← readPart verbose cursor
      let span : Span := ⟨first.span.start, last.span.stop⟩
      let first ← rangeEnd first
      let last ← rangeEnd last
      if first.char ≤ last.char then return (.range span first last, cursor)
      else refuse .classRange span

/-! ## Whole classes -/

/-- The rest of the innermost class and of those around it.  Every round takes a character, so the rounds
suffice if they are as many as the characters. -/
def readRest (verbose : Bool) :
    Nat → List Frame → Frame → Cursor → Except PatternError (ClassExpression × Cursor)
  | 0, _, frame, _ => refuse .classUnclosed frame.head
  | rounds + 1, outer, frame, cursor =>
    let cursor := cursor.skip verbose
    let operate (operation : SetOperation) : Except PatternError (ClassExpression × Cursor) :=
      let cursor := cursor.next.next
      readRest verbose rounds outer (frame.operate operation cursor.place) cursor
    match cursor.rest with
    | [] => refuse .classUnclosed frame.head
    | '[' :: _ =>
      match named? cursor with
      | some (item, cursor) => readRest verbose rounds outer (frame.push item) cursor
      | none => do
        let (inner, cursor) ← readHead verbose cursor
        readRest verbose rounds (frame :: outer) inner cursor
    | ']' :: _ =>
      let cursor := cursor.next
      let content := frame.close cursor.place
      match outer with
      | [] => .ok (content, cursor)
      | around :: outer => readRest verbose rounds outer (around.push content) cursor
    | '&' :: '&' :: _ => operate .intersection
    | '-' :: '-' :: _ => operate .difference
    | '~' :: '~' :: _ => operate .symmetricDifference
    | _ => do
      let (item, cursor) ← readItem verbose frame cursor
      readRest verbose rounds outer (frame.push item) cursor

/-- **A class**; its left bracket comes next. -/
def read (verbose : Bool) (cursor : Cursor) : Except PatternError (ClassExpression × Cursor) := do
  let (frame, after) ← readHead verbose cursor
  readRest verbose cursor.rest.length [] frame after

end CharClass

end JsonProjection.Pattern
