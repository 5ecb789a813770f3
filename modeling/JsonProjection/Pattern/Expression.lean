/-
# `JsonProjection.Pattern.Expression` -- the text of a pattern as a tree.

The tree keeps what a message may have to point at: every part knows where it stands.  What the parts mean
depends on flags that stand elsewhere in the text, and is no matter of the tree.

A tree may be too deep; `tooDeep?` finds the first part that lies below the limit.
-/
import JsonProjection.Pattern.Basic
import JsonProjection.Pattern.SyntaxError

namespace JsonProjection.Pattern

/-! ## Parts -/

/-- A character of the text, as it stands or escaped. -/
structure Literal where
  span : Span
  char : Char
  /-- written as `\x` and two digits, which may also mean a byte -/
  isByte : Bool

/-- What an escape may mean, inside of a class as well as outside. -/
inductive Atom where
  | literal (literal : Literal)
  /-- a set that has a letter, such as `\d`, or its complement -/
  | shorthand (span : Span) (negated : Bool) (set : CharSet)
  /-- the characters with a property, `\p` or `\P` and a name -/
  | property (span : Span) (name : List Char)

/-- Where an atom stands. -/
def Atom.span : Atom → Span
  | .literal l => l.span
  | .shorthand span _ _ => span
  | .property span _ => span

/-- The operations on sets of characters. -/
inductive SetOperation where
  | intersection
  | difference
  | symmetricDifference

/-- **A class of characters**, or a part of it. -/
inductive ClassExpression where
  /-- nothing, beside an operation -/
  | empty (span : Span)
  | atom (atom : Atom)
  | range (span : Span) (first last : Literal)
  /-- a class by its name, such as `[:alpha:]` -/
  | named (span : Span) (negated : Bool) (ranges : List (Char × Char))
  /-- at least two parts side by side -/
  | union (span : Span) (items : List ClassExpression)
  | operation (span : Span) (operation : SetOperation) (left right : ClassExpression)
  /-- a part in brackets -/
  | bracketed (span : Span) (negated : Bool) (content : ClassExpression)

/-- Where a part of a class stands. -/
def ClassExpression.span : ClassExpression → Span
  | .empty span => span
  | .atom a => a.span
  | .range span _ _ => span
  | .named span _ _ => span
  | .union span _ => span
  | .operation span _ _ _ => span
  | .bracketed span _ _ => span

/-- What a flag changes. -/
inductive Flag where
  /-- letters stand for either case -/
  | ignoreCase
  /-- `^` and `$` know every line -/
  | multiLine
  /-- the dot stands also for the end of a line -/
  | dotAll
  /-- repetitions prefer few rounds, which changes nothing about where a pattern occurs -/
  | swapGreed
  /-- characters, and not bytes, are matched -/
  | unicode
  /-- a carriage return ends a line too -/
  | returns
  /-- blanks and comments may stand in the text -/
  | verbose
  deriving DecidableEq

/-- The flag of a letter. -/
def Flag.ofChar? (c : Char) : Option Flag :=
  if c = 'i' then some .ignoreCase
  else if c = 'm' then some .multiLine
  else if c = 's' then some .dotAll
  else if c = 'U' then some .swapGreed
  else if c = 'u' then some .unicode
  else if c = 'R' then some .returns
  else if c = 'x' then some .verbose
  else none

/-- Flags that are set or unset. -/
abbrev FlagChanges := List (Flag × Bool)

/-- A condition on a place, as it is written. -/
inductive Anchor where
  /-- `^` -/
  | lineStart
  /-- `$` -/
  | lineStop
  /-- `\A` -/
  | start
  /-- `\z` -/
  | stop
  | word (edge : WordEdge)

/-- **A pattern as it is written**, or a part of it. -/
inductive Expression where
  | empty (span : Span)
  /-- flags for what follows in the group -/
  | flags (span : Span) (changes : FlagChanges)
  | atom (atom : Atom)
  | dot (span : Span)
  | anchor (span : Span) (anchor : Anchor)
  | charClass (content : ClassExpression)
  | repetition (span : Span) (item : Expression) (least : Nat) (most : Option Nat)
  /-- a part in parentheses, remembered or with flags for it alone -/
  | group (span : Span) (remembered : Bool) (changes : FlagChanges) (content : Expression)
  /-- at least two branches -/
  | alternation (span : Span) (branches : List Expression)
  /-- at least two parts side by side -/
  | concat (span : Span) (items : List Expression)

namespace Expression

/-- Where a part stands. -/
def span : Expression → Span
  | .empty span => span
  | .flags span _ => span
  | .atom a => a.span
  | .dot span => span
  | .anchor span _ => span
  | .charClass content => content.span
  | .repetition span _ _ _ => span
  | .group span _ _ _ => span
  | .alternation span _ => span
  | .concat span _ => span

/-- Parts side by side, as many as there are. -/
def ofItems (span : Span) : List Expression → Expression
  | [] => .empty span
  | [item] => item
  | items => .concat span items

end Expression

/-- Parts of a class side by side, as many as there are. -/
def ClassExpression.ofItems (span : Span) : List ClassExpression → ClassExpression
  | [] => .empty span
  | [item] => item
  | items => .union span items

/-! ## Nesting -/

/-- How deep parts may be nested. -/
def maxDepth : Nat := 250

mutual

/-- The first part of a class, from its outside and from the left, that has more than `room` parts
around it or is one itself; parts without parts of their own do not count. -/
def ClassExpression.tooDeep? (room : Nat) : ClassExpression → Option Span
  | .union span items =>
    match room with
    | 0 => some span
    | room + 1 => ClassExpression.anyTooDeep? room items
  | .operation span _ left right =>
    match room with
    | 0 => some span
    | room + 1 => (left.tooDeep? room).or (right.tooDeep? room)
  | .bracketed span _ content =>
    match room with
    | 0 => some span
    | room + 1 => content.tooDeep? room
  | _ => none

/-- The first of the parts that is too deep. -/
def ClassExpression.anyTooDeep? (room : Nat) : List ClassExpression → Option Span
  | [] => none
  | item :: items => (item.tooDeep? room).or (ClassExpression.anyTooDeep? room items)

end

mutual

/-- **The first part that is too deep**, where `room` more levels are allowed. -/
def Expression.tooDeep? (room : Nat) : Expression → Option Span
  | .charClass content => content.tooDeep? room
  | .repetition span item _ _ =>
    match room with
    | 0 => some span
    | room + 1 => item.tooDeep? room
  | .group span _ _ content =>
    match room with
    | 0 => some span
    | room + 1 => content.tooDeep? room
  | .alternation span branches =>
    match room with
    | 0 => some span
    | room + 1 => Expression.anyTooDeep? room branches
  | .concat span items =>
    match room with
    | 0 => some span
    | room + 1 => Expression.anyTooDeep? room items
  | _ => none

/-- The first of the parts that is too deep. -/
def Expression.anyTooDeep? (room : Nat) : List Expression → Option Span
  | [] => none
  | item :: items => (item.tooDeep? room).or (Expression.anyTooDeep? room items)

end

end JsonProjection.Pattern
