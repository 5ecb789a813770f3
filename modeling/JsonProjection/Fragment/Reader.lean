/-
# `JsonProjection.Fragment.Reader` -- reading a fragment, one token at a time.

The reader is a machine with a stack.  Its state holds the finished entries of the block that is being
read, the enclosing blocks from the inside out, and a phase: what the current entry has so far.  `step`
takes one token and either moves on or names a cause; `finish` is asked at the end of the text.  Since the
machine never looks ahead, an error is found at the first token that no accepted text could have there,
and the place of an error is the place of that token.

The result is the tree as written, with repeated keys and empty blocks; `compile` gives its meaning.
-/
import JsonProjection.Fragment.SyntaxError
import JsonProjection.Fragment.Token
import JsonProjection.Selection.Tree

namespace JsonProjection.Fragment

open JsonProjection (Tree Key Selection SyntaxError maxNesting)
open JsonProjection.SyntaxError (Cause)
open JsonProjection.Text (utf8Length)

/-! ## States -/

/-- What the current entry has so far.  Names are kept with the newest character first. -/
inductive Phase where
  /-- nothing: the name of an entry must start here -/
  | start
  /-- a name, or the beginning of one -/
  | name (newest : List Char)
  /-- a name and an arrow: the second name must start here -/
  | renaming (name : String)
  /-- a name, an arrow and a second name, or the beginning of one -/
  | renamed (name : String) (newest : List Char)
  /-- a key and a colon: a block must follow -/
  | colon (key : Key)
  /-- a key, a colon and a left brace: an entry of the block, or its end, must follow -/
  | opened (key : Key)
  /-- a whole entry that ends in a block -/
  | closed
  deriving DecidableEq

/-- A block whose end is not reached, from its outside: the entries before it, newest first, and its key. -/
structure Level where
  before : List (Key × Selection)
  key : Key
  deriving DecidableEq

/-- **The state of the reader.** -/
structure State where
  /-- the enclosing blocks, the innermost first -/
  outer : List Level
  /-- the finished entries of the block that is being read, newest first -/
  entries : List (Key × Selection)
  phase : Phase
  deriving DecidableEq

namespace State

/-- Before the first token. -/
def initial : State := ⟨[], [], .start⟩

/-- The name whose characters are given newest first. -/
def nameOf (newest : List Char) : String := String.ofList newest.reverse

/-- The entry that the phase holds, if it may end here. -/
def complete (state : State) : State :=
  match state.phase with
  | .name newest => ⟨state.outer, (⟨nameOf newest, none⟩, .leaf) :: state.entries, .closed⟩
  | .renamed name newest =>
    ⟨state.outer, (⟨name, some (nameOf newest)⟩, .leaf) :: state.entries, .closed⟩
  | _ => state

/-- The tree of the finished entries. -/
def tree (state : State) : Tree := Tree.ofEntries state.entries.reverse

/-! ## Steps -/

/-- A token where a name must start. -/
def stepStart (state : State) (token : Token) : Except Cause State :=
  match token with
  | .plain c =>
    if isNameChar c then .ok { state with phase := .name [c] } else .error (.expectedName (some c))
  | _ => .error (.expectedName (some token.first))

/-- A token after a whole entry: the next entry, or the end of the block. -/
def stepComplete (state : State) (token : Token) : Except Cause State :=
  match token with
  | .comma => .ok { state with phase := .start }
  | .closing =>
    match state.outer with
    | [] => .error .unmatchedBrace
    | level :: outer =>
      .ok ⟨outer, (level.key, .nested state.tree) :: level.before, .closed⟩
  | _ => .error (.expectedSeparator token.first)

/-- **One token.** -/
def step (state : State) (token : Token) : Except Cause State :=
  match state.phase with
  | .start => state.stepStart token
  | .name newest =>
    match token with
    | .plain c =>
      if isNameChar c then .ok { state with phase := .name (c :: newest) }
      else .error (.expectedSeparator c)
    | .arrow => .ok { state with phase := .renaming (nameOf newest) }
    | .colon => .ok { state with phase := .colon ⟨nameOf newest, none⟩ }
    -- a comma or a right brace ends the entry as a leaf
    | _ => state.complete.stepComplete token
  | .renaming name =>
    match token with
    | .plain c =>
      if isNameChar c then .ok { state with phase := .renamed name [c] }
      else .error (.expectedName (some c))
    | _ => .error (.expectedName (some token.first))
  | .renamed name newest =>
    match token with
    | .plain c =>
      if isNameChar c then .ok { state with phase := .renamed name (c :: newest) }
      else .error (.expectedSeparator c)
    | .arrow => .error .repeatedArrow
    | .colon => .ok { state with phase := .colon ⟨name, some (nameOf newest)⟩ }
    | _ => state.complete.stepComplete token
  | .colon key =>
    match token with
    | .opening => .ok { state with phase := .opened key }
    | _ => .error (.expectedBlock (some token.first))
  | .opened key =>
    match token with
    | .closing => .ok ⟨state.outer, (key, .nested .nil) :: state.entries, .closed⟩
    | _ =>
      -- the block is not empty, so it counts as a level; whether the token could start it matters less
      if state.outer.length = maxNesting then .error .nestedTooDeeply
      else stepStart ⟨⟨state.entries, key⟩ :: state.outer, [], .start⟩ token
  | .closed => state.stepComplete token

/-- **The end of the text.** -/
def finish (state : State) : Except Cause Tree :=
  match state.phase with
  | .start => .error (.expectedName none)
  | .renaming _ => .error (.expectedName none)
  | .colon _ => .error (.expectedBlock none)
  | .opened _ =>
    if state.outer.length = maxNesting then .error .nestedTooDeeply else .error (.expectedName none)
  | _ =>
    match state.outer with
    | [] => .ok state.complete.tree
    | _ :: _ => .error .unclosedBlock

/-- The tokens one after the other; an error stands at the place of its token. -/
def run (state : State) : List (Nat × Token) → Except SyntaxError State
  | [] => .ok state
  | (offset, token) :: rest =>
    match state.step token with
    | .ok next => next.run rest
    | .error cause => .error ⟨offset, cause⟩

end State

/-! ## Reading and compiling -/

/-- **The tree as written** in a fragment. -/
def read (cs : List Char) : Except SyntaxError Tree :=
  match State.initial.run (locate cs) with
  | .error error => .error error
  | .ok state =>
    match state.finish with
    | .ok tree => .ok tree
    | .error cause => .error ⟨utf8Length cs, cause⟩

end JsonProjection.Fragment

namespace JsonProjection.Tree

/-- **Compiling a fragment**: the text is read, and the entries it writes are inserted in order. -/
def compile (fragment : String) : Except SyntaxError Tree :=
  (Fragment.read fragment.toList).map resolved

end JsonProjection.Tree
