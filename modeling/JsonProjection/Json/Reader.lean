/-
# `JsonProjection.Json.Reader` -- from a JSON text to a value.

The reader is a machine over tokens with a stack of unfinished arrays and objects.  A name that an object
repeats keeps its first place and takes the last value.  The number of arrays and objects that may be open
at once is bounded; `nestingLimit` is the bound for documents.
-/
import JsonProjection.Json.Basic
import JsonProjection.Json.Token

namespace JsonProjection.Json

/-- How deep the arrays and objects of a document may be nested. -/
def nestingLimit : Nat := 127

namespace Reader

/-- An array or object that waits for a value. -/
inductive Frame where
  /-- the items before the value, newest first -/
  | array (items : List Json)
  /-- the members before the value, and its name -/
  | object (members : Object) (name : String)

/-- What must come next, inside the frames of the stack. -/
inductive Phase where
  /-- a value -/
  | value
  /-- the first item of an array, or its end -/
  | firstItem
  /-- a comma or the end of the array; the items are newest first -/
  | afterItem (items : List Json)
  /-- the first name of an object, or its end -/
  | firstName
  /-- a name -/
  | nextName (members : Object)
  /-- a colon -/
  | colon (members : Object) (name : String)
  /-- a comma or the end of the object -/
  | afterMember (members : Object)
  /-- nothing: the text is a whole value -/
  | done (json : Json)

/-- **The state of the reader**: the unfinished arrays and objects, the innermost first, and the phase. -/
structure State where
  stack : List Frame
  phase : Phase

namespace State

/-- Before the first token. -/
def initial : State := ⟨[], .value⟩

/-- A value is complete: the innermost frame takes it. -/
def plug : List Frame → Json → State
  | [], json => ⟨[], .done json⟩
  | .array items :: stack, json => ⟨stack, .afterItem (json :: items)⟩
  | .object members name :: stack, json => ⟨stack, .afterMember (Assoc.set name json members)⟩

/-- A token where a value must start. -/
def startValue? (limit : Nat) (stack : List Frame) (token : Token) : Option State :=
  match token with
  | .null => some (plug stack .null)
  | .bool b => some (plug stack (.bool b))
  | .num n => some (plug stack (.num n))
  | .str s => some (plug stack (.str s))
  | .openArray => if stack.length < limit then some ⟨stack, .firstItem⟩ else none
  | .openObject => if stack.length < limit then some ⟨stack, .firstName⟩ else none
  | _ => none

/-- **One token.** -/
def step? (limit : Nat) (state : State) (token : Token) : Option State :=
  match state.phase with
  | .value => startValue? limit state.stack token
  | .firstItem =>
    match token with
    | .closeArray => some (plug state.stack (.arr []))
    | _ => startValue? limit (.array [] :: state.stack) token
  | .afterItem items =>
    match token with
    | .comma => some ⟨.array items :: state.stack, .value⟩
    | .closeArray => some (plug state.stack (.arr items.reverse))
    | _ => none
  | .firstName =>
    match token with
    | .closeObject => some (plug state.stack (.obj []))
    | .str name => some ⟨state.stack, .colon [] name⟩
    | _ => none
  | .nextName members =>
    match token with
    | .str name => some ⟨state.stack, .colon members name⟩
    | _ => none
  | .colon members name =>
    match token with
    | .colon => some ⟨.object members name :: state.stack, .value⟩
    | _ => none
  | .afterMember members =>
    match token with
    | .comma => some ⟨state.stack, .nextName members⟩
    | .closeObject => some (plug state.stack (.obj members))
    | _ => none
  | .done _ => none

/-- The tokens one after the other. -/
def run? (limit : Nat) (state : State) : List Token → Option State
  | [] => some state
  | token :: rest =>
    match state.step? limit token with
    | some next => next.run? limit rest
    | none => none

/-- The value, once it is whole. -/
def finish? (state : State) : Option Json :=
  match state.phase with
  | .done json => some json
  | _ => none

end State

end Reader

/-- The value of a row of tokens. -/
def ofTokens? (limit : Nat) (tokens : List Token) : Option Json :=
  (Reader.State.initial.run? limit tokens).bind Reader.State.finish?

/-- The value of a text whose nesting is at most `limit`. -/
def ofTextWithin? (limit : Nat) (text : String) : Option Json :=
  (tokens? text.toList).bind (ofTokens? limit)

/-- **The value of a document**; `none` if the text is malformed. -/
def ofText? (text : String) : Option Json := ofTextWithin? nestingLimit text

end JsonProjection.Json
