/-
# `JsonProjection.Projection.Arguments` -- fragments given as JSON values.

A caller may give fragments as strings or as arrays of such arguments, nested to any depth.  They are
flattened to one list, in order; the first value that is neither a string nor an array is refused, named
by the number of fragments before it.
-/
import JsonProjection.Json.Basic

namespace JsonProjection

/-- What an argument that is neither a string nor an array is. -/
inductive ArgumentError.Kind where
  | null
  | boolean
  | number
  | object
  deriving DecidableEq

/-- The kind in words. -/
def ArgumentError.Kind.text : ArgumentError.Kind → String
  | .null => "null"
  | .boolean => "a boolean"
  | .number => "a number"
  | .object => "an object"

/-- **A refused argument**: the number of fragments before it, and what it is. -/
structure ArgumentError where
  index : Nat
  found : ArgumentError.Kind
  deriving DecidableEq

/-- The whole message. -/
def ArgumentError.message (error : ArgumentError) : String :=
  "All arguments must be strings: argument " ++ toString error.index ++ " is " ++ error.found.text

namespace Arguments

mutual

/-- The fragments of one argument; `index` fragments come before it. -/
def flattenItem (index : Nat) : Json → Except ArgumentError (List String)
  | .str fragment => .ok [fragment]
  | .arr items => flattenItems index items
  | .null => .error ⟨index, .null⟩
  | .bool _ => .error ⟨index, .boolean⟩
  | .num _ => .error ⟨index, .number⟩
  | .obj _ => .error ⟨index, .object⟩
termination_by structural argument => argument

/-- The fragments of several arguments; `index` fragments come before them. -/
def flattenItems (index : Nat) : List Json → Except ArgumentError (List String)
  | [] => .ok []
  | item :: rest =>
    match flattenItem index item with
    | .error error => .error error
    | .ok fragments =>
      match flattenItems (index + fragments.length) rest with
      | .error error => .error error
      | .ok more => .ok (fragments ++ more)
termination_by structural arguments => arguments

end

/-- **Flattening**: all fragments of the arguments in order, or the first value that is none. -/
def flatten (arguments : List Json) : Except ArgumentError (List String) := flattenItems 0 arguments

end Arguments

end JsonProjection
