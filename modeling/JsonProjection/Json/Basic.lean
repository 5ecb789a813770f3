/-
# `JsonProjection.Json.Basic` -- JSON values.

An object is a list of members in the order of their first appearance; that no name appears twice is kept
by the operations that build objects (`Assoc.set`, `Assoc.ensure`), not by the type, so that the type stays
plain data.  Only objects own properties: an array or a scalar owns none.
-/
import JsonProjection.Assoc
import JsonProjection.Json.Number

namespace JsonProjection

/-- **JSON values.** -/
inductive Json where
  | null
  | bool (b : Bool)
  | num (n : Json.Number)
  | str (s : String)
  | arr (items : List Json)
  | obj (members : List (String × Json))

namespace Json

/-- The members of an object, in order. -/
abbrev Object := List (String × Json)

/-- The members, if the value is an object. -/
def members? : Json → Option Object
  | .obj members => some members
  | _ => none

/-- **The property of that name**, if the value is an object that owns it. -/
def property? (name : String) : Json → Option Json
  | .obj members => Assoc.get? name members
  | _ => none

/-- Whether the value is the object without members. -/
def isEmptyObject : Json → Bool
  | .obj [] => true
  | _ => false

/-- **Pruning**: the members whose value is an empty object are left out. -/
def Object.prune (members : Object) : Object := members.filter fun m => !m.2.isEmptyObject

end Json

end JsonProjection
