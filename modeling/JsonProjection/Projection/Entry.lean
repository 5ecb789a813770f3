/-
# `JsonProjection.Projection.Entry` -- the ways in.

`project` takes a value and fragments, `projectArguments` loosely typed arguments, `projectText` a JSON
text, and `projectCall` a JSON text for each.  They differ in what they check first and agree in what
they compute.
-/
import JsonProjection.Json.Reader
import JsonProjection.Json.Writer
import JsonProjection.Projection.Arguments
import JsonProjection.Projection.Schema

namespace JsonProjection

/-- **Why a projection is refused**, before anything is projected. -/
inductive Error where
  /-- an argument is neither a string nor an array -/
  | argument (error : ArgumentError)
  /-- a fragment does not follow the grammar -/
  | fragment (error : SyntaxError)
  /-- a text is no JSON -/
  | malformedJson
  deriving DecidableEq

/-- The whole message. -/
def Error.message : Error → String
  | .argument error => error.message
  | .fragment error => error.message
  | .malformedJson => "JSON parse error"

namespace Projection

/-- The schema of the fragments. -/
def compileSchema (fragments : List String) : Except Error Schema :=
  match (Schema.compile fragments).value with
  | .ok schema => .ok schema
  | .error error => .error (.fragment error)

/-- **A value projected through fragments.** -/
def project (mode : Mode) (source : Json) (fragments : List String) : Except Error Json := do
  let schema ← compileSchema fragments
  return (schema.apply mode source).value

/-- **A value projected through arguments.** Without arguments the value is returned as it is; arguments
that hold no fragment select nothing. -/
def projectArguments (mode : Mode) (source : Json) (arguments : List Json) : Except Error Json :=
  if arguments.isEmpty then .ok source
  else
    match Arguments.flatten arguments with
    | .error error => .error (.argument error)
    | .ok fragments => do
      let schema ← compileSchema fragments
      return (schema.fold mode source).value

/-- **A JSON text projected through fragments**, the result as compact text.  The fragments are looked at
before the text. -/
def projectText (mode : Mode) (text : String) (fragments : List String) : Except Error String := do
  let schema ← compileSchema fragments
  match Json.ofText? text with
  | none => .error .malformedJson
  | some source => .ok (schema.apply mode source).value.compact

/-- **A JSON text projected through one argument that is given as JSON text.** The argument is read before
the document, and both before any fragment is compiled. -/
def projectCall (mode : Mode) (text argument : String) : Except Error String :=
  match Json.ofText? argument with
  | none => .error .malformedJson
  | some value =>
    match Json.ofText? text with
    | none => .error .malformedJson
    | some source => (projectArguments mode source [value]).map Json.compact

end Projection

end JsonProjection
