/-
# `JsonProjection.Selection.Key` -- which property an entry reads and under which name it is written.

A key names a property of the source and, after an arrow, a second name for the result.  Two keys are
equal only if both parts are: `a` and `a->a` read and write the same names and are still different keys.
-/
namespace JsonProjection

/-- **A selection key**: the property `name` of the source, written as `renamed` if that is given. -/
structure Key where
  name : String
  renamed : Option String
  deriving DecidableEq

namespace Key

/-- **The output name**: the second name if there is one, else the first. -/
def output (key : Key) : String := key.renamed.getD key.name

/-- The key as it stands in a fragment: `a`, or `a->b`. -/
def text (key : Key) : String :=
  match key.renamed with
  | none => key.name
  | some renamed => key.name ++ "->" ++ renamed

@[simp] theorem output_mk_none (name : String) : (Key.mk name none).output = name := rfl

@[simp] theorem output_mk_some (name renamed : String) :
    (Key.mk name (some renamed)).output = renamed := rfl

end Key

end JsonProjection
