/-
# `JsonProjection.Projection.Schema` -- several trees applied to one source.

A schema is a list of trees, compiled from fragments in order; the first fragment that is refused refuses
the whole.  Applying a schema threads one accumulator through its trees.  A schema without trees returns
the source itself (`apply`), unless it is applied as a list of arguments that turned out to hold no
fragment (`fold`).
-/
import JsonProjection.Projection.Basic
import JsonProjection.Fragment.Reader

namespace JsonProjection

open JsonProjection.Json (Object)
open JsonProjection.Log (Logged)

/-- **A schema**: the trees to apply, in order. -/
structure Schema where
  trees : List Tree
  deriving DecidableEq

namespace Schema

/-- Whether there is no tree. -/
def isEmpty (schema : Schema) : Bool := schema.trees.isEmpty

/-! ## Compiling -/

/-- The trees of the fragments, up to the first fragment that is refused. -/
def compileTrees : List String → Logged (Except SyntaxError (List Tree))
  | [] => pure (.ok [])
  | fragment :: rest =>
    match Tree.compile fragment with
    | .error error => pure (.error error)
    | .ok tree => do
      Logged.report (.fragmentCompiled fragment tree)
      let trees ← compileTrees rest
      pure (trees.map (tree :: ·))

/-- **Compiling a schema**: every fragment, or the error of the first one that is refused. -/
def compile (fragments : List String) : Logged (Except SyntaxError Schema) := do
  match ← compileTrees fragments with
  | .error error => pure (.error error)
  | .ok trees => do
    Logged.report (.schemaCompiled trees.length)
    pure (.ok ⟨trees⟩)

/-! ## Applying -/

/-- The accumulator threaded through the trees. -/
def projectTrees (mode : Mode) (source : Json) : List Tree → Object → Logged Object
  | [], acc => pure acc
  | tree :: rest, acc => do
    let acc ← tree.project mode source acc
    projectTrees mode source rest acc

/-- The result of a projection: in absent mode an object without members is `null`. -/
def result (mode : Mode) (acc : Object) : Json :=
  match mode with
  | .strict => .obj acc
  | .absent => if acc.isEmpty then .null else .obj acc

/-- **The trees applied to a source**, starting from the empty object. -/
def fold (schema : Schema) (mode : Mode) (source : Json) : Logged Json := do
  Logged.report (.projecting schema.trees.length mode)
  let acc ← projectTrees mode source schema.trees []
  pure (result mode acc)

/-- **The schema applied to a source**; without trees the source is returned as it is. -/
def apply (schema : Schema) (mode : Mode) (source : Json) : Logged Json :=
  if schema.isEmpty then pure source else schema.fold mode source

end Schema

end JsonProjection
