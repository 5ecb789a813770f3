/-
# `JsonProjection.Projection.Basic` -- one tree applied to one source.

A tree is applied entry by entry, and every entry writes into one object, the accumulator, which several
trees share.  An entry without a block copies a property (`copyProperty`).  An entry with a block descends
into the property if it is an object (`enterProperty`), into the object that the accumulator already holds
under the output name if there is one.  Where nothing matches, strict mode writes nothing and absent mode
writes `null`, in the shape of the block (`fill`), but never over a value that is already there.  After
every entry strict mode drops the members of the accumulator that are empty objects (`settle`).

The functions are logged computations: each property that is not found or cannot be entered is reported.
-/
import JsonProjection.Json.Basic
import JsonProjection.Log.Logged

namespace JsonProjection

open JsonProjection.Json (Object)
open JsonProjection.Log (Logged)

namespace Projection

/-! ## One entry -/

/-- An entry without a block: the property is written as it is, over an earlier value. -/
def copyProperty (mode : Mode) (source : Json) (key : Key) (acc : Object) : Logged Object :=
  match source.property? key.name with
  | some value => pure (Assoc.set key.output value acc)
  | none => do
    Logged.report (.notFound key.name)
    match mode with
    | .strict => pure acc
    | .absent => pure (Assoc.ensure key.output .null acc)

/-- The member `name` filled with `null` leaves: inside an object that is there, not over another value
that is there, and as a new object otherwise. -/
def fillMember (name : String) (fill : Object → Object) (acc : Object) : Object :=
  match Assoc.get? name acc with
  | some (.obj child) => Assoc.set name (.obj (fill child)) acc
  -- an earlier entry wrote a value that is no object: it is kept
  | some _ => acc
  | none => Assoc.set name (.obj (fill [])) acc

/-- The result of descending, written under the output name.  An object that was there is replaced; where
none was there, strict mode writes only a result that is not empty. -/
def writeChild (mode : Mode) (name : String) (child : Object) (acc : Object) : Object :=
  match mode with
  | .absent => Assoc.set name (.obj child) acc
  | .strict => if child.isEmpty then acc else Assoc.set name (.obj child) acc

/-- An entry with a block; `descend` and `fill` apply the block to a source and to nothing. -/
def enterProperty (mode : Mode) (source : Json) (key : Key)
    (descend : Json → Object → Logged Object) (fill : Object → Object) (acc : Object) :
    Logged Object :=
  match source.property? key.name with
  | some (.obj members) =>
    match Assoc.get? key.output acc with
    | some (.obj child) => do
      let child ← descend (.obj members) child
      pure (Assoc.set key.output (.obj child) acc)
    | _ => do
      let child ← descend (.obj members) []
      pure (writeChild mode key.output child acc)
  | _ => do
    Logged.report (.notEntered key.name)
    match mode with
    | .strict => pure acc
    | .absent => pure (fillMember key.output fill acc)

/-- What is done to the accumulator after every entry. -/
def settle (mode : Mode) (acc : Object) : Object :=
  match mode with
  | .strict => acc.prune
  | .absent => acc

end Projection

/-! ## All entries -/

namespace Tree

open JsonProjection.Projection

/-- **The tree applied to nothing**, in absent mode: `null` under every output name that is free. -/
def fill : Tree → Object → Object
  | .nil, acc => acc
  | .leaf key rest, acc => rest.fill (Assoc.ensure key.output .null acc)
  | .nested key block rest, acc =>
    if block.isEmpty then rest.fill (Assoc.ensure key.output .null acc)
    else rest.fill (fillMember key.output block.fill acc)

/-- **The tree applied to a source**: its entries in order, each writing into the accumulator. -/
def project (mode : Mode) : Tree → Json → Object → Logged Object
  | .nil, _, acc => pure acc
  | .leaf key rest, source, acc => do
    let acc ← copyProperty mode source key acc
    rest.project mode source (settle mode acc)
  | .nested key block rest, source, acc => do
    let acc ←
      if block.isEmpty then copyProperty mode source key acc
      else enterProperty mode source key (block.project mode) block.fill acc
    rest.project mode source (settle mode acc)

/-- The accumulator after the tree has been applied to a source. -/
def projectInto (mode : Mode) (tree : Tree) (source : Json) (acc : Object) : Object :=
  (tree.project mode source acc).value

/-! ## The accumulator, entry by entry -/

@[simp] theorem projectInto_nil (mode : Mode) (source : Json) (acc : Object) :
    Tree.nil.projectInto mode source acc = acc := rfl

theorem projectInto_leaf (mode : Mode) (key : Key) (rest : Tree) (source : Json) (acc : Object) :
    (Tree.leaf key rest).projectInto mode source acc =
      rest.projectInto mode source (settle mode (copyProperty mode source key acc).value) := rfl

/-- An entry with an empty block is an entry without one. -/
theorem projectInto_nested_nil (mode : Mode) (key : Key) (rest : Tree) (source : Json)
    (acc : Object) :
    (Tree.nested key .nil rest).projectInto mode source acc =
      (Tree.leaf key rest).projectInto mode source acc := rfl

theorem projectInto_nested (mode : Mode) (key : Key) {block : Tree} (h : block ≠ .nil)
    (rest : Tree) (source : Json) (acc : Object) :
    (Tree.nested key block rest).projectInto mode source acc =
      rest.projectInto mode source
        (settle mode (enterProperty mode source key (block.project mode) block.fill acc).value) := by
  cases block with
  | nil => exact absurd rfl h
  | leaf => rfl
  | nested => rfl

end Tree

namespace Projection

/-- A property that is there is written over an earlier value; one that is not becomes `null` in absent
mode, unless a value is there. -/
theorem value_copyProperty (mode : Mode) (source : Json) (key : Key) (acc : Object) :
    (copyProperty mode source key acc).value =
      match source.property? key.name, mode with
      | some value, _ => Assoc.set key.output value acc
      | none, .strict => acc
      | none, .absent => Assoc.ensure key.output .null acc := by
  unfold copyProperty
  cases source.property? key.name with
  | some value => rfl
  | none => cases mode <;> rfl

/-- A property that is no object is not entered. -/
theorem value_enterProperty_of_no_object {mode : Mode} {source : Json} {key : Key}
    (h : ∀ members, source.property? key.name ≠ some (.obj members))
    (descend : Json → Object → Logged Object) (fill : Object → Object) (acc : Object) :
    (enterProperty mode source key descend fill acc).value =
      match mode with
      | .strict => acc
      | .absent => fillMember key.output fill acc := by
  unfold enterProperty
  split
  case h_1 members hm => exact absurd hm (h members)
  case h_2 => cases mode <;> rfl

/-- Descending goes on inside the object that is there. -/
theorem value_enterProperty_of_child {source : Json} {key : Key} {members child acc : Object}
    (hs : source.property? key.name = some (.obj members))
    (ha : Assoc.get? key.output acc = some (.obj child)) (mode : Mode)
    (descend : Json → Object → Logged Object) (fill : Object → Object) :
    (enterProperty mode source key descend fill acc).value =
      Assoc.set key.output (.obj (descend (.obj members) child).value) acc := by
  simp only [enterProperty, hs, ha, Logged.value_bind, Logged.value_pure]

/-- Descending starts from an empty object where none is there. -/
theorem value_enterProperty_of_no_child {source : Json} {key : Key} {members acc : Object}
    (hs : source.property? key.name = some (.obj members))
    (ha : ∀ child, Assoc.get? key.output acc ≠ some (.obj child)) (mode : Mode)
    (descend : Json → Object → Logged Object) (fill : Object → Object) :
    (enterProperty mode source key descend fill acc).value =
      writeChild mode key.output (descend (.obj members) []).value acc := by
  unfold enterProperty
  rw [hs]
  split
  case h_1 m hm =>
    cases hm
    split
    case h_1 child hc => exact absurd hc (ha child)
    case h_2 => rfl
  case h_2 h => exact absurd rfl (h members)

end Projection

end JsonProjection
