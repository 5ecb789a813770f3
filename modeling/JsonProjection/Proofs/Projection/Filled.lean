/-
# `JsonProjection.Proofs.Projection.Filled` -- where a strict result may hold an empty object.

Strict mode prunes after every entry, and looks only at the members of the object that it writes into.  So no member
of that object is an empty object afterwards, whatever the accumulator held (`Step.pruned_applyAll`).  Deeper inside
an empty object may have been copied from the source, and stays.

If the source holds none below its root, the result does not either (`FilledBelow`).  The invariant of the run is
that the accumulator is filled below its root.  An entry may break it, but only by a member that is itself an empty
object: a block that selects nothing leaves its child empty, never something inside the child (`Prunable`).  This is
what pruning takes away.
-/
import JsonProjection.Proofs.Json.Parts
import JsonProjection.Proofs.Projection.Entries
import JsonProjection.Proofs.Projection.Place
import JsonProjection.Proofs.Projection.Strict

namespace JsonProjection

open JsonProjection.Json (Object childOf Within)
open JsonProjection.Log (Logged)
open JsonProjection.Projection

/-! ## Values without empty objects -/

namespace Json

/-- **Filled**: no part of the value is an empty object, inside arrays too. -/
def Filled (value : Json) : Prop := ¬Within (.obj []) value

/-- **Filled below the root**: of all its parts only the value itself may be an empty object. -/
def FilledBelow (value : Json) : Prop := Within (.obj []) value → value = .obj []

variable {value : Json} {acc : Object} {name : String}

theorem filled_iff : value.Filled ↔ value ≠ .obj [] ∧ value.FilledBelow := by
  constructor
  · intro h
    refine ⟨?_, fun hw => absurd hw h⟩
    rintro rfl
    exact h .refl
  · rintro ⟨hne, hbelow⟩ hw
    exact hne (hbelow hw)

theorem Filled.below (h : value.Filled) : value.FilledBelow := (filled_iff.mp h).2

theorem filled_arr_iff {items : List Json} :
    (Json.arr items).Filled ↔ ∀ item ∈ items, item.Filled := by
  simp [Filled, within_arr_iff]

/-- An object is filled below its root if its members are filled. -/
theorem filledBelow_obj_iff :
    (Json.obj acc).FilledBelow ↔ ∀ member ∈ acc, member.2.Filled := by
  constructor
  · intro h member hm hw
    cases h (.member hm hw)
    cases hm
  · intro h hw
    rcases within_obj_iff.mp hw with he | ⟨member, hm, hw⟩
    · exact he.symm
    · exact absurd hw (h member hm)

/-- An object is filled if it has a member and its members are filled. -/
theorem filled_obj_iff :
    (Json.obj acc).Filled ↔ acc ≠ [] ∧ ∀ member ∈ acc, member.2.Filled := by
  rw [filled_iff, filledBelow_obj_iff]
  simp

theorem filledBelow_emptyObject : (Json.obj []).FilledBelow := fun _ => rfl

theorem FilledBelow.property (h : value.FilledBelow) {found : Json}
    (hv : value.property? name = some found) : found.Filled := by
  cases value with
  | obj members => exact filledBelow_obj_iff.mp h (name, found) (Assoc.mem_of_get?_eq_some hv)
  | _ => cases hv

/-- The object that may stand under a name. -/
theorem FilledBelow.childOf (h : (Json.obj acc).FilledBelow) (name : String) :
    (Json.obj (childOf (Assoc.get? name acc))).FilledBelow := by
  rcases object_or_no_object (Assoc.get? name acc) with ⟨inside, ho⟩ | hno
  · have hinside : (Json.obj inside).Filled := h.property ho
    rw [ho, childOf_some_obj]
    exact hinside.below
  · rw [childOf_of_no_object hno]
    exact filledBelow_emptyObject

/-! ## Pruning -/

namespace Object

/-- **Prunable**: a member may be an empty object, but none lies deeper. -/
def Prunable (members : Object) : Prop := ∀ member ∈ members, member.2.FilledBelow

theorem prunable_of_filledBelow (h : (Json.obj acc).FilledBelow) : acc.Prunable :=
  fun member hm => (filledBelow_obj_iff.mp h member hm).below

/-- Writing a value that is filled below its root leaves nothing that pruning could not take away. -/
theorem prunable_set (h : (Json.obj acc).FilledBelow) (hv : value.FilledBelow) (name : String) :
    Prunable (Assoc.set name value acc) := by
  intro member hm
  rcases Assoc.mem_of_mem_set hm with rfl | hm
  · exact hv
  · exact prunable_of_filledBelow h member hm

/-- No member is an empty object after pruning. -/
theorem pruned_prune (members : Object) : members.prune.Pruned := by
  intro member hm
  simpa using (List.mem_filter.mp hm).2

theorem Prunable.prune {members : Object} (h : members.Prunable) :
    (Json.obj members.prune).FilledBelow := by
  refine filledBelow_obj_iff.mpr fun member hm => filled_iff.mpr ⟨?_, ?_⟩
  · intro he
    have hkept := pruned_prune members member hm
    rw [he] at hkept
    cases hkept
  · exact h member (List.mem_filter.mp hm).1

end Object

end Json

/-! ## One entry -/

namespace Projection

variable {source : Json} {key : Key} {acc : Object}

theorem prunable_copyProperty (hs : source.FilledBelow) (ha : (Json.obj acc).FilledBelow) :
    (copyProperty .strict source key acc).value.Prunable := by
  rw [value_copyProperty]
  cases hv : source.property? key.name with
  | some value => exact Object.prunable_set ha (hs.property hv).below key.output
  | none => exact Object.prunable_of_filledBelow ha

theorem prunable_enterProperty {descend : Json → Object → Logged Object} {fill : Object → Object}
    (hd : ∀ {value : Json} {inside : Object}, value.FilledBelow → (Json.obj inside).FilledBelow →
      (Json.obj (descend value inside).value).FilledBelow)
    (hs : source.FilledBelow) (ha : (Json.obj acc).FilledBelow) :
    (enterProperty .strict source key descend fill acc).value.Prunable := by
  rcases Json.object_or_no_object (source.property? key.name) with ⟨members, ho⟩ | hno
  · have hchild := hd (hs.property ho).below (ha.childOf key.output)
    rcases value_enterProperty_of_object ho rfl .strict fill with hw | ⟨-, -, -, hw⟩
    · rw [hw]
      exact Object.prunable_set ha hchild key.output
    · rw [hw]
      exact Object.prunable_of_filledBelow ha
  · rw [value_enterProperty_of_no_object hno]
    exact Object.prunable_of_filledBelow ha

end Projection

/-! ## A whole run -/

/-- The last thing that a run does is to prune; without a step it does nothing. -/
theorem Step.pruned_applyAll (source : Json) (steps : List Step) {acc : Object}
    (h : steps ≠ [] ∨ acc.Pruned) : (applyAll .strict source steps acc).Pruned := by
  induction steps generalizing acc with
  | nil => exact h.resolve_left fun hne => hne rfl
  | cons step rest ih => exact ih (.inr (Object.pruned_prune _))

/-- **A strict run keeps the accumulator filled below its root**, if the source is. -/
theorem Tree.filledBelow_projectInto (tree : Tree) {source : Json} {acc : Object}
    (hs : source.FilledBelow) (ha : (Json.obj acc).FilledBelow) :
    (Json.obj (tree.projectInto .strict source acc)).FilledBelow := by
  induction tree generalizing source acc with
  | nil => exact ha
  | leaf key rest ih =>
      rw [projectInto_leaf]
      exact ih hs (prunable_copyProperty hs ha).prune
  | nested key block rest ihb ihr =>
      by_cases he : block = .nil
      · subst he
        rw [projectInto_nested_nil, projectInto_leaf]
        exact ihr hs (prunable_copyProperty hs ha).prune
      · rw [projectInto_nested .strict key he]
        exact ihr hs (prunable_enterProperty ihb hs ha).prune

namespace Schema

theorem filledBelow_projectTrees {source : Json} (hs : source.FilledBelow) (trees : List Tree)
    {acc : Object} (ha : (Json.obj acc).FilledBelow) :
    (Json.obj (projectTrees .strict source trees acc).value).FilledBelow := by
  induction trees generalizing acc with
  | nil => exact ha
  | cons tree rest ih => exact ih (tree.filledBelow_projectInto hs ha)

/-- **What strict mode prunes.**  A tree with an entry leaves no empty object as a member of the accumulator, for
every source and every accumulator.  And a source without an empty object below its root has results without one,
whatever names the trees of the schema write under. -/
theorem pruned_strict (source : Json) :
    (∀ (tree : Tree) (acc : Object), tree ≠ .nil → (tree.projectInto .strict source acc).Pruned) ∧
      (source.FilledBelow → ∀ schema : Schema, (schema.apply .strict source).value.FilledBelow) := by
  refine ⟨fun tree acc hne => ?_, fun hs schema => ?_⟩
  · rw [Tree.projectInto_eq_applyAll]
    exact Step.pruned_applyAll source tree.steps (.inl (mt Tree.steps_eq_nil_iff.mp hne))
  · by_cases htrees : schema.trees = []
    · have hempty : schema.isEmpty = true := List.isEmpty_iff.mpr htrees
      rw [apply, if_pos hempty]
      exact hs
    · rw [apply_eq_fold htrees]
      exact filledBelow_projectTrees hs schema.trees Json.filledBelow_emptyObject

/-- A copy, a block that goes on inside the copy, and a block that selects nothing of the same property. -/
def contending : Tree :=
  .leaf ⟨"a", some "o"⟩ <|
    .nested ⟨"x", some "o"⟩ (.leaf ⟨"e", none⟩ <| .leaf ⟨"d", none⟩ .nil) <|
      .nested ⟨"a", some "p"⟩ (.leaf ⟨"c", none⟩ .nil) .nil

/-- A source whose objects all have members, the one inside the array too. -/
def filledSource : Json :=
  .obj [("a", .obj [("b", .arr [.obj [("c", .null)]])]), ("x", .obj [("d", .bool true)])]

/-- An empty object that was in the accumulator is taken away, and none is left where two entries contend. -/
theorem pruned_strict_contending :
    let acc : Object := [("z", .obj []), ("o", .null)]
    let written : Object :=
      [("o", .obj [("b", .arr [.obj [("c", .null)]]), ("d", .bool true)])]
    (contending ≠ .nil ∧ filledSource.FilledBelow) ∧
      contending.projectInto .strict filledSource acc = written ∧ written.Pruned ∧
      ((Schema.mk [contending]).apply .strict filledSource).value = .obj written ∧
      (Json.obj written).FilledBelow := by
  intro acc written
  have hne : contending ≠ .nil := nofun
  have hwritten : contending.projectInto .strict filledSource acc = written := rfl
  have hresult : ((Schema.mk [contending]).apply .strict filledSource).value = .obj written := rfl
  have hnull : Json.null.Filled := nofun
  have hbool : (Json.bool true).Filled := nofun
  have hfilled : filledSource.FilledBelow := by
    simp [filledSource, Json.filledBelow_obj_iff, Json.filled_obj_iff, Json.filled_arr_iff, hnull, hbool]
  obtain ⟨htree, hschema⟩ := pruned_strict filledSource
  exact ⟨⟨hne, hfilled⟩, hwritten, hwritten ▸ htree contending acc hne, hresult,
    hresult ▸ hschema hfilled ⟨[contending]⟩⟩

end Schema

end JsonProjection
