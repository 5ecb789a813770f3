/-
# `JsonProjection.Proofs.Projection.Agreement` -- what a tree sees of a source.

A tree sees of a source the properties that its entries name, and of a property with a block only what the
block sees inside it, if it is an object.  Two sources that look the same in this sense agree (`Agree`), and
nothing that a projection does tells them apart: neither what is written nor what is logged.  What was not
selected can differ in any way, and its difference reaches no result.

Every step of a projection reads the source in one place, the property of the entry.  So the two runs go in
step from the same accumulator, and the induction on the tree needs no invariant but that.
-/
import JsonProjection.Projection.Schema
import JsonProjection.Proofs.Projection.Outputs

namespace JsonProjection

open JsonProjection.Json (Object)
open JsonProjection.Log (Logged)
open JsonProjection.Projection

/-! ## Agreement -/

/-- **What a block sees of two properties is the same**: both are objects that agree inside, or neither is an
object.  A property that is missing counts as one that is no object. -/
inductive Projection.AgreeInside (inside : Json → Json → Prop) : Option Json → Option Json → Prop
  | objects {members members' : Object} :
      inside (.obj members) (.obj members') →
      AgreeInside inside (some (.obj members)) (some (.obj members'))
  | noObjects {property property' : Option Json} :
      (∀ members, property ≠ some (.obj members)) →
      (∀ members, property' ≠ some (.obj members)) →
      AgreeInside inside property property'

/-- **Two sources agree on a tree**: under the name of every leaf they own the same value or nothing, and
what every block sees of its property is the same.  An empty block is a leaf. -/
def Tree.Agree : Tree → Json → Json → Prop
  | .nil, _, _ => True
  | .leaf key rest, source, source' =>
    source.property? key.name = source'.property? key.name ∧ rest.Agree source source'
  | .nested key block rest, source, source' =>
    (if block.isEmpty then source.property? key.name = source'.property? key.name
      else AgreeInside block.Agree (source.property? key.name) (source'.property? key.name)) ∧
    rest.Agree source source'

/-! ## One entry -/

namespace Projection

variable {mode : Mode} {source source' : Json} {key : Key}

/-- Copying reads the property of the entry and nothing else. -/
theorem copyProperty_congr (h : source.property? key.name = source'.property? key.name)
    (acc : Object) : copyProperty mode source key acc = copyProperty mode source' key acc := by
  unfold copyProperty
  rw [h]

/-- Where there is no object to descend into, nothing else is read of the source. -/
theorem enterProperty_of_no_object (h : ∀ members, source.property? key.name ≠ some (.obj members))
    (descend : Json → Object → Logged Object) (fill : Object → Object) (acc : Object) :
    enterProperty mode source key descend fill acc =
      ⟨[.notEntered key.name],
        match mode with
        | .strict => acc
        | .absent => fillMember key.output fill acc⟩ := by
  unfold enterProperty
  split
  case h_1 members hm => exact absurd hm (h members)
  case h_2 => cases mode <;> rfl

/-- Descending reads the property of the entry, and inside it what the block reads. -/
theorem enterProperty_congr {inside : Json → Json → Prop} {descend : Json → Object → Logged Object}
    (hd : ∀ value value', inside value value' → ∀ acc, descend value acc = descend value' acc)
    (h : AgreeInside inside (source.property? key.name) (source'.property? key.name))
    (fill : Object → Object) (acc : Object) :
    enterProperty mode source key descend fill acc =
      enterProperty mode source' key descend fill acc := by
  -- nothing but these two properties is read, so their values may be taken for unknown
  generalize hp : source.property? key.name = property at h
  generalize hp' : source'.property? key.name = property' at h
  cases h with
  | objects hinside => simp only [enterProperty, hp, hp', hd _ _ hinside]
  | noObjects hmiss hmiss' =>
      rw [enterProperty_of_no_object (hp ▸ hmiss), enterProperty_of_no_object (hp' ▸ hmiss')]

end Projection

/-! ## A whole tree -/

namespace Tree

/-- **The run**: from the same accumulator, sources that agree on the tree give the same computation. -/
theorem Agree.project_eq {tree : Tree} {source source' : Json} (h : tree.Agree source source')
    (mode : Mode) (acc : Object) :
    tree.project mode source acc = tree.project mode source' acc := by
  induction tree generalizing source source' acc with
  | nil => rfl
  | leaf key rest ih =>
      obtain ⟨hkey, hrest⟩ := h
      simp only [project, copyProperty_congr hkey, ih hrest]
  | nested key block rest ihb ihr =>
      obtain ⟨hkey, hrest⟩ := h
      by_cases he : block.isEmpty = true
      · rw [if_pos he] at hkey
        simp only [project, if_pos he, copyProperty_congr hkey, ihr hrest]
      · rw [if_neg he] at hkey
        have hblock : ∀ value value', block.Agree value value' →
            ∀ acc, block.project mode value acc = block.project mode value' acc :=
          fun _ _ hv acc => ihb hv acc
        simp only [project, if_neg he, enterProperty_congr hblock hkey, ihr hrest]

end Tree

/-! ## Several trees -/

namespace Schema

theorem projectTrees_eq_of_agree {source source' : Json} {trees : List Tree}
    (h : ∀ tree ∈ trees, tree.Agree source source') (mode : Mode) (acc : Object) :
    projectTrees mode source trees acc = projectTrees mode source' trees acc := by
  induction trees generalizing acc with
  | nil => rfl
  | cons tree trees ih =>
      obtain ⟨htree, htrees⟩ := List.forall_mem_cons.mp h
      simp only [projectTrees, htree.project_eq, ih htrees]

/-- **What is not selected does not matter.** From the same accumulator, two sources that agree on a tree
give the same accumulator and the same log; and a schema with at least one tree gives the same result and
the same log on two sources that agree on all of its trees. -/
theorem eq_of_agree (mode : Mode) (source source' : Json) :
    (∀ tree : Tree, tree.Agree source source' →
      ∀ acc, tree.project mode source acc = tree.project mode source' acc) ∧
    (∀ schema : Schema, schema.trees ≠ [] → (∀ tree ∈ schema.trees, tree.Agree source source') →
      schema.apply mode source = schema.apply mode source') := by
  refine ⟨fun tree h acc => h.project_eq mode acc, fun schema hne h => ?_⟩
  have hempty : schema.isEmpty ≠ true := mt List.isEmpty_iff.mp hne
  simp only [apply, if_neg hempty, fold, projectTrees_eq_of_agree h]

end Schema

/-! ## A sample -/

/-- An order that looks to the sample tree as the sample order does: the members stand in another order, the
note is missing where the other is a text, and the customer has a secret and an address of another kind. -/
def Json.otherOrder : Json :=
  .obj
    [("owner", .obj [("secret", .str "4711"), ("name", .str "Ann"), ("address", .obj []),
        ("tags", .arr [.null])]),
      ("id", .bool true), ("extra", .obj []), ("total", .null)]

/-- The two orders agree on the sample tree, so neither mode tells them apart. -/
theorem Schema.eq_of_agree_orders :
    Tree.orderSample.Agree Json.orderSample Json.otherOrder ∧
      Tree.orderSample.project .absent Json.orderSample [("note", .null)] =
        Tree.orderSample.project .absent Json.otherOrder [("note", .null)] ∧
      (Schema.mk [Tree.orderSample]).apply .strict Json.orderSample =
        (Schema.mk [Tree.orderSample]).apply .strict Json.otherOrder := by
  have haddress : (Tree.leaf ⟨"city", none⟩ .nil).Agree (.obj [("zip", .null)]) (.obj []) :=
    ⟨rfl, trivial⟩
  have hagree : Tree.orderSample.Agree Json.orderSample Json.otherOrder :=
    ⟨rfl, .objects ⟨rfl, .objects haddress, rfl, trivial⟩, .noObjects nofun nofun, rfl, trivial⟩
  refine ⟨hagree, (Schema.eq_of_agree .absent _ _).1 Tree.orderSample hagree _, ?_⟩
  refine (Schema.eq_of_agree .strict _ _).2 ⟨[Tree.orderSample]⟩ (List.cons_ne_nil _ _) fun tree ht => ?_
  rw [List.mem_singleton.mp ht]
  exact hagree

end JsonProjection
