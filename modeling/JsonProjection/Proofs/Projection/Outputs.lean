/-
# `JsonProjection.Proofs.Projection.Outputs` -- the names under which a tree writes.

Every entry of a tree writes under one name, its output name.  Where no two entries of a level share a name
(`DistinctOutputs`) and no name of the tree is taken in the accumulator (`FreeFor`), an entry can only add a
member at the end of the accumulator, and the entries after it find their names free as before.
-/
import JsonProjection.Projection.Basic
import JsonProjection.Proofs.Selection.Level

namespace JsonProjection

open JsonProjection.Json (Object)

namespace Tree

/-! ## Output names -/

/-- The output names of the entries, in declaration order. -/
def outputs (tree : Tree) : List String := (Assoc.keys tree.entries).map Key.output

@[simp] theorem outputs_nil : Tree.nil.outputs = [] := rfl

@[simp] theorem outputs_leaf (key : Key) (rest : Tree) :
    (Tree.leaf key rest).outputs = key.output :: rest.outputs := rfl

@[simp] theorem outputs_nested (key : Key) (block rest : Tree) :
    (Tree.nested key block rest).outputs = key.output :: rest.outputs := rfl

theorem outputs_ne_nil {tree : Tree} (h : tree ≠ .nil) : tree.outputs ≠ [] := by
  cases tree with
  | nil => exact absurd rfl h
  | leaf | nested => exact List.cons_ne_nil _ _

/-- **Distinct output names**: on every level no two entries write under the same name. -/
def DistinctOutputs (tree : Tree) : Prop := tree.EveryLevel fun level => level.outputs.Nodup

instance (tree : Tree) : Decidable tree.DistinctOutputs :=
  inferInstanceAs (Decidable (tree.EveryLevel _))

@[simp] theorem distinctOutputs_leaf (key : Key) (rest : Tree) :
    (Tree.leaf key rest).DistinctOutputs ↔ key.output ∉ rest.outputs ∧ rest.DistinctOutputs := by
  simp only [DistinctOutputs, EveryLevel, outputs_leaf, List.nodup_cons, inBlocks_leaf, and_assoc]

@[simp] theorem distinctOutputs_nested (key : Key) (block rest : Tree) :
    (Tree.nested key block rest).DistinctOutputs ↔
      key.output ∉ rest.outputs ∧ block.DistinctOutputs ∧ rest.DistinctOutputs := by
  simp only [DistinctOutputs, EveryLevel, outputs_nested, List.nodup_cons, inBlocks_nested]
  constructor
  · rintro ⟨⟨hk, hr⟩, hb, hi⟩
    exact ⟨hk, hb, hr, hi⟩
  · rintro ⟨hk, hb, hr, hi⟩
    exact ⟨⟨hk, hr⟩, hb, hi⟩

/-! ## Names that are free -/

/-- The accumulator holds nothing under the output names of the tree. -/
def FreeFor (tree : Tree) (acc : Object) : Prop := ∀ name ∈ tree.outputs, name ∉ Assoc.keys acc

theorem freeFor_empty (tree : Tree) : tree.FreeFor [] := fun _ _ => List.not_mem_nil

/-- Members under a name that the tree does not write leave its names free. -/
theorem FreeFor.append {tree : Tree} {acc added : Object} (h : tree.FreeFor acc)
    (ha : ∀ name ∈ Assoc.keys added, name ∉ tree.outputs) : tree.FreeFor (acc ++ added) := by
  intro name hn
  rw [Assoc.keys_append, List.mem_append, not_or]
  exact ⟨h name hn, fun hm => ha name hm hn⟩

/-- The names are free one by one: that of the first entry, and those of the entries after it. -/
theorem FreeFor.rest {name : String} {tree rest : Tree} {acc : Object} (h : tree.FreeFor acc)
    (ho : tree.outputs = name :: rest.outputs) : name ∉ Assoc.keys acc ∧ rest.FreeFor acc := by
  rw [FreeFor, ho, List.forall_mem_cons] at h
  exact h

/-! ## A sample -/

/-- A tree with a renamed block, a block inside it, an empty block, and a block and a leaf that the sample
source has no use for. -/
def orderSample : Tree :=
  .leaf ⟨"id", none⟩ <|
    .nested ⟨"owner", some "customer"⟩
      (.leaf ⟨"name", none⟩ <|
        .nested ⟨"address", none⟩ (.leaf ⟨"city", none⟩ .nil) <|
          .nested ⟨"tags", none⟩ .nil .nil) <|
      .nested ⟨"note", none⟩ (.leaf ⟨"id", none⟩ .nil) <|
        .leaf ⟨"extra", none⟩ .nil

end Tree

/-- An order with a text where the sample tree has a block, an address without a city and an empty
object. -/
def Json.orderSample : Json :=
  .obj
    [("note", .str "fragile"), ("extra", .obj []), ("id", .bool true),
      ("owner", .obj [("tags", .arr [.null]), ("address", .obj [("zip", .null)]),
        ("name", .str "Ann")])]

end JsonProjection
