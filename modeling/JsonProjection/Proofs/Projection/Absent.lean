/-
# `JsonProjection.Proofs.Projection.Absent` -- what absent mode completes.

Absent mode has two recursions: one descends into the source, the other (`fill`) takes over where the
source stops matching and writes `null` leaves in the shape of the block.  `completed` says in one recursion
what comes out of both: one member for every entry, read from the source as far as it goes and from `null`
below that.  Hence the shape of the result is the shape of the tree, whatever the source is (`Shaped`).
-/
import JsonProjection.Proofs.Projection.Outputs

namespace JsonProjection

open JsonProjection.Json (Object)
open JsonProjection.Log (Logged)
open JsonProjection.Projection

/-! ## The members that are completed -/

/-- The property of that name if it is an object, and `null` otherwise. -/
def Json.objectOrNull (name : String) (source : Json) : Json :=
  match source.property? name with
  | some (.obj members) => .obj members
  | _ => .null

/-- **What a tree makes of a source in absent mode**: a member for every entry, in declaration order.  A
property that is missing is `null`; a block goes on inside an object, and inside `null` otherwise. -/
def Tree.completed : Tree → Json → Object
  | .nil, _ => []
  | .leaf key rest, source =>
    (key.output, (source.property? key.name).getD .null) :: rest.completed source
  | .nested key block rest, source =>
    (key.output,
      if block.isEmpty then (source.property? key.name).getD .null
      else .obj (block.completed (source.objectOrNull key.name))) :: rest.completed source

/-! ## One entry -/

namespace Projection

section Entry

variable {acc : Object} {key : Key}

theorem settle_absent_copyProperty (hk : key.output ∉ Assoc.keys acc) (source : Json) :
    settle .absent (copyProperty .absent source key acc).value =
      acc ++ [(key.output, (source.property? key.name).getD .null)] := by
  rw [value_copyProperty]
  cases source.property? key.name with
  | some value => exact Assoc.set_of_not_mem hk value
  | none => exact Assoc.ensure_of_not_mem hk .null

theorem fillMember_of_not_mem {name : String} (hn : name ∉ Assoc.keys acc)
    (fill : Object → Object) : fillMember name fill acc = acc ++ [(name, .obj (fill []))] := by
  unfold fillMember
  rw [(Assoc.get?_eq_none_iff name acc).mpr hn]
  exact Assoc.set_of_not_mem hn _

/-- Descending and filling write one shape, so the member of the entry does not tell them apart. -/
theorem settle_absent_enterProperty (hk : key.output ∉ Assoc.keys acc) (source : Json)
    {descend : Json → Object → Logged Object} {fill : Object → Object} {complete : Json → Object}
    (hd : ∀ members, (descend (.obj members) []).value = complete (.obj members))
    (hf : fill [] = complete .null) :
    settle .absent (enterProperty .absent source key descend fill acc).value =
      acc ++ [(key.output, .obj (complete (source.objectOrNull key.name)))] := by
  have hnone : Assoc.get? key.output acc = none := (Assoc.get?_eq_none_iff _ _).mpr hk
  unfold Json.objectOrNull
  split
  case h_1 members hs =>
    rw [value_enterProperty_of_no_child hs (by simp [hnone]), hd]
    exact Assoc.set_of_not_mem hk _
  case h_2 hs =>
    rw [value_enterProperty_of_no_object hs, ← hf]
    exact fillMember_of_not_mem hk fill

end Entry

end Projection

/-! ## A whole tree -/

namespace Tree

/-- Entries that add `more` to every accumulator in which their names are free add it behind a member
under another name. -/
theorem append_member {rest : Tree} {run : Object → Object} {more acc : Object}
    (hrun : ∀ {acc : Object}, rest.FreeFor acc → run acc = acc ++ more) (hf : rest.FreeFor acc)
    {name : String} (hn : name ∉ rest.outputs) (value : Json) :
    run (acc ++ [(name, value)]) = acc ++ (name, value) :: more := by
  have hfree : rest.FreeFor (acc ++ [(name, value)]) :=
    hf.append fun _ hm => List.mem_singleton.mp hm ▸ hn
  rw [hrun hfree, List.append_assoc, List.singleton_append]

/-- **Filling** completes `null`. -/
theorem fill_append {tree : Tree} (hd : tree.DistinctOutputs) {acc : Object}
    (hf : tree.FreeFor acc) : tree.fill acc = acc ++ tree.completed .null := by
  induction tree generalizing acc with
  | nil => exact (List.append_nil acc).symm
  | leaf key rest ih =>
      obtain ⟨hk, hr⟩ := (distinctOutputs_leaf key rest).mp hd
      obtain ⟨hkey, hrest⟩ := hf.rest (outputs_leaf key rest)
      rw [fill, Assoc.ensure_of_not_mem hkey]
      exact append_member (ih hr) hrest hk .null
  | nested key block rest ihb ihr =>
      obtain ⟨hk, hb, hr⟩ := (distinctOutputs_nested key block rest).mp hd
      obtain ⟨hkey, hrest⟩ := hf.rest (outputs_nested key block rest)
      rw [fill, completed]
      by_cases he : block.isEmpty = true
      · rw [if_pos he, if_pos he, Assoc.ensure_of_not_mem hkey]
        exact append_member (ihr hr) hrest hk .null
      · rw [if_neg he, if_neg he, fillMember_of_not_mem hkey, ihb hb (freeFor_empty block)]
        exact append_member (ihr hr) hrest hk _

/-- **The run**: a tree whose output names are distinct and free adds at the end of the accumulator what it
completes. -/
theorem projectInto_absent_append {tree : Tree} (hd : tree.DistinctOutputs) (source : Json)
    {acc : Object} (hf : tree.FreeFor acc) :
    tree.projectInto .absent source acc = acc ++ tree.completed source := by
  induction tree generalizing source acc with
  | nil => exact (List.append_nil acc).symm
  | leaf key rest ih =>
      obtain ⟨hk, hr⟩ := (distinctOutputs_leaf key rest).mp hd
      obtain ⟨hkey, hrest⟩ := hf.rest (outputs_leaf key rest)
      rw [projectInto_leaf, settle_absent_copyProperty hkey]
      exact append_member (ih hr source) hrest hk _
  | nested key block rest ihb ihr =>
      obtain ⟨hk, hb, hr⟩ := (distinctOutputs_nested key block rest).mp hd
      obtain ⟨hkey, hrest⟩ := hf.rest (outputs_nested key block rest)
      by_cases he : block = .nil
      · subst he
        rw [projectInto_nested_nil, projectInto_leaf, settle_absent_copyProperty hkey]
        exact append_member (ihr hr source) hrest hk _
      · have hchild : ∀ members, (block.project .absent (.obj members) []).value =
            block.completed (.obj members) := fun members =>
          ihb hb (.obj members) (freeFor_empty block)
        have hfill : block.fill [] = block.completed .null := fill_append hb (freeFor_empty block)
        rw [projectInto_nested .absent key he, settle_absent_enterProperty hkey source hchild hfill,
          completed, if_neg (mt (isEmpty_iff block).mp he)]
        exact append_member (ihr hr source) hrest hk _

/-! ## The shape of the result -/

/-- **The shape of a tree**: the names of the object are the output names of the tree, in declaration order,
and under each name with a block that is not empty stands an object with the shape of the block. -/
inductive Shaped : Tree → Object → Prop
  | nil : Shaped .nil []
  | leaf (key : Key) (value : Json) {rest : Tree} {more : Object} :
      Shaped rest more → Shaped (.leaf key rest) ((key.output, value) :: more)
  | emptyBlock (key : Key) (value : Json) {rest : Tree} {more : Object} :
      Shaped rest more → Shaped (.nested key .nil rest) ((key.output, value) :: more)
  | nested (key : Key) {block rest : Tree} {members more : Object} :
      block ≠ .nil → Shaped block members → Shaped rest more →
      Shaped (.nested key block rest) ((key.output, .obj members) :: more)

/-- An object with the shape of a tree has exactly the declared names. -/
theorem Shaped.keys_eq {tree : Tree} {object : Object} (h : tree.Shaped object) :
    Assoc.keys object = tree.outputs := by
  induction h with
  | nil => rfl
  | leaf key value _ ih => rw [Assoc.keys_cons, ih, outputs_leaf]
  | emptyBlock key value _ ih => rw [Assoc.keys_cons, ih, outputs_nested]
  | nested key _ _ _ _ ih => rw [Assoc.keys_cons, ih, outputs_nested]

theorem shaped_completed (tree : Tree) (source : Json) : tree.Shaped (tree.completed source) := by
  induction tree generalizing source with
  | nil => exact .nil
  | leaf key rest ih => exact .leaf key _ (ih source)
  | nested key block rest ihb ihr =>
      rw [completed]
      by_cases he : block = .nil
      · subst he
        exact .emptyBlock key _ (ihr source)
      · rw [if_neg (mt (isEmpty_iff block).mp he)]
        exact .nested key he (ihb _) (ihr source)

/-- **Absent mode completes**: from the empty object, a tree whose output names are distinct yields what it
completes, the order of the names included; so the result has the shape of the tree for every source. -/
theorem projectInto_absent_eq_completed (tree : Tree) (hd : tree.DistinctOutputs) (source : Json) :
    tree.projectInto .absent source [] = tree.completed source ∧
      tree.Shaped (tree.projectInto .absent source []) := by
  have h : tree.projectInto .absent source [] = tree.completed source :=
    projectInto_absent_append hd source (freeFor_empty tree)
  exact ⟨h, h ▸ shaped_completed tree source⟩

/-- On the sample order the city and the note are completed, and the empty object stays. -/
theorem projectInto_absent_orderSample :
    orderSample.DistinctOutputs ∧
      orderSample.projectInto .absent Json.orderSample [] =
        [("id", .bool true),
          ("customer", .obj [("name", .str "Ann"), ("address", .obj [("city", .null)]),
            ("tags", .arr [.null])]),
          ("note", .obj [("id", .null)]),
          ("extra", .obj [])] :=
  have hd : orderSample.DistinctOutputs := by decide
  ⟨hd, (projectInto_absent_eq_completed orderSample hd Json.orderSample).1.trans rfl⟩

end Tree

end JsonProjection
