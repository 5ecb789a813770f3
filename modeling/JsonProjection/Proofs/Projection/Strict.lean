/-
# `JsonProjection.Proofs.Projection.Strict` -- what strict mode selects.

Strict mode is defined by what it does to an accumulator: it writes, descends into children that are there,
and prunes the whole object after every entry.  `selected` says what comes out, without an accumulator: of
every entry its member, if it has one, in declaration order.  The two agree when a tree whose output names
are distinct starts from the empty object.

The invariant of the run is that the accumulator holds no empty object (`Pruned`), so that pruning can
only remove what the last entry wrote.
-/
import JsonProjection.Proofs.Projection.Outputs

namespace JsonProjection

open JsonProjection.Json (Object)
open JsonProjection.Log (Logged)
open JsonProjection.Projection

/-! ## Pruned objects -/

/-- **Pruned**: no member is an empty object. -/
def Json.Object.Pruned (members : Object) : Prop := ∀ m ∈ members, m.2.isEmptyObject = false

theorem Json.Object.Pruned.prune_eq {members : Object} (h : members.Pruned) :
    members.prune = members :=
  List.filter_eq_self.mpr fun m hm => by rw [h m hm]; rfl

theorem Json.Object.Pruned.append {members added : Object} (h : members.Pruned)
    (ha : added.Pruned) : (members ++ added).Pruned := by
  intro m hm
  rcases List.mem_append.mp hm with hm | hm
  · exact h m hm
  · exact ha m hm

/-- Pruning looks at each member by itself. -/
theorem Json.Object.prune_append (members added : Object) :
    (members ++ added).prune = members.prune ++ added.prune :=
  List.filter_append members added

theorem Json.Object.prune_singleton (name : String) (value : Json) :
    Object.prune [(name, value)] = if value.isEmptyObject then [] else [(name, value)] := by
  cases h : value.isEmptyObject <;> simp [Object.prune, h]

/-! ## The members that are selected -/

namespace Projection

/-- The member of an entry without a block: the property as it is, unless it is an empty object. -/
def copied (source : Json) (key : Key) : Object :=
  match source.property? key.name with
  | some value => if value.isEmptyObject then [] else [(key.output, value)]
  | none => []

/-- The member of an entry with a block: what the block selects inside an object, unless that is
nothing. -/
def entered (source : Json) (key : Key) (select : Json → Object) : Object :=
  match source.property? key.name with
  | some (.obj members) =>
    if (select (.obj members)).isEmpty then [] else [(key.output, .obj (select (.obj members)))]
  | _ => []

end Projection

/-- **What a tree selects from a source**: the members of its entries, in declaration order. -/
def Tree.selected : Tree → Json → Object
  | .nil, _ => []
  | .leaf key rest, source => copied source key ++ rest.selected source
  | .nested key block rest, source =>
    (if block.isEmpty then copied source key else entered source key block.selected) ++
      rest.selected source

namespace Projection

/-- **The contribution of one entry**: members under its output name, none of them an empty object. -/
def Contribution (name : String) (added : Object) : Prop :=
  ∀ m ∈ added, m.1 = name ∧ m.2.isEmptyObject = false

theorem contribution_copied (source : Json) (key : Key) :
    Contribution key.output (copied source key) := by
  intro m hm
  unfold copied at hm
  split at hm
  case h_1 value hv =>
    split at hm
    case isTrue => cases hm
    case isFalse he =>
      rw [List.mem_singleton.mp hm]
      exact ⟨rfl, Bool.eq_false_iff.mpr he⟩
  case h_2 => cases hm

theorem contribution_entered (source : Json) (key : Key) (select : Json → Object) :
    Contribution key.output (entered source key select) := by
  intro m hm
  unfold entered at hm
  split at hm
  case h_1 members hv =>
    split at hm
    case isTrue => cases hm
    case isFalse he =>
      rw [List.mem_singleton.mp hm]
      refine ⟨rfl, ?_⟩
      cases hs : select (.obj members) with
      | nil => exact absurd (by rw [hs]; rfl) he
      | cons => rfl
  case h_2 => cases hm

theorem Contribution.pruned {name : String} {added : Object} (h : Contribution name added) :
    added.Pruned := fun m hm => (h m hm).2

/-- What an entry adds leaves the names of the later entries free. -/
theorem Contribution.freeFor {name : String} {added acc : Object} (h : Contribution name added)
    {rest : Tree} (hn : name ∉ rest.outputs) (hf : rest.FreeFor acc) :
    rest.FreeFor (acc ++ added) := by
  refine hf.append fun name' hname => ?_
  obtain ⟨m, hm, rfl⟩ := List.mem_map.mp hname
  rw [(h m hm).1]
  exact hn

/-! ## One entry -/

section Entry

variable {acc : Object} {key : Key}

/-- Copying into a pruned accumulator adds the member of the entry at its end. -/
theorem settle_strict_copyProperty (hp : acc.Pruned) (hk : key.output ∉ Assoc.keys acc) (source : Json) :
    settle .strict (copyProperty .strict source key acc).value = acc ++ copied source key := by
  rw [value_copyProperty]
  unfold copied
  cases source.property? key.name with
  | none =>
      show acc.prune = acc ++ []
      rw [hp.prune_eq, List.append_nil]
  | some value =>
      show Object.prune (Assoc.set key.output value acc) = _
      rw [Assoc.set_of_not_mem hk, Object.prune_append, hp.prune_eq, Object.prune_singleton]

/-- Descending into a pruned accumulator that holds no child adds the member of the entry at its end. -/
theorem settle_strict_enterProperty (hp : acc.Pruned) (hk : key.output ∉ Assoc.keys acc) (source : Json)
    {descend : Json → Object → Logged Object} {select : Json → Object}
    (hd : ∀ members, (descend (.obj members) []).value = select (.obj members))
    (fill : Object → Object) :
    settle .strict (enterProperty .strict source key descend fill acc).value =
      acc ++ entered source key select := by
  have hnone : Assoc.get? key.output acc = none := (Assoc.get?_eq_none_iff _ _).mpr hk
  unfold entered
  split
  case h_1 members hs =>
    rw [value_enterProperty_of_no_child hs (by simp [hnone]), hd]
    cases hc : select (.obj members) with
    | nil =>
        show acc.prune = acc ++ []
        rw [hp.prune_eq, List.append_nil]
    | cons m more =>
        show Object.prune (Assoc.set key.output (.obj (m :: more)) acc) = acc ++ [_]
        rw [Assoc.set_of_not_mem hk, Object.prune_append, hp.prune_eq, Object.prune_singleton]
        rfl
  case h_2 hs =>
    rw [value_enterProperty_of_no_object hs]
    show acc.prune = acc ++ []
    rw [hp.prune_eq, List.append_nil]

end Entry

end Projection

/-! ## A whole tree -/

namespace Tree

/-- The entries that follow a contribution add to it what they select. -/
theorem projectInto_strict_contribution {rest : Tree} {source : Json} {acc added : Object}
    {name : String} (hc : Contribution name added) (hn : name ∉ rest.outputs)
    (hf : rest.FreeFor acc) (hp : acc.Pruned)
    (ih : ∀ {acc : Object}, rest.FreeFor acc → acc.Pruned →
      rest.projectInto .strict source acc = acc ++ rest.selected source) :
    rest.projectInto .strict source (acc ++ added) = acc ++ (added ++ rest.selected source) := by
  rw [ih (hc.freeFor hn hf) (hp.append hc.pruned), List.append_assoc]

/-- **The run**: a tree whose output names are distinct and free adds at the end of a pruned accumulator
what it selects. -/
theorem projectInto_strict_append {tree : Tree} (hd : tree.DistinctOutputs) (source : Json)
    {acc : Object} (hf : tree.FreeFor acc) (hp : acc.Pruned) :
    tree.projectInto .strict source acc = acc ++ tree.selected source := by
  induction tree generalizing source acc with
  | nil => exact (List.append_nil acc).symm
  | leaf key rest ih =>
      obtain ⟨hk, hr⟩ := (distinctOutputs_leaf key rest).mp hd
      obtain ⟨hkey, hrest⟩ := hf.rest (outputs_leaf key rest)
      rw [projectInto_leaf, settle_strict_copyProperty hp hkey]
      exact projectInto_strict_contribution (contribution_copied source key) hk hrest hp
        (ih hr source)
  | nested key block rest ihb ihr =>
      obtain ⟨hk, hb, hr⟩ := (distinctOutputs_nested key block rest).mp hd
      obtain ⟨hkey, hrest⟩ := hf.rest (outputs_nested key block rest)
      by_cases he : block = .nil
      · subst he
        rw [projectInto_nested_nil, projectInto_leaf, settle_strict_copyProperty hp hkey]
        exact projectInto_strict_contribution (contribution_copied source key) hk hrest hp
          (ihr hr source)
      · -- the child starts from the empty object, so what it adds is all there is of it
        have hchild : ∀ members, (block.project .strict (.obj members) []).value =
            block.selected (.obj members) := fun members =>
          ihb hb (.obj members) (freeFor_empty block) fun _ hm => nomatch hm
        rw [projectInto_nested .strict key he, settle_strict_enterProperty hp hkey source hchild,
          selected, if_neg (mt (isEmpty_iff block).mp he)]
        exact projectInto_strict_contribution (contribution_entered source key block.selected) hk
          hrest hp (ihr hr source)

/-- **Strict mode selects**: from the empty object, a tree whose output names are distinct yields what it
selects, the order of the names included. -/
theorem projectInto_strict_eq_selected (tree : Tree) (hd : tree.DistinctOutputs) (source : Json) :
    tree.projectInto .strict source [] = tree.selected source :=
  projectInto_strict_append hd source (freeFor_empty tree) fun _ hm => nomatch hm

/-- On the sample order the number and the customer are selected; the address has no city and the note is
no object. -/
theorem projectInto_strict_orderSample :
    orderSample.DistinctOutputs ∧
      orderSample.projectInto .strict Json.orderSample [] =
        [("id", .bool true),
          ("customer", .obj [("name", .str "Ann"), ("tags", .arr [.null])])] :=
  have hd : orderSample.DistinctOutputs := by decide
  ⟨hd, (projectInto_strict_eq_selected orderSample hd Json.orderSample).trans rfl⟩

end Tree

end JsonProjection
