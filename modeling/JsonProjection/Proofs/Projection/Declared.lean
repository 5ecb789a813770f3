/-
# `JsonProjection.Proofs.Projection.Declared` -- the names of a result in absent mode.

In absent mode every entry ends with its output name in the accumulator.  A property that is there is written, and
one that is not becomes a marker; a block is entered or filled; and where the name is taken its place is kept,
whether or not the value is.  Nothing is pruned.  So the names of a result are those of the accumulator, in their
places, and behind them the declared names that were not among them, in the order in which they are declared first
(`declare`).  The source has no say in it.

A fragment that compiles declares a name, and therefore a result of fragments is never the empty object that is
given back as `null`.
-/
import JsonProjection.Proofs.Fragment.Canonical
import JsonProjection.Proofs.Projection.Entries
import JsonProjection.Proofs.Projection.Outputs
import JsonProjection.Proofs.Projection.Place

namespace JsonProjection

open JsonProjection.Json (Object)
open JsonProjection.Projection

/-! ## Declaring names -/

namespace Projection

/-- A name put behind the others, unless it is one of them. -/
def declare (names : List String) (name : String) : List String :=
  if name ∈ names then names else names ++ [name]

theorem declare_of_mem {names : List String} {name : String} (h : name ∈ names) :
    declare names name = names := if_pos h

/-- **Declaring one name after the other** leaves the names that are there in their places, and puts the new ones
behind them in the order of their first declaration. -/
theorem foldl_declare (names more : List String) :
    more.foldl declare names = names ++ (more.filter fun name => name ∉ names).eraseDups := by
  induction more generalizing names with
  | nil => simp
  | cons name more ih =>
      rw [List.foldl_cons, ih]
      by_cases h : name ∈ names
      · rw [declare_of_mem h, List.filter_cons_of_neg (by simpa using h)]
      · -- what is new behind the name is new and not the name
        have hrest : (more.filter fun other => other ∉ names ++ [name]) =
            (more.filter fun other => other ∉ names).filter fun other => !other == name := by
          rw [List.filter_filter]
          refine List.filter_congr fun other _ => ?_
          rw [Bool.eq_iff_iff]
          simp [and_comm]
        rw [declare, if_neg h, List.filter_cons_of_pos (by simpa using h), List.eraseDups_cons, hrest,
          List.append_assoc, List.singleton_append]

theorem foldl_declare_nil (names : List String) : names.foldl declare [] = names.eraseDups := by
  have hall : (names.filter fun name => name ∉ ([] : List String)) = names :=
    List.filter_eq_self.mpr (by simp)
  rw [foldl_declare, hall, List.nil_append]

/-! ## One step -/

theorem keys_fillMember (name : String) (fill : Object → Object) (acc : Object) :
    Assoc.keys (fillMember name fill acc) = declare (Assoc.keys acc) name := by
  unfold fillMember
  split
  case h_1 child hc => exact Assoc.keys_set name _ acc
  case h_2 value _ hv =>
    -- another value is kept, and it stands under the name
    have hmem : name ∈ Assoc.keys acc :=
      List.mem_map.mpr ⟨(name, value), Assoc.mem_of_get?_eq_some hv, rfl⟩
    rw [declare_of_mem hmem]
  case h_3 => exact Assoc.keys_set name _ acc

end Projection

namespace Step

/-- **Every step declares its output name**, whatever it finds. -/
theorem keys_apply_absent (step : Step) (source : Json) (acc : Object) :
    Assoc.keys (step.apply .absent source acc) = declare (Assoc.keys acc) step.key.output := by
  obtain ⟨key, block?⟩ := step
  cases block? with
  | none =>
      show Assoc.keys (copyProperty .absent source key acc).value = _
      rw [value_copyProperty]
      cases source.property? key.name with
      | some value => exact Assoc.keys_set key.output value acc
      | none => exact Assoc.keys_ensure key.output .null acc
  | some block =>
      show Assoc.keys (enterProperty .absent source key (block.tree.project .absent)
        block.tree.fill acc).value = _
      rcases Json.object_or_no_object (source.property? key.name) with ⟨members, ho⟩ | hno
      · rw [value_enterProperty_absent_of_object ho]
        exact Assoc.keys_set key.output _ acc
      · rw [value_enterProperty_of_no_object hno]
        exact keys_fillMember key.output block.tree.fill acc

theorem keys_applyAll_absent (source : Json) (steps : List Step) (acc : Object) :
    Assoc.keys (applyAll .absent source steps acc) =
      (steps.map fun step => step.key.output).foldl declare (Assoc.keys acc) := by
  induction steps generalizing acc with
  | nil => rfl
  | cons step rest ih =>
      show Assoc.keys (applyAll .absent source rest (step.apply .absent source acc)) = _
      rw [ih, keys_apply_absent, List.map_cons, List.foldl_cons]

end Step

/-! ## Trees and schemas -/

/-- A tree declares its output names. -/
theorem Tree.keys_projectInto_absent (tree : Tree) (source : Json) (acc : Object) :
    Assoc.keys (tree.projectInto .absent source acc) = tree.outputs.foldl declare (Assoc.keys acc) := by
  rw [projectInto_eq_applyAll, Step.keys_applyAll_absent, outputs, ← map_key_steps, List.map_map]
  rfl

namespace Schema

theorem keys_projectTrees_absent (source : Json) (trees : List Tree) (acc : Object) :
    Assoc.keys (projectTrees .absent source trees acc).value =
      (trees.flatMap Tree.outputs).foldl declare (Assoc.keys acc) := by
  induction trees generalizing acc with
  | nil => rfl
  | cons tree rest ih =>
      show Assoc.keys (projectTrees .absent source rest (tree.projectInto .absent source acc)).value = _
      rw [ih, tree.keys_projectInto_absent, List.flatMap_cons, List.foldl_append]

/-- Fragments that compile declare a name, if there are any. -/
theorem outputs_ne_nil_of_compile {fragments : List String} {schema : Schema} (hne : fragments ≠ [])
    (h : (compile fragments).value = .ok schema) : schema.trees.flatMap Tree.outputs ≠ [] := by
  have hcompiled := value_compile_eq_ok_iff.mp h
  obtain ⟨trees⟩ := schema
  obtain ⟨fragment, rest, rfl⟩ := List.exists_cons_of_ne_nil hne
  cases trees with
  | nil => cases hcompiled
  | cons tree more =>
      have htree : Tree.compile fragment = .ok tree := (List.cons.inj hcompiled).1
      obtain ⟨written, hread, rfl⟩ := Tree.compile_eq_ok_iff_read.mp htree
      have hnil : written ≠ .nil := (Fragment.read_eq_ok_iff.mp hread).1
      rw [List.flatMap_cons]
      exact List.append_ne_nil_of_left_ne_nil (Tree.outputs_ne_nil (Tree.resolved_ne_nil hnil)) _

/-- **The names of an absent result.**  Trees applied in absent mode leave every name of the accumulator in its
place and put behind them the output names that were not there, in the order in which the trees declare them first,
for every source.  And fragments, at least one, give an object for every source: its names are those that they
declare, and there is one. -/
theorem keys_absent (trees : List Tree) (source : Json) (acc : Object) :
    Assoc.keys (projectTrees .absent source trees acc).value =
        Assoc.keys acc ++
          ((trees.flatMap Tree.outputs).filter fun name => name ∉ Assoc.keys acc).eraseDups ∧
      ∀ fragments schema, fragments ≠ [] → (compile fragments).value = .ok schema →
        ∃ members, (schema.apply .absent source).value = .obj members ∧ members ≠ [] ∧
          Assoc.keys members = (schema.trees.flatMap Tree.outputs).eraseDups := by
  refine ⟨?_, fun fragments schema hne hcompile => ?_⟩
  · rw [keys_projectTrees_absent, foldl_declare]
  · have houtputs := outputs_ne_nil_of_compile hne hcompile
    have hkeys : Assoc.keys (projectTrees .absent source schema.trees []).value =
        (schema.trees.flatMap Tree.outputs).eraseDups := by
      rw [keys_projectTrees_absent, Assoc.keys_nil, foldl_declare_nil]
    have htrees : schema.trees ≠ [] := by
      intro hnil
      rw [hnil] at houtputs
      exact houtputs rfl
    generalize hacc : (projectTrees .absent source schema.trees []).value = members at hkeys
    have hmembers : members ≠ [] := by
      rintro rfl
      obtain ⟨name, more, hcons⟩ := List.exists_cons_of_ne_nil houtputs
      rw [hcons, List.eraseDups_cons] at hkeys
      cases hkeys
    refine ⟨members, ?_, hmembers, hkeys⟩
    rw [apply_eq_fold htrees, fold, Log.Logged.value_bind, Log.Logged.value_bind, hacc]
    cases members with
    | nil => exact absurd rfl hmembers
    | cons member rest => rfl

/-- Two trees that declare four names, one of them in both. -/
def overlapping : Schema :=
  ⟨[.leaf ⟨"a", some "x"⟩ <| .nested ⟨"b", none⟩ (.leaf ⟨"c", none⟩ .nil) .nil,
    .nested ⟨"x", none⟩ (.leaf ⟨"d", none⟩ .nil) <| .leaf ⟨"e", none⟩ .nil]⟩

/-- A marker, a block that is filled and one that is entered, a copy, and a name that is taken. -/
theorem keys_absent_overlapping :
    let source : Json := .obj [("e", .bool true), ("x", .obj [("d", .null)])]
    let acc : Object := [("b", .null), ("z", .obj [])]
    let fragments := ["a->x,b:\x7bc\x7d", "x:\x7bd\x7d,e"]
    Assoc.keys (projectTrees .absent source overlapping.trees acc).value = ["b", "z", "x", "e"] ∧
      (fragments ≠ [] ∧ (compile fragments).value = .ok overlapping) ∧
      ∃ members, (overlapping.apply .absent source).value = .obj members ∧ members ≠ [] ∧
        Assoc.keys members = ["x", "b", "e"] := by
  intro source acc fragments
  obtain ⟨hkeys, hobject⟩ := keys_absent overlapping.trees source acc
  have hne : fragments ≠ [] := List.cons_ne_nil _ _
  have hcompile : (compile fragments).value = .ok overlapping := rfl
  obtain ⟨members, happly, hmembers, hnames⟩ := hobject fragments overlapping hne hcompile
  exact ⟨hkeys.trans (by decide), ⟨hne, hcompile⟩, members, happly, hmembers, hnames.trans (by decide)⟩

end Schema

end JsonProjection
