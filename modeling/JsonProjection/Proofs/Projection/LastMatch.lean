/-
# `JsonProjection.Proofs.Projection.LastMatch` -- the last entry that finds something decides.

Any number of entries, of any number of trees, may write under one name.  Where all of them copy a property, the
last one whose property is there decides what stands under the name (`lastMatch`): what was written before is
forgotten, and what comes after finds nothing and writes nothing over it.  Entries for other names come between
and prune, but a settled accumulator has nothing for them to take away (`Schema.get?_projectTrees`).

The value is an empty object sometimes.  Strict mode then leaves nothing under the name, what an earlier entry
wrote included; absent mode keeps it.
-/
import Mathlib.Data.List.Induction
import JsonProjection.Proofs.Projection.Independence
import JsonProjection.Proofs.Projection.OneSource

namespace JsonProjection

open JsonProjection.Json (Object)
open JsonProjection.Projection
open JsonProjection.Projection.Request (answerAll)

/-! ## The entries of a name -/

/-- **The last key whose property is there.** -/
def lastMatch (source : Json) (keys : List Key) : Option Key :=
  (keys.filter fun key => (source.property? key.name).isSome).getLast?

@[simp] theorem lastMatch_nil (source : Json) : lastMatch source [] = none := rfl

/-- A further key decides if its property is there. -/
theorem lastMatch_append_singleton (source : Json) (keys : List Key) (key : Key) :
    lastMatch source (keys ++ [key]) =
      if (source.property? key.name).isSome then some key else lastMatch source keys := by
  unfold lastMatch
  rw [List.filter_append, List.filter_cons, List.filter_nil]
  by_cases h : (source.property? key.name).isSome = true
  · rw [if_pos h, if_pos h, List.getLast?_concat]
  · rw [if_neg h, if_neg h, List.append_nil]

/-- The keys that write under a name, in declaration order. -/
def Tree.writers (name : String) (tree : Tree) : List Key :=
  (Assoc.keys tree.entries).filter fun key => key.output = name

/-- **The keys that write under a name**: those of the first tree, then those of the second, and so on. -/
def Schema.writers (name : String) (schema : Schema) : List Key :=
  schema.trees.flatMap (Tree.writers name)

/-- Every entry that writes under the name copies a property: it is a leaf, or its block is empty. -/
def Tree.CopiesOnly (name : String) (tree : Tree) : Prop :=
  ∀ key block, (key, Selection.nested block) ∈ tree.entries → key.output = name → block = .nil

/-- What such entries request are copies. -/
theorem Tree.CopiesOnly.requests_eq {name : String} {tree : Tree} (h : tree.CopiesOnly name)
    (source : Json) :
    tree.requests name source =
      (tree.writers name).map fun key => ⟨source.property? key.name, none⟩ := by
  have hstep : ∀ entry ∈ tree.entries, entry.1.output = name → stepOf entry = ⟨entry.1, none⟩ := by
    rintro ⟨key, selection⟩ he hname
    cases selection with
    | leaf => rfl
    | nested block =>
        obtain rfl : block = .nil := h key block he hname
        rfl
  rw [requests, writers, steps_eq_map, Assoc.keys, List.filter_map, List.filter_map, List.map_map,
    List.map_map]
  simp only [Function.comp_def, key_stepOf]
  refine List.map_congr_left fun entry he => ?_
  obtain ⟨he, hname⟩ := List.mem_filter.mp he
  rw [hstep entry he (of_decide_eq_true hname)]
  rfl

/-! ## The place of a name -/

/-- **Copies, one after the other**: where nothing stood, the last property that is there is what stands at the
end, settled; if none is there absent mode leaves a marker. -/
theorem Projection.Request.answerAll_copies (mode : Mode) (source : Json) (keys : List Key) :
    answerAll mode (keys.map fun key => ⟨source.property? key.name, none⟩) none =
      match (lastMatch source keys).bind fun key => source.property? key.name, mode with
      | some value, mode => settlePlace mode (some value)
      | none, .strict => none
      | none, .absent => if keys = [] then none else some .null := by
  induction keys using List.reverseRecOn with
  | nil => cases mode <;> rfl
  | append_singleton keys key ih =>
      rw [List.map_append, answerAll_append, ih, lastMatch_append_singleton, List.map_singleton,
        answerAll_cons, answerAll_nil]
      cases hproperty : source.property? key.name with
      | some value =>
          -- what the keys before have left is forgotten
          rw [Option.isSome_some, if_pos rfl, Option.bind_some, hproperty]
          rfl
      | none =>
          rw [Option.isSome_none, if_neg Bool.false_ne_true]
          cases (lastMatch source keys).bind fun key => source.property? key.name with
          | some value =>
              cases mode with
              | strict => exact settlePlace_settlePlace .strict (some value)
              | absent => rfl
          | none =>
              cases mode with
              | strict => rfl
              | absent =>
                  rw [if_neg (List.append_ne_nil_of_right_ne_nil keys (List.cons_ne_nil key []))]
                  cases keys <;> rfl

namespace Schema

/-- **A name followed through all trees** of a schema, from a settled accumulator. -/
theorem get?_projectTrees {mode : Mode} (source : Json) (trees : List Tree) {acc : Object}
    (ha : (Assoc.keys acc).Nodup) (h : Settled mode acc) (name : String) :
    Assoc.get? name (projectTrees mode source trees acc).value =
      answerAll mode (trees.flatMap fun tree => tree.requests name source) (Assoc.get? name acc) := by
  induction trees generalizing acc with
  | nil => rfl
  | cons tree rest ih =>
      show Assoc.get? name (projectTrees mode source rest (tree.projectInto mode source acc)).value = _
      rw [ih (tree.nodup_keys_projectInto mode source ha) (tree.settled_projectInto source ha h),
        tree.get?_projectInto_of_settled source ha h, List.flatMap_cons, Request.answerAll_append]

/-- What stands under a name in a result answers the requests of all trees for it. -/
theorem property?_apply {schema : Schema} (h : schema.trees ≠ []) (mode : Mode) (source : Json)
    (name : String) :
    (schema.apply mode source).value.property? name =
      answerAll mode (schema.trees.flatMap fun tree => tree.requests name source) none := by
  rw [value_apply h, property?_result, blocks, ← projectTrees_eq_applyAll]
  have hempty : (Assoc.keys ([] : Object)).Nodup := List.nodup_nil
  exact get?_projectTrees source schema.trees hempty (fun _ => settlePlace_none mode) name

/-- **The last match wins.**  In a schema with a tree, let all entries that write under a name copy a property.
Then what stands under the name in a strict result is the property of the last of them whose property is there,
unless it is an empty object; in an absent result it is that property, and, if no property is there, `null` where
the name is declared. -/
theorem apply_lastMatch {schema : Schema} (hne : schema.trees ≠ []) {name : String}
    (hcopies : ∀ tree ∈ schema.trees, tree.CopiesOnly name) (source : Json) :
    let found := (lastMatch source (schema.writers name)).bind fun key => source.property? key.name
    (schema.apply .strict source).value.property? name =
        found.filter (fun value => !value.isEmptyObject) ∧
      (schema.apply .absent source).value.property? name =
        found.or (if schema.writers name = [] then none else some .null) := by
  have hrequests : (schema.trees.flatMap fun tree => tree.requests name source) =
      (schema.writers name).map fun key => ⟨source.property? key.name, none⟩ := by
    rw [writers, List.map_flatMap, List.flatMap_def, List.flatMap_def]
    exact congrArg List.flatten
      (List.map_congr_left fun tree ht => (hcopies tree ht).requests_eq source)
  intro found
  have hfound : (lastMatch source (schema.writers name)).bind (fun key => source.property? key.name) =
      found := rfl
  rw [property?_apply hne, property?_apply hne, hrequests, Request.answerAll_copies,
    Request.answerAll_copies, hfound]
  clear_value found
  cases found with
  | none => exact ⟨rfl, rfl⟩
  | some value => exact ⟨rfl, rfl⟩

/-- Four entries of two trees write under one name. -/
def rivals : Schema :=
  ⟨[.leaf ⟨"a", some "o"⟩ <| .leaf ⟨"b", some "p"⟩ .nil,
    .leaf ⟨"b", some "o"⟩ <| .leaf ⟨"c", none⟩ <| .nested ⟨"d", some "o"⟩ .nil .nil]⟩

/-- The last property that is there is an empty object: strict mode takes away what the first entry wrote. -/
theorem apply_lastMatch_emptied :
    let source : Json := .obj [("a", .bool true), ("b", .obj []), ("c", .null)]
    (rivals.trees ≠ [] ∧ ∀ tree ∈ rivals.trees, tree.CopiesOnly "o") ∧
      lastMatch source (rivals.writers "o") = some ⟨"b", some "o"⟩ ∧
      (rivals.apply .strict source).value.property? "o" = none ∧
      (rivals.apply .absent source).value.property? "o" = some (.obj []) := by
  intro source
  have hcopies : ∀ tree ∈ rivals.trees, tree.CopiesOnly "o" := by
    simp [rivals, Tree.CopiesOnly, Tree.entries]
  have hlast : lastMatch source (rivals.writers "o") = some ⟨"b", some "o"⟩ := rfl
  obtain ⟨hstrict, habsent⟩ := apply_lastMatch (List.cons_ne_nil _ _) hcopies source
  exact ⟨⟨List.cons_ne_nil _ _, hcopies⟩, hlast, hstrict, habsent⟩

end Schema

end JsonProjection
