/-
# `JsonProjection.Proofs.Selection.Resolved` -- what a tree as written means, level by level.

A tree as written may repeat keys and hold empty blocks; `resolved` inserts its entries in order, so that
neither is left.  Here `resolved` is seen through its entries: each of them is an entry as written whose
block is resolved in its turn (`mem_entries_resolved`).  Whatever is asked of every level passes from the
tree as written to its meaning by this one fact (`inBlocks_resolved`).
-/
import JsonProjection.Proofs.Selection.Insertion
import JsonProjection.Proofs.Selection.Level

namespace JsonProjection

/-- What an entry as written asks for: a block that is not empty by its own meaning, and the property as it
is in every other case. -/
def Selection.resolved : Selection → Selection
  | .leaf => .leaf
  | .nested block => if block.isEmpty then .leaf else .nested block.resolved

namespace Tree

/-! ## Entries -/

/-- The meanings of the entries, in the order in which they are written. -/
def meanings (tree : Tree) : List (Key × Selection) :=
  tree.entries.map fun entry => (entry.1, entry.2.resolved)

theorem resolveInto_ne_nil {acc tree : Tree} (h : acc ≠ .nil ∨ tree ≠ .nil) :
    resolveInto acc tree ≠ .nil := by
  induction tree generalizing acc with
  | nil => exact h.resolve_right fun hn => hn rfl
  | leaf key rest ih => exact ih (Or.inl (insert_ne_nil key .leaf acc))
  | nested key block rest _ ih => exact ih (Or.inl (insert_ne_nil key _ acc))

theorem resolved_ne_nil {tree : Tree} (h : tree ≠ .nil) : tree.resolved ≠ .nil :=
  resolveInto_ne_nil (Or.inr h)

/-- A block is empty as written exactly when it is empty in meaning. -/
theorem toSelection_resolved (block : Tree) :
    block.resolved.toSelection = (Selection.nested block).resolved := by
  by_cases h : block = .nil
  · subst h
    rfl
  · rw [toSelection, Selection.resolved, if_neg (mt (isEmpty_iff block).mp h),
      if_neg (mt (isEmpty_iff block.resolved).mp (resolved_ne_nil h))]

theorem resolveInto_eq_insertAll (acc tree : Tree) :
    resolveInto acc tree = acc.insertAll tree.meanings := by
  induction tree generalizing acc with
  | nil => rfl
  | leaf key rest ih => exact ih (acc.insert key .leaf)
  | nested key block rest _ ih =>
      rw [resolveInto, ih]
      show _ = (acc.insert key (Selection.nested block).resolved).insertAll rest.meanings
      rw [← toSelection_resolved]
      rfl

/-- **The meaning of a tree as written**: the meanings of its entries, inserted in order. -/
theorem resolved_eq_insertAll (tree : Tree) : tree.resolved = Tree.nil.insertAll tree.meanings :=
  resolveInto_eq_insertAll .nil tree

theorem nodup_keys_resolved (tree : Tree) : (Assoc.keys tree.resolved.entries).Nodup := by
  have hnil : (Assoc.keys Tree.nil.entries).Nodup := List.nodup_nil
  rw [resolved_eq_insertAll]
  exact nodup_keys_insertAll hnil tree.meanings

/-- **Every entry of the meaning** is the meaning of an entry as written. -/
theorem mem_entries_resolved {tree : Tree} {entry : Key × Selection}
    (h : entry ∈ tree.resolved.entries) : entry ∈ tree.meanings := by
  rw [resolved_eq_insertAll] at h
  exact (mem_of_mem_entries_insertAll h).resolve_left List.not_mem_nil

theorem mem_keys_resolved {tree : Tree} {key : Key} (h : key ∈ Assoc.keys tree.resolved.entries) :
    key ∈ Assoc.keys tree.entries := by
  obtain ⟨entry, he, rfl⟩ := List.mem_map.mp h
  obtain ⟨written, hw, rfl⟩ := List.mem_map.mp (mem_entries_resolved he)
  exact List.mem_map.mpr ⟨written, hw, rfl⟩

/-- **Every block of the meaning** is the meaning of a block as written that is not empty. -/
theorem nested_mem_entries_resolved {tree block : Tree} {key : Key}
    (h : (key, Selection.nested block) ∈ tree.resolved.entries) :
    ∃ written, (key, Selection.nested written) ∈ tree.entries ∧ written ≠ .nil ∧
      block = written.resolved := by
  obtain ⟨⟨key', selection⟩, hm, he⟩ := List.mem_map.mp (mem_entries_resolved h)
  cases selection with
  | leaf => cases he
  | nested written =>
      by_cases hn : written = .nil
      · subst hn
        cases he
      · rw [Selection.resolved, if_neg (mt (isEmpty_iff written).mp hn)] at he
        cases he
        exact ⟨written, hm, hn, rfl⟩

/-! ## Levels -/

variable {P Q : Tree → Prop}

/-- **Levels of the meaning**: what the levels as written give for their meanings holds in the blocks. -/
theorem inBlocks_resolved (h : ∀ level, level ≠ .nil → Q level → P level.resolved) {tree : Tree}
    (hq : tree.InBlocks Q) : tree.resolved.InBlocks P := by
  induction tree using blockInduction with
  | step tree ih =>
      refine inBlocks_iff.mpr fun key block hm => ?_
      obtain ⟨written, hw, hn, rfl⟩ := nested_mem_entries_resolved hm
      obtain ⟨hlevel, hblocks⟩ := inBlocks_iff.mp hq key written hw
      exact ⟨h written hn hlevel, ih key written hw hblocks⟩

theorem nesting_resolved_le (tree : Tree) : tree.resolved.nesting ≤ tree.nesting := by
  induction tree using blockInduction with
  | step tree ih =>
      refine nesting_le_iff.mpr fun key block hm _ => ?_
      obtain ⟨written, hw, hn, rfl⟩ := nested_mem_entries_resolved hm
      have hlevel := nesting_le_iff.mp (Nat.le_refl tree.nesting) key written hw hn
      have hblock := ih key written hw
      omega

/-! ## Keys and blocks of the meaning -/

/-- **Distinct keys**: on every level no key is declared twice. -/
def DistinctKeys (tree : Tree) : Prop :=
  tree.EveryLevel fun level => (Assoc.keys level.entries).Nodup

instance (tree : Tree) : Decidable tree.DistinctKeys :=
  inferInstanceAs (Decidable (tree.EveryLevel _))

/-- **No empty blocks**, on any level. -/
def NoEmptyBlocks (tree : Tree) : Prop := tree.InBlocks fun block => block ≠ .nil

instance (tree : Tree) : Decidable tree.NoEmptyBlocks := inferInstanceAs (Decidable (tree.InBlocks _))

theorem inBlocks_trivial (tree : Tree) : tree.InBlocks fun _ => True := by
  induction tree with
  | nil => trivial
  | leaf _ _ ih => exact ih
  | nested _ _ _ ihb ihr => exact ⟨⟨trivial, ihb⟩, ihr⟩

theorem distinctKeys_resolved (tree : Tree) : tree.resolved.DistinctKeys :=
  ⟨nodup_keys_resolved tree,
    inBlocks_resolved (fun level _ _ => nodup_keys_resolved level) (inBlocks_trivial tree)⟩

theorem noEmptyBlocks_resolved (tree : Tree) : tree.resolved.NoEmptyBlocks :=
  inBlocks_resolved (fun _ hn _ => resolved_ne_nil hn) (inBlocks_trivial tree)

end Tree

end JsonProjection
