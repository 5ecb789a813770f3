/-
# `JsonProjection.Proofs.Selection.Appended` -- the entries of two trees, side by side.

Two lists of entries can be put together in two ways.  `append` writes the one behind the other, whatever keys
they have; `merge` inserts the second into the first, so that a key which both declare keeps its place and takes
the later selection.  Where they share no key the two are the same (`merge_eq_append`).

Merging does not care how its second tree came about: inserting the entries of a tree that was itself built by
insertion is inserting what it was built from (`merge_insertAll`).  Repeated keys have moved together in such a
tree, and the first of them kept its place, but so they do where they are inserted one by one.  So merging is
associative (`merge_assoc`).
-/
import JsonProjection.Proofs.Selection.Insertion
import JsonProjection.Proofs.Selection.Resolved
import JsonProjection.Proofs.Selection.Steps

namespace JsonProjection.Tree

/-! ## One tree behind the other -/

/-- **The entries of one tree behind those of another.** -/
def append (tree other : Tree) : Tree := ofEntries (tree.entries ++ other.entries)

@[simp] theorem entries_append (tree other : Tree) :
    (tree.append other).entries = tree.entries ++ other.entries := entries_ofEntries _

@[simp] theorem nil_append (other : Tree) : Tree.nil.append other = other := ofEntries_entries other

theorem leaf_append (key : Key) (rest other : Tree) :
    (Tree.leaf key rest).append other = .leaf key (rest.append other) := rfl

theorem nested_append (key : Key) (block rest other : Tree) :
    (Tree.nested key block rest).append other = .nested key block (rest.append other) := rfl

theorem append_ne_nil {tree other : Tree} (h : other ≠ .nil) : tree.append other ≠ .nil := by
  cases tree with
  | nil => rwa [nil_append]
  | leaf | nested => exact Tree.noConfusion

theorem steps_append (tree other : Tree) : (tree.append other).steps = tree.steps ++ other.steps := by
  rw [steps_eq_map, entries_append, List.map_append, ← steps_eq_map, ← steps_eq_map]

theorem meanings_append (tree other : Tree) :
    (tree.append other).meanings = tree.meanings ++ other.meanings := by
  rw [meanings, entries_append, List.map_append]
  rfl

/-! ## One tree inserted into the other -/

theorem insertAll_append (tree : Tree) (l m : List (Key × Selection)) :
    tree.insertAll (l ++ m) = (tree.insertAll l).insertAll m := List.foldl_append

/-- **Without a common key** merging puts the entries behind one another. -/
theorem merge_eq_append {tree other : Tree} (h : (Assoc.keys tree.entries).Nodup)
    (ho : (Assoc.keys other.entries).Nodup)
    (hdisjoint : ∀ key ∈ Assoc.keys tree.entries, key ∉ Assoc.keys other.entries) :
    tree.merge other = tree.append other := by
  have hkeys : (Assoc.keys (tree.entries ++ other.entries)).Nodup := by
    rw [Assoc.keys_append]
    exact List.nodup_append.mpr
      ⟨h, ho, fun key hk other hother he => hdisjoint key hk (he ▸ hother)⟩
  refine entries_injective ?_
  rw [entries_append]
  exact entries_insertAll_of_nodup hkeys

/-- A key that is there can be overwritten before or after entries with other keys are inserted. -/
theorem insert_insertAll {key : Key} {tree : Tree} (hk : key ∈ Assoc.keys tree.entries)
    {l : List (Key × Selection)} (hl : key ∉ Assoc.keys l) (selection : Selection) :
    (tree.insertAll l).insert key selection = (tree.insert key selection).insertAll l := by
  induction l generalizing tree with
  | nil => rfl
  | cons entry l ih =>
      rw [Assoc.keys_cons, List.mem_cons, not_or] at hl
      have hthere : key ∈ Assoc.keys (tree.insert entry.1 entry.2).entries := by
        rw [entries_insert, Assoc.keys_set]
        split
        · exact hk
        · exact List.mem_append_left _ hk
      have hcomm : (tree.insert entry.1 entry.2).insert key selection =
          (tree.insert key selection).insert entry.1 entry.2 := by
        refine entries_injective ?_
        simp only [entries_insert]
        exact Assoc.set_comm hl.1 hk selection entry.2
      rw [insertAll_cons, insertAll_cons, ih hthere hl.2, hcomm]

/-- Merging a tree with one more entry is merging the tree and inserting the entry. -/
theorem merge_insert (tree : Tree) {other : Tree} (ho : (Assoc.keys other.entries).Nodup) (key : Key)
    (selection : Selection) :
    tree.merge (other.insert key selection) = (tree.merge other).insert key selection := by
  show tree.insertAll (other.insert key selection).entries =
    (tree.insertAll other.entries).insert key selection
  rw [entries_insert]
  generalize other.entries = l at ho
  induction l generalizing tree with
  | nil => rfl
  | cons entry l ih =>
      obtain ⟨key', old⟩ := entry
      rw [Assoc.keys_cons, List.nodup_cons] at ho
      by_cases hk : key' = key
      · subst hk
        have hthere : key' ∈ Assoc.keys (tree.insert key' old).entries := by
          rw [entries_insert, Assoc.keys_set]
          split
          case isTrue h => exact h
          case isFalse => exact List.mem_append_right _ List.mem_cons_self
        have hlast : (tree.insert key' old).insert key' selection = tree.insert key' selection := by
          refine entries_injective ?_
          simp only [entries_insert]
          exact Assoc.set_set key' selection old tree.entries
        rw [Assoc.set, if_pos rfl, insertAll_cons, insertAll_cons, insert_insertAll hthere ho.1, hlast]
      · rw [Assoc.set, if_neg hk, insertAll_cons, insertAll_cons]
        exact ih (tree.insert key' old) ho.2

/-- **Merging what was built by insertion** is inserting what it was built from. -/
theorem merge_insertAll (tree : Tree) {other : Tree} (ho : (Assoc.keys other.entries).Nodup)
    (l : List (Key × Selection)) :
    tree.merge (other.insertAll l) = (tree.merge other).insertAll l := by
  induction l generalizing other with
  | nil => rfl
  | cons entry l ih =>
      have hnext : (Assoc.keys (other.insert entry.1 entry.2).entries).Nodup := by
        rw [entries_insert]
        exact Assoc.nodup_keys_set ho entry.1 entry.2
      rw [insertAll_cons, insertAll_cons, ih hnext, merge_insert tree ho]

/-- Merging a tree built by insertion alone is inserting what it was built from. -/
theorem merge_insertAll_nil (tree : Tree) (l : List (Key × Selection)) :
    tree.merge (Tree.nil.insertAll l) = tree.insertAll l := by
  have hnil : (Assoc.keys Tree.nil.entries).Nodup := List.nodup_nil
  exact merge_insertAll tree hnil l

/-- **Merging is associative**: it does not matter whether the second tree is merged into the first before or after
the third is merged into the second. -/
theorem merge_assoc (tree : Tree) {other : Tree} (ho : (Assoc.keys other.entries).Nodup) (last : Tree) :
    (tree.merge other).merge last = tree.merge (other.merge last) :=
  (merge_insertAll tree ho last.entries).symm

/-- **The meaning of two lists of entries**, one behind the other, is the meaning of the one with that of the
other merged into it. -/
theorem resolved_append (tree other : Tree) :
    (tree.append other).resolved = tree.resolved.merge other.resolved := by
  rw [resolved_eq_insertAll, meanings_append, insertAll_append, ← resolved_eq_insertAll,
    resolved_eq_insertAll other, merge_insertAll_nil]

end JsonProjection.Tree
