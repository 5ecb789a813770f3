/-
# `JsonProjection.Proofs.Selection.Insertion` -- entries inserted one after the other.

A tree is built by inserting entries, and the entries may repeat keys.  `insertAll` inserts a list of them;
the lemmas say what the entries of the result are, through the list of entries alone: nothing but what was
there and what was inserted, no key twice, and, where no key repeats, the one list behind the other.
-/
import JsonProjection.Selection.Tree

namespace JsonProjection.Tree

theorem insertAll_cons (tree : Tree) (entry : Key × Selection) (l : List (Key × Selection)) :
    tree.insertAll (entry :: l) = (tree.insert entry.1 entry.2).insertAll l := rfl

/-- A key is inserted where it stands, or behind all others: an entry of the result was inserted or was
there before. -/
theorem mem_of_mem_entries_insertAll {tree : Tree} {l : List (Key × Selection)}
    {entry : Key × Selection} (h : entry ∈ (tree.insertAll l).entries) :
    entry ∈ tree.entries ∨ entry ∈ l := by
  induction l generalizing tree with
  | nil => exact Or.inl h
  | cons first l ih =>
      rcases ih h with h | h
      · rw [entries_insert] at h
        rcases Assoc.mem_of_mem_set h with rfl | h
        · exact Or.inr List.mem_cons_self
        · exact Or.inl h
      · exact Or.inr (List.mem_cons_of_mem _ h)

/-- Insertion repeats no key. -/
theorem nodup_keys_insertAll {tree : Tree} (h : (Assoc.keys tree.entries).Nodup)
    (l : List (Key × Selection)) : (Assoc.keys (tree.insertAll l).entries).Nodup := by
  induction l generalizing tree with
  | nil => exact h
  | cons entry l ih =>
      refine ih ?_
      rw [entries_insert]
      exact Assoc.nodup_keys_set h entry.1 entry.2

theorem insert_ne_nil (key : Key) (selection : Selection) (tree : Tree) :
    tree.insert key selection ≠ .nil := by
  intro h
  have hk := Assoc.get?_set_self key selection tree.entries
  rw [← entries_insert, h, entries_nil, Assoc.get?_nil] at hk
  cases hk

/-- **Without a repeated key** the inserted entries stand behind those that were there. -/
theorem entries_insertAll_of_nodup {tree : Tree} {l : List (Key × Selection)}
    (h : (Assoc.keys (tree.entries ++ l)).Nodup) :
    (tree.insertAll l).entries = tree.entries ++ l := by
  induction l generalizing tree with
  | nil => exact (List.append_nil _).symm
  | cons entry l ih =>
      obtain ⟨key, selection⟩ := entry
      have hnew : key ∉ Assoc.keys tree.entries := by
        rw [Assoc.keys_append, Assoc.keys_cons] at h
        exact fun hk => (List.nodup_append.mp h).2.2 key hk key List.mem_cons_self rfl
      have hentries : (tree.insert key selection).entries = tree.entries ++ [(key, selection)] := by
        rw [entries_insert, Assoc.set_of_not_mem hnew]
      have happend : tree.entries ++ [(key, selection)] ++ l = tree.entries ++ (key, selection) :: l := by
        rw [List.append_assoc, List.singleton_append]
      rw [insertAll_cons, ih (by rwa [hentries, happend]), hentries, happend]

end JsonProjection.Tree
