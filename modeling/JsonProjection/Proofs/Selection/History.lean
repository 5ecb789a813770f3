/-
# `JsonProjection.Proofs.Selection.History` -- what a history of insertions leaves.

A tree is built entry by entry, and a key may be inserted many times, at any distance.  `Assoc.Records` says what
is left of such a history without saying how it is found: every key once, keys in the order in which they were
first written, under each key the value that was written last.  Only one list is left of a history in this sense
(`Records.unique`), and writing one more pair keeps a record up to date (`Records.set`), so a tree records the
insertions from which it was built.

A history cut in two leaves the same: the entries of the tree of the second part, inserted into the tree of the
first, give the tree of the whole, although that second tree has already dropped its repeats and moved the last
selections forward.
-/
import Mathlib.Data.List.Basic
import JsonProjection.Proofs.Selection.Appended

namespace JsonProjection

namespace Assoc

variable {κ α : Type} [DecidableEq κ]

/-! ## Records -/

/-- **The last writing** of a key: nothing is written under the key afterwards. -/
def LastWritten (history : List (κ × α)) (k : κ) (a : α) : Prop :=
  ∃ before after, history = before ++ (k, a) :: after ∧ k ∉ keys after

/-- **The record of a history**: no key twice, keys in the order of their first writings, and under each key the
value of its last writing. -/
structure Records (history l : List (κ × α)) : Prop where
  nodup : (keys l).Nodup
  ordered : (keys l).Pairwise fun k k' => (keys history).idxOf k ≤ (keys history).idxOf k'
  mem_iff : ∀ k a, (k, a) ∈ l ↔ LastWritten history k a

variable {history l m : List (κ × α)}

/-- The last writing of a key is what is read from behind. -/
theorem lastWritten_iff {k : κ} {a : α} :
    LastWritten history k a ↔ get? k history.reverse = some a := by
  rw [get?_eq_some_iff]
  constructor
  · rintro ⟨before, after, rfl, hk⟩
    refine ⟨after.reverse, before.reverse, by simp, ?_⟩
    simpa [keys] using hk
  · rintro ⟨before, after, h, hk⟩
    refine ⟨after.reverse, before.reverse, ?_, ?_⟩
    · rw [← List.reverse_reverse history, h]
      simp
    · simpa [keys] using hk

theorem Records.nil : Records ([] : List (κ × α)) [] := by
  refine ⟨List.nodup_nil, List.Pairwise.nil, ?_⟩
  intro k a
  simp [lastWritten_iff]

/-- At every key stands what was written there last. -/
theorem Records.get?_eq (h : Records history l) (k : κ) : get? k l = get? k history.reverse := by
  refine Option.ext fun a => ?_
  rw [← mem_iff_get?_eq_some h.nodup, h.mem_iff, lastWritten_iff]

/-- The keys of a record are the keys that were written. -/
theorem Records.mem_keys_iff (h : Records history l) (k : κ) : k ∈ keys l ↔ k ∈ keys history := by
  have hnone : k ∉ keys l ↔ k ∉ keys history.reverse := by
    rw [← get?_eq_none_iff, ← get?_eq_none_iff, h.get?_eq]
  have hreverse : k ∈ keys history.reverse ↔ k ∈ keys history := by simp [keys]
  rw [← hreverse]
  exact not_iff_not.mp hnone

/-- A further writing does not change where a key was first written. -/
theorem idxOf_keys_concat_of_mem {k : κ} (h : k ∈ keys history) (p : κ × α) :
    (keys (history ++ [p])).idxOf k = (keys history).idxOf k := by
  rw [keys_append, List.idxOf_append_of_mem h]

/-- A new key is first written behind all others. -/
theorem idxOf_keys_concat_self {k : κ} (h : k ∉ keys history) (a : α) :
    (keys (history ++ [(k, a)])).idxOf k = (keys history).length := by
  rw [keys_append, List.idxOf_append_of_notMem h]
  simp

/-- Writing keeps the keys in the order of their first writings. -/
theorem Records.ordered_set (h : Records history l) (k : κ) (a : α) :
    (keys (set k a l)).Pairwise fun j j' =>
      (keys (history ++ [(k, a)])).idxOf j ≤ (keys (history ++ [(k, a)])).idxOf j' := by
  have hfirst : ∀ j ∈ keys l, (keys (history ++ [(k, a)])).idxOf j = (keys history).idxOf j := by
    intro j hj
    exact idxOf_keys_concat_of_mem ((h.mem_keys_iff j).mp hj) (k, a)
  have hordered : (keys l).Pairwise fun j j' =>
      (keys (history ++ [(k, a)])).idxOf j ≤ (keys (history ++ [(k, a)])).idxOf j' := by
    refine h.ordered.imp_of_mem ?_
    intro j j' hj hj' hle
    rwa [hfirst j hj, hfirst j' hj']
  rw [keys_set]
  split
  case isTrue => exact hordered
  case isFalse hk =>
    refine List.pairwise_append.mpr ⟨hordered, List.pairwise_singleton _ k, ?_⟩
    intro j hj j' hj'
    obtain rfl : j' = k := List.mem_singleton.mp hj'
    have hold : (keys history).idxOf j < (keys history).length :=
      List.idxOf_lt_length_of_mem ((h.mem_keys_iff j).mp hj)
    rw [hfirst j hj, idxOf_keys_concat_self (mt (h.mem_keys_iff j').mpr hk)]
    omega

/-- **One more writing** keeps the record of what was written. -/
theorem Records.set (h : Records history l) (k : κ) (a : α) :
    Records (history ++ [(k, a)]) (set k a l) := by
  have hnodup : (keys (Assoc.set k a l)).Nodup := nodup_keys_set h.nodup k a
  refine ⟨hnodup, h.ordered_set k a, ?_⟩
  intro j b
  rw [mem_iff_get?_eq_some hnodup, lastWritten_iff, List.reverse_concat, get?_set, get?_cons, h.get?_eq]

/-- **A history has one record.** -/
theorem Records.unique (h : Records history l) (h' : Records history m) : l = m := by
  have hget : ∀ k, get? k l = get? k m := by
    intro k
    rw [h.get?_eq, h'.get?_eq]
  have hl : l.Pairwise fun p q => (keys history).idxOf p.1 ≤ (keys history).idxOf q.1 :=
    h.ordered.of_map Prod.fst fun _ _ hle => hle
  have hm : m.Pairwise fun p q => (keys history).idxOf p.1 ≤ (keys history).idxOf q.1 :=
    h'.ordered.of_map Prod.fst fun _ _ hle => hle
  refine (perm_of_get?_eq h.nodup h'.nodup hget).eq_of_pairwise ?_ hl hm
  rintro ⟨k, a⟩ ⟨k', b⟩ hp hq hle hge
  -- keys that were first written in one place are one key, and one value stands at a key
  have hk : k ∈ keys history := (h.mem_keys_iff k).mp (List.mem_map.mpr ⟨(k, a), hp, rfl⟩)
  obtain rfl : k = k' := (List.idxOf_inj hk).mp (Nat.le_antisymm hle hge)
  have ha : get? k l = some a := (mem_iff_get?_eq_some h.nodup).mp hp
  have hb : get? k m = some b := (mem_iff_get?_eq_some h'.nodup).mp hq
  rw [← hget, ha] at hb
  rw [Option.some_inj.mp hb]

end Assoc

namespace Tree

/-! ## Trees as records -/

/-- **Insertion after insertion**: a tree that records a history records it together with what is inserted. -/
theorem records_insertAll {history : List (Key × Selection)} {tree : Tree}
    (h : Assoc.Records history tree.entries) (l : List (Key × Selection)) :
    Assoc.Records (history ++ l) (tree.insertAll l).entries := by
  induction l generalizing history tree with
  | nil => rwa [List.append_nil]
  | cons entry l ih =>
      have hset : Assoc.Records (history ++ [entry]) (tree.insert entry.1 entry.2).entries := by
        rw [entries_insert]
        exact h.set entry.1 entry.2
      have hrest := ih hset
      rwa [List.append_assoc, List.singleton_append] at hrest

/-- A tree built by insertion alone records what was inserted. -/
theorem records_insertAll_nil (l : List (Key × Selection)) :
    Assoc.Records l (Tree.nil.insertAll l).entries := by
  have hnil : Assoc.Records [] Tree.nil.entries := Assoc.Records.nil
  exact records_insertAll hnil l

/-- **The meaning of a fragment** records its entries as they are written. -/
theorem records_resolved (tree : Tree) : Assoc.Records tree.meanings tree.resolved.entries := by
  rw [resolved_eq_insertAll]
  exact records_insertAll_nil tree.meanings

/-- **First place, last selection.**  The entries of a tree built by insertion are the one list that records what
was inserted.  Merging the trees of two histories gives the tree of the one history followed by the other, and so,
of three trees, it does not matter which two are merged first. -/
theorem insertAll_recorded_and_merged (p q r : List (Key × Selection)) :
    (∀ entries, (Tree.nil.insertAll p).entries = entries ↔ Assoc.Records p entries) ∧
      (Tree.nil.insertAll p).merge (Tree.nil.insertAll q) = Tree.nil.insertAll (p ++ q) ∧
      ((Tree.nil.insertAll p).merge (Tree.nil.insertAll q)).merge (Tree.nil.insertAll r) =
        (Tree.nil.insertAll p).merge ((Tree.nil.insertAll q).merge (Tree.nil.insertAll r)) := by
  have hnil : (Assoc.keys Tree.nil.entries).Nodup := List.nodup_nil
  refine ⟨?_, ?_, ?_⟩
  · intro entries
    constructor
    · rintro rfl
      exact records_insertAll_nil p
    · intro h
      exact (records_insertAll_nil p).unique h
  · rw [merge_insertAll_nil, insertAll_append]
  · exact merge_assoc _ (nodup_keys_insertAll hnil q) _

/-- `a` comes back, keeps its place and takes its block; `a->a` is another key. -/
example :
    let a : Key := ⟨"a", none⟩
    let renamed : Key := ⟨"a", some "a"⟩
    let block : Tree := .leaf ⟨"c", none⟩ .nil
    Tree.nil.insertAll [(a, .leaf), (renamed, .leaf), (a, .nested block)] =
      .nested a block (.leaf renamed .nil) := by
  decide

end Tree

end JsonProjection
