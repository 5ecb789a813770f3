/-
# `JsonProjection.Proofs.Selection.Trimmed` -- trees without repeated keys, their empty blocks left out.

A tree that is put together by insertion repeats no key on any level, but its blocks may be empty.  All that
its meaning changes is then the empty blocks, which become leaves: `resolved` and `trim` agree
(`resolved_eq_trim`).  So such a tree is described by its trimmed form, and a tree that holds no empty block
either is its own meaning (`resolved_eq_self`).
-/
import JsonProjection.Proofs.Selection.Resolved

namespace JsonProjection

/-- What an entry asks for once the empty blocks are left out, its own and those inside it. -/
def Selection.trimmed : Selection → Selection
  | .leaf => .leaf
  | .nested block => if block.isEmpty then .leaf else .nested block.trim

namespace Tree

/-! ## Entries -/

/-- **Trimming** changes no key and no place: every entry asks for what it asked for, trimmed. -/
theorem entries_trim (tree : Tree) :
    tree.trim.entries = tree.entries.map fun entry => (entry.1, entry.2.trimmed) := by
  induction tree with
  | nil => rfl
  | leaf key rest ih => rw [trim, entries, entries, List.map_cons, ih, Selection.trimmed]
  | nested key block rest _ ih =>
      rw [trim, entries, List.map_cons, Selection.trimmed]
      split
      · rw [entries, ih]
      · rw [entries, ih]

theorem keys_entries_trim (tree : Tree) :
    Assoc.keys tree.trim.entries = Assoc.keys tree.entries := by
  rw [entries_trim, Assoc.keys, Assoc.keys, List.map_map]
  rfl

@[simp] theorem isEmpty_trim (tree : Tree) : tree.trim.isEmpty = tree.isEmpty := by
  cases tree with
  | nil => rfl
  | leaf => rfl
  | nested key block rest =>
      rw [trim]
      split <;> rfl

/-- Without empty blocks there is nothing to trim. -/
theorem trim_eq_self {tree : Tree} (h : tree.NoEmptyBlocks) : tree.trim = tree := by
  induction tree with
  | nil => rfl
  | leaf key rest ih => rw [trim, ih h]
  | nested key block rest ihb ihr =>
      obtain ⟨⟨hne, hblock⟩, hrest⟩ := h
      rw [trim, if_neg (mt (isEmpty_iff block).mp hne), ihb hblock, ihr hrest]

/-! ## The meaning of a tree with distinct keys -/

/-- **A tree with distinct keys** means itself, its empty blocks left out. -/
theorem resolved_eq_trim {tree : Tree} (hk : tree.DistinctKeys) : tree.resolved = tree.trim := by
  induction tree using blockInduction with
  | step tree ih =>
      have hmeanings : tree.meanings = tree.trim.entries := by
        rw [entries_trim]
        refine List.map_congr_left fun entry he => ?_
        obtain ⟨key, selection⟩ := entry
        cases selection with
        | leaf => rfl
        | nested block =>
            rw [Selection.resolved, Selection.trimmed, ih key block he (inBlocks_iff.mp hk.2 key block he)]
      have hnodup : (Assoc.keys tree.trim.entries).Nodup := by
        rw [keys_entries_trim]
        exact hk.1
      refine entries_injective ?_
      rw [resolved_eq_insertAll, hmeanings, entries_insertAll_of_nodup]
      · rfl
      · exact hnodup

/-- **A tree with distinct keys and without empty blocks is its own meaning.** -/
theorem resolved_eq_self {tree : Tree} (hk : tree.DistinctKeys) (hb : tree.NoEmptyBlocks) :
    tree.resolved = tree := (resolved_eq_trim hk).trans (trim_eq_self hb)

/-! ## Trees built by insertion -/

/-- **Built by insertion**: from the empty tree, one entry after the other, the blocks in the same way. -/
inductive Built : Tree → Prop
  | nil : Built .nil
  | insertLeaf {tree : Tree} (key : Key) : Built tree → Built (tree.insert key .leaf)
  | insertNested {tree block : Tree} (key : Key) :
      Built tree → Built block → Built (tree.insert key (.nested block))

/-- One insertion repeats no key if the block that is inserted repeats none. -/
theorem DistinctKeys.insert {tree : Tree} (h : tree.DistinctKeys) (key : Key) {selection : Selection}
    (hs : ∀ block, selection = .nested block → block.DistinctKeys) :
    (tree.insert key selection).DistinctKeys := by
  constructor
  · show (Assoc.keys (tree.insert key selection).entries).Nodup
    rw [entries_insert]
    exact Assoc.nodup_keys_set h.1 key selection
  · refine inBlocks_iff.mpr fun key' block hm => ?_
    rw [entries_insert] at hm
    rcases Assoc.mem_of_mem_set hm with he | hm
    · exact hs block (Prod.ext_iff.mp he).2.symm
    · exact inBlocks_iff.mp h.2 key' block hm

theorem Built.distinctKeys {tree : Tree} (h : tree.Built) : tree.DistinctKeys := by
  induction h with
  | nil => exact ⟨List.nodup_nil, trivial⟩
  | insertLeaf key _ ih => exact ih.insert key nofun
  | insertNested key _ _ ih ihb =>
      refine ih.insert key fun block he => ?_
      cases he
      exact ihb

end Tree

end JsonProjection
