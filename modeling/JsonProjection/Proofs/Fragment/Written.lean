/-
# `JsonProjection.Proofs.Fragment.Written` -- a tree as written is read.

A tree that can be written inside the blocks that are open is read from its tokens, entry by entry: the
reader ends where an entry may end, and the finished entries are those of the tree behind those that were
there (`reads_tokens`).  The induction is on the tree.  A block is the same statement one level deeper; its
first letter is what opens it, since the reader makes room for a block only when it sees that the block is
not empty (`Reads.enter`).
-/
import JsonProjection.Proofs.Fragment.Named
import JsonProjection.Proofs.Fragment.Transition

namespace JsonProjection

namespace Tree

variable {depth : Nat} {key : Key} {block rest : Tree}

theorem Fits.of_leaf (h : (Tree.leaf key rest).Fits depth) : key.WellNamed ∧ rest.Fits depth := by
  obtain ⟨hk, hr⟩ := (wellNamed_leaf key rest).mp h.wellNamed
  exact ⟨hk, hr, h.nesting_le⟩

/-- A block that is not empty fits one level deeper. -/
theorem Fits.of_nested (h : (Tree.nested key block rest).Fits depth) :
    key.WellNamed ∧ (block ≠ .nil → block.Fits (depth + 1)) ∧ rest.Fits depth := by
  obtain ⟨hk, hb, hr⟩ := (wellNamed_nested key block rest).mp h.wellNamed
  have hn : depth + max (if block.isEmpty then 0 else block.nesting + 1) rest.nesting ≤ maxNesting :=
    h.nesting_le
  refine ⟨hk, fun hne => ⟨hb, ?_⟩, hr, ?_⟩
  · rw [if_neg (mt (isEmpty_iff block).mp hne)] at hn
    omega
  · omega

end Tree

namespace Fragment.State

variable {outer : List Level} {entries : List (Key × Selection)}

/-! ## Names and keys -/

section Names

variable {begun : Phase} {going : List Char → Phase}

theorem reads_letters
    (more : ∀ {newest : List Char} {c : Char}, isNameChar c = true →
      Moves ⟨outer, entries, going newest⟩ (.plain c) ⟨outer, entries, going (c :: newest)⟩)
    {cs : List Char} (hcs : ∀ c ∈ cs, isNameChar c = true) (newest : List Char) :
    Reads ⟨outer, entries, going newest⟩ (cs.map Token.plain)
      ⟨outer, entries, going (cs.reverse ++ newest)⟩ := by
  induction cs generalizing newest with
  | nil => exact .nil
  | cons c cs ih =>
      obtain ⟨hc, hrest⟩ := List.forall_mem_cons.mp hcs
      rw [List.reverse_cons, List.append_assoc]
      exact .cons (more hc) (ih hrest (c :: newest))

/-- A name is read letter by letter, from a phase in which it may begin. -/
theorem reads_nameTokens
    (first : ∀ {c : Char}, isNameChar c = true →
      Moves ⟨outer, entries, begun⟩ (.plain c) ⟨outer, entries, going [c]⟩)
    (more : ∀ {newest : List Char} {c : Char}, isNameChar c = true →
      Moves ⟨outer, entries, going newest⟩ (.plain c) ⟨outer, entries, going (c :: newest)⟩)
    {name : String} (hn : IsName name) :
    Reads ⟨outer, entries, begun⟩ (nameTokens name)
      ⟨outer, entries, going name.toList.reverse⟩ := by
  obtain ⟨hne, hcs⟩ := hn
  unfold nameTokens
  cases hname : name.toList with
  | nil => exact absurd hname hne
  | cons c cs =>
      rw [hname] at hcs
      obtain ⟨hc, hrest⟩ := List.forall_mem_cons.mp hcs
      rw [List.reverse_cons]
      exact .cons (first hc) (reads_letters more hrest [c])

end Names

/-- The phase after a key. -/
def phaseOf (key : Key) : Phase :=
  match key.renamed with
  | none => .name key.name.toList.reverse
  | some renamed => .renamed key.name renamed.toList.reverse

theorem nameOf_reverse_toList (name : String) : nameOf name.toList.reverse = name := by
  simp [nameOf]

theorem reads_key {key : Key} (hk : key.WellNamed) :
    Reads ⟨outer, entries, .start⟩ key.tokens ⟨outer, entries, phaseOf key⟩ := by
  obtain ⟨name, renamed⟩ := key
  have hname : Reads ⟨outer, entries, .start⟩ (nameTokens name)
      ⟨outer, entries, .name name.toList.reverse⟩ :=
    reads_nameTokens .firstLetter .letter hk.1
  cases renamed with
  | none => exact hname
  | some renamed =>
      refine hname.append (.cons .arrow ?_)
      rw [nameOf_reverse_toList]
      exact reads_nameTokens .firstRenamedLetter .renamedLetter (hk.2 renamed rfl)

theorem complete_phaseOf (key : Key) :
    complete ⟨outer, entries, phaseOf key⟩ = ⟨outer, (key, .leaf) :: entries, .closed⟩ := by
  obtain ⟨name, renamed⟩ := key
  cases renamed <;> simp only [phaseOf, complete, nameOf_reverse_toList]

theorem moves_colon (key : Key) :
    Moves ⟨outer, entries, phaseOf key⟩ .colon ⟨outer, entries, .colon key⟩ := by
  rw [← step_eq_ok_iff]
  obtain ⟨name, renamed⟩ := key
  cases renamed <;> simp only [phaseOf, step, nameOf_reverse_toList]

/-! ## Entries -/

/-- The reader has read a tree: it stands where an entry may end, behind the entries of the tree. -/
def ReadsTree (state : State) (tokens : List Token) (outer : List Level)
    (entries : List (Key × Selection)) : Prop :=
  ∃ next, Reads state tokens next ∧ next.complete = ⟨outer, entries, .closed⟩

/-- The entries behind one that is whole: nothing, or a comma and the tokens of the rest. -/
theorem readsTree_rest {state : State} (hc : state.complete = ⟨outer, entries, .closed⟩)
    {rest : Tree}
    (h : rest ≠ .nil →
      ReadsTree ⟨outer, entries, .start⟩ rest.tokens outer (rest.entries.reverse ++ entries)) :
    ReadsTree state (rest.separator ++ rest.tokens) outer (rest.entries.reverse ++ entries) := by
  by_cases hr : rest = .nil
  · subst hr
    exact ⟨state, .nil, hc⟩
  · obtain ⟨next, hreads, hnext⟩ := h hr
    rw [Tree.separator, if_neg (mt (Tree.isEmpty_iff rest).mp hr)]
    exact ⟨next, .cons (.comma hc) hreads, hnext⟩

/-- The first letter of a block opens it. -/
theorem Reads.enter {key : Key} {tokens : List Token} {next : State}
    (hroom : outer.length ≠ maxNesting)
    (h : Reads ⟨⟨entries, key⟩ :: outer, [], .start⟩ tokens next)
    {outer' : List Level} {entries' : List (Key × Selection)}
    (hc : next.complete = ⟨outer', entries', .closed⟩) :
    Reads ⟨outer, entries, .opened key⟩ tokens next := by
  cases h with
  | nil => cases hc
  | cons hmove hreads =>
      cases hmove with
      | firstLetter hletter => exact .cons (.block hroom hletter) hreads
      | comma hstart => cases hstart
      | closing hstart => cases hstart

/-- **A tree that can be written is read** from its tokens, behind the entries that are there. -/
theorem reads_tokens {tree : Tree} (hne : tree ≠ .nil) (outer : List Level)
    (hf : tree.Fits outer.length) (entries : List (Key × Selection)) :
    ReadsTree ⟨outer, entries, .start⟩ tree.tokens outer (tree.entries.reverse ++ entries) := by
  induction tree generalizing outer entries with
  | nil => exact absurd rfl hne
  | leaf key rest ih =>
      obtain ⟨hk, hr⟩ := hf.of_leaf
      obtain ⟨next, hreads, hnext⟩ :=
        readsTree_rest (complete_phaseOf key) fun hne => ih hne outer hr ((key, .leaf) :: entries)
      rw [Tree.entries, List.reverse_cons, List.append_assoc]
      exact ⟨next, (reads_key hk).append hreads, hnext⟩
  | nested key block rest ihb ihr =>
      obtain ⟨hk, hb, hr⟩ := hf.of_nested
      -- the block, from the left brace to the right one
      have hblock : Reads ⟨outer, entries, .opened key⟩ (block.tokens ++ [.closing])
          ⟨outer, (key, .nested block) :: entries, .closed⟩ := by
        by_cases hempty : block = .nil
        · subst hempty
          exact .single .emptyBlock
        · have hfits := hb hempty
          obtain ⟨inside, hreads, hinside⟩ := ihb hempty (⟨entries, key⟩ :: outer) hfits []
          have hroom : outer.length ≠ maxNesting := by
            have := hfits.nesting_le
            omega
          have hclose := Moves.closing hinside
          rw [List.append_nil, List.reverse_reverse, Tree.ofEntries_entries] at hclose
          exact (hreads.enter hroom hinside).append (.single hclose)
      have hrest : ReadsTree ⟨outer, (key, .nested block) :: entries, .closed⟩
          (rest.separator ++ rest.tokens) outer
          (rest.entries.reverse ++ (key, .nested block) :: entries) :=
        readsTree_rest rfl fun hne => ihr hne outer hr ((key, .nested block) :: entries)
      obtain ⟨next, hreads, hnext⟩ := hrest
      rw [Tree.entries, List.reverse_cons, List.append_assoc]
      refine ⟨next, ?_, hnext⟩
      have hentry := (reads_key hk).append (.cons (moves_colon key) (.cons .opening hblock))
      have htokens := hentry.append hreads
      simpa only [Tree.tokens, List.append_assoc, List.cons_append, List.nil_append] using htokens

end Fragment.State

end JsonProjection
