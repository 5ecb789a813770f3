/-
# `JsonProjection.Proofs.Fragment.Consumed` -- the state remembers what was read.

Nothing that the reader takes in is lost: the tokens read so far can be written down from the state alone
(`consumed`).  Every move adds its token to them (`Moves.consumed`), and keeps the state in order
(`InOrder`): all names are names, and every block that is open or finished lies within the permitted
nesting.  So when the text may end, the tree that the reader returns, written as a fragment, is the text that
was read, and it is a tree that can be written.
-/
import JsonProjection.Proofs.Fragment.Named
import JsonProjection.Proofs.Fragment.Transition

namespace JsonProjection

open JsonProjection.Fragment (Token IsName isNameChar nameTokens)

/-! ## Fitting, entry by entry -/

namespace Tree

theorem fits_nil {depth : Nat} (h : depth ≤ maxNesting) : Tree.nil.Fits depth := ⟨wellNamed_nil, h⟩

theorem fits_leaf {depth : Nat} (hd : depth ≤ maxNesting) {key : Key} (hk : key.WellNamed) :
    (ofEntries [(key, .leaf)]).Fits depth :=
  ⟨(wellNamed_leaf key .nil).mpr ⟨hk, wellNamed_nil⟩, hd⟩

theorem fits_emptyBlock {depth : Nat} (hd : depth ≤ maxNesting) {key : Key} (hk : key.WellNamed) :
    (ofEntries [(key, .nested .nil)]).Fits depth :=
  ⟨(wellNamed_nested key .nil .nil).mpr ⟨hk, wellNamed_nil, wellNamed_nil⟩, hd⟩

/-- A block fits where the tree in it fits one level deeper. -/
theorem Fits.nested {depth : Nat} {key : Key} {block : Tree} (hb : block.Fits (depth + 1))
    (hk : key.WellNamed) : (ofEntries [(key, .nested block)]).Fits depth := by
  refine ⟨(wellNamed_nested key block .nil).mpr ⟨hk, hb.wellNamed, wellNamed_nil⟩, ?_⟩
  have hn := hb.nesting_le
  show depth + max (if block.isEmpty then 0 else block.nesting + 1) 0 ≤ maxNesting
  split <;> omega

theorem Fits.append {depth : Nat} {l m : List (Key × Selection)} (hl : (ofEntries l).Fits depth)
    (hm : (ofEntries m).Fits depth) : (ofEntries (l ++ m)).Fits depth := by
  refine ⟨(wellNamed_ofEntries_append l m).mpr ⟨hl.wellNamed, hm.wellNamed⟩, ?_⟩
  have hl := hl.nesting_le
  have hm := hm.nesting_le
  rw [nesting_ofEntries_append]
  omega

end Tree

namespace Fragment.State

/-! ## The tokens read so far -/

/-- The tokens of the blocks that are open, up to their left braces. -/
def outerTokens : List Level → List Token
  | [] => []
  | level :: outer =>
    outerTokens outer ++
      ((Tree.ofEntries level.before.reverse).tokensBefore ++
        (level.key.tokens ++ [.colon, .opening]))

/-- The tokens of an entry that is not finished. -/
def phaseTokens : Phase → List Token
  | .start => []
  | .name newest => nameTokens (nameOf newest)
  | .renaming name => nameTokens name ++ [.arrow]
  | .renamed name newest => nameTokens name ++ .arrow :: nameTokens (nameOf newest)
  | .colon key => key.tokens ++ [.colon]
  | .opened key => key.tokens ++ [.colon, .opening]
  | .closed => []

/-- **The tokens read so far**, written down from the state. -/
def consumed (state : State) : List Token :=
  outerTokens state.outer ++
    match state.phase with
    | .closed => state.tree.tokens
    | phase => state.tree.tokensBefore ++ phaseTokens phase

/-! ## States in order -/

/-- The names in an entry that is not finished are names. -/
def PhaseNamed : Phase → Prop
  | .start => True
  | .name newest => IsName (nameOf newest)
  | .renaming name => IsName name
  | .renamed name newest => IsName name ∧ IsName (nameOf newest)
  | .colon key => key.WellNamed
  | .opened key => key.WellNamed
  | .closed => True

/-- The entries before each open block fit around it, and there is room for the block. -/
def OuterFits : List Level → Prop
  | [] => True
  | level :: outer =>
    ((Tree.ofEntries level.before.reverse).Fits outer.length ∧ level.key.WellNamed ∧
      outer.length < maxNesting) ∧ OuterFits outer

/-- **A state in order.** -/
structure InOrder (state : State) : Prop where
  outer : OuterFits state.outer
  tree : state.tree.Fits state.outer.length
  phase : PhaseNamed state.phase
  /-- an entry is closed only after it was read -/
  closed : state.phase = .closed → state.entries ≠ []

theorem inOrder_initial : initial.InOrder :=
  ⟨trivial, Tree.fits_nil (Nat.zero_le _), trivial, fun h => nomatch h⟩

/-- There is room for the blocks that are open. -/
theorem InOrder.depth_le {state : State} (h : state.InOrder) : state.outer.length ≤ maxNesting :=
  Nat.le_trans (Nat.le_add_right _ _) h.tree.nesting_le

/-! ## Names that grow -/

@[simp] theorem toList_nameOf (newest : List Char) : (nameOf newest).toList = newest.reverse := by
  simp [nameOf]

theorem isName_nameOf_singleton {c : Char} (hc : isNameChar c = true) : IsName (nameOf [c]) := by
  simp [IsName, hc]

theorem isName_nameOf_cons {newest : List Char} (h : IsName (nameOf newest)) {c : Char}
    (hc : isNameChar c = true) : IsName (nameOf (c :: newest)) := by
  refine ⟨by simp, fun d hd => ?_⟩
  rw [toList_nameOf, List.mem_reverse, List.mem_cons] at hd
  rcases hd with rfl | hd
  · exact hc
  · exact h.2 d (by rwa [toList_nameOf, List.mem_reverse])

theorem nameTokens_nameOf_cons (c : Char) (newest : List Char) :
    nameTokens (nameOf (c :: newest)) = nameTokens (nameOf newest) ++ [.plain c] := by
  simp [nameTokens]

/-! ## Completing an entry -/

variable {state next : State} {token : Token}

theorem tree_cons (outer : List Level) (entry : Key × Selection)
    (entries : List (Key × Selection)) (phase : Phase) :
    State.tree ⟨outer, entry :: entries, phase⟩ = Tree.ofEntries (entries.reverse ++ [entry]) := by
  rw [tree, List.reverse_cons]

/-- Completing an entry reads nothing. -/
theorem consumed_complete (state : State) : state.complete.consumed = state.consumed := by
  obtain ⟨outer, entries, phase⟩ := state
  cases phase with
  | name newest =>
      simp only [complete, consumed, tree_cons, Tree.tokens_ofEntries_append_singleton]
      rw [phaseTokens, tree]
      simp [Tree.ofEntries, Tree.cons, Tree.tokens, Tree.separator, Tree.isEmpty, Key.tokens]
  | renamed name newest =>
      simp only [complete, consumed, tree_cons, Tree.tokens_ofEntries_append_singleton]
      rw [phaseTokens, tree]
      simp [Tree.ofEntries, Tree.cons, Tree.tokens, Tree.separator, Tree.isEmpty, Key.tokens]
  | _ => rfl

theorem InOrder.complete (h : state.InOrder) : state.complete.InOrder := by
  have hd := h.depth_le
  obtain ⟨outer, entries, phase⟩ := state
  cases phase with
  | name newest =>
      refine ⟨h.outer, ?_, trivial, fun _ => List.cons_ne_nil _ _⟩
      show (State.tree ⟨outer, _ :: entries, .closed⟩).Fits outer.length
      rw [tree_cons]
      exact h.tree.append (Tree.fits_leaf hd ⟨h.phase, fun _ hr => nomatch hr⟩)
  | renamed name newest =>
      refine ⟨h.outer, ?_, trivial, fun _ => List.cons_ne_nil _ _⟩
      show (State.tree ⟨outer, _ :: entries, .closed⟩).Fits outer.length
      rw [tree_cons]
      refine h.tree.append (Tree.fits_leaf hd ⟨h.phase.1, fun renamed hr => ?_⟩)
      cases hr
      exact h.phase.2
  | _ => exact h

/-! ## One move -/

/-- Behind a finished entry a comma is what separates it from the next one. -/
theorem consumed_comma {outer : List Level} {entries : List (Key × Selection)} (h : entries ≠ []) :
    consumed ⟨outer, entries, .start⟩ = consumed ⟨outer, entries, .closed⟩ ++ [.comma] := by
  obtain ⟨entry, entries, rfl⟩ := List.exists_cons_of_ne_nil h
  simp [consumed, phaseTokens, tree_cons, Tree.tokensBefore,
    Tree.isEmpty_ofEntries_append_singleton]

/-- A right brace ends the innermost block, which becomes the last entry outside of it. -/
theorem consumed_closing {level : Level} {outer : List Level} {entries : List (Key × Selection)} :
    consumed ⟨outer, (level.key, .nested (Tree.ofEntries entries.reverse)) :: level.before, .closed⟩ =
      consumed ⟨level :: outer, entries, .closed⟩ ++ [.closing] := by
  simp only [consumed, outerTokens, tree_cons, Tree.tokens_ofEntries_append_singleton]
  simp [tree, Tree.ofEntries, Tree.cons, Tree.tokens, Tree.separator, Tree.isEmpty]

/-- **Every move adds its token.** -/
theorem Moves.consumed (h : Moves state token next) (ho : state.InOrder) :
    next.consumed = state.consumed ++ [token] := by
  cases h with
  | firstLetter => simp [State.consumed, phaseTokens, tree, nameTokens]
  | letter => simp [State.consumed, phaseTokens, tree, nameTokens_nameOf_cons]
  | arrow => simp [State.consumed, phaseTokens, tree]
  | firstRenamedLetter => simp [State.consumed, phaseTokens, tree, nameTokens]
  | renamedLetter => simp [State.consumed, phaseTokens, tree, nameTokens_nameOf_cons]
  | colon => simp [State.consumed, phaseTokens, tree, Key.tokens]
  | renamedColon => simp [State.consumed, phaseTokens, tree, Key.tokens]
  | opening => simp [State.consumed, phaseTokens, tree]
  | emptyBlock =>
      simp only [State.consumed, phaseTokens, tree_cons, Tree.tokens_ofEntries_append_singleton]
      simp [tree, Tree.ofEntries, Tree.cons, Tree.tokens, Tree.separator, Tree.isEmpty]
  | block =>
      simp [State.consumed, outerTokens, phaseTokens, tree, nameTokens, Tree.ofEntries]
  | comma hc =>
      have hcomplete := hc ▸ ho.complete
      rw [consumed_comma (hcomplete.closed rfl), ← hc, consumed_complete]
  | closing hc => rw [consumed_closing, ← hc, consumed_complete]

/-- Only the phase changes, and the entry is not finished. -/
theorem InOrder.withPhase {outer : List Level} {entries : List (Key × Selection)}
    {phase phase' : Phase} (h : InOrder ⟨outer, entries, phase⟩) (hp : PhaseNamed phase')
    (hc : phase' ≠ .closed) : InOrder ⟨outer, entries, phase'⟩ :=
  ⟨h.outer, h.tree, hp, fun he => absurd he hc⟩

/-- **Every move keeps the state in order.** -/
theorem Moves.inOrder (h : Moves state token next) (ho : state.InOrder) : next.InOrder := by
  have hd := ho.depth_le
  cases h with
  | firstLetter hc => exact ho.withPhase (isName_nameOf_singleton hc) nofun
  | letter hc => exact ho.withPhase (isName_nameOf_cons ho.phase hc) nofun
  | arrow => exact ho.withPhase ho.phase nofun
  | firstRenamedLetter hc =>
      exact ho.withPhase ⟨ho.phase, isName_nameOf_singleton hc⟩ nofun
  | renamedLetter hc =>
      exact ho.withPhase ⟨ho.phase.1, isName_nameOf_cons ho.phase.2 hc⟩ nofun
  | colon => exact ho.withPhase ⟨ho.phase, fun _ hr => nomatch hr⟩ nofun
  | renamedColon =>
      refine ho.withPhase ⟨ho.phase.1, fun renamed hr => ?_⟩ nofun
      cases hr
      exact ho.phase.2
  | opening => exact ho.withPhase ho.phase nofun
  | @emptyBlock outer entries key =>
      refine ⟨ho.outer, ?_, trivial, fun _ => List.cons_ne_nil _ _⟩
      show (State.tree ⟨outer, _ :: entries, .closed⟩).Fits outer.length
      rw [tree_cons]
      exact ho.tree.append (Tree.fits_emptyBlock hd ho.phase)
  | @block outer entries key c hroom hc =>
      have hlt : outer.length < maxNesting := Nat.lt_of_le_of_ne hd hroom
      exact ⟨⟨⟨ho.tree, ho.phase, hlt⟩, ho.outer⟩, Tree.fits_nil hlt, isName_nameOf_singleton hc, nofun⟩
  | comma hc =>
      have hcomplete := hc ▸ ho.complete
      exact hcomplete.withPhase trivial nofun
  | @closing _ level outer entries hc =>
      have hcomplete := hc ▸ ho.complete
      obtain ⟨⟨hbefore, hkey, -⟩, houter⟩ := hcomplete.outer
      refine ⟨houter, ?_, trivial, fun _ => List.cons_ne_nil _ _⟩
      show (State.tree ⟨outer, _ :: level.before, .closed⟩).Fits outer.length
      rw [tree_cons]
      exact hbefore.append (hcomplete.tree.nested hkey)

/-! ## A whole run -/

/-- **Nothing is lost**: reading a row of tokens adds the row, and keeps the state in order. -/
theorem Reads.consumed {tokens : List Token} (h : Reads state tokens next) (ho : state.InOrder) :
    next.InOrder ∧ next.consumed = state.consumed ++ tokens := by
  induction h with
  | nil => exact ⟨ho, (List.append_nil _).symm⟩
  | cons hmove _ ih =>
      obtain ⟨hnext, hconsumed⟩ := ih (hmove.inOrder ho)
      refine ⟨hnext, ?_⟩
      rw [hconsumed, hmove.consumed ho, List.append_assoc]
      rfl

/-- **What is returned is what was read**: where the text may end, the tree of the entries can be written,
and its tokens are the tokens read from the start. -/
theorem Reads.tokens_tree {tokens : List Token} {entries : List (Key × Selection)}
    (h : Reads initial tokens state) (hc : state.complete = ⟨[], entries, .closed⟩) :
    (Tree.ofEntries entries.reverse).tokens = tokens ∧
      Tree.ofEntries entries.reverse ≠ .nil ∧ (Tree.ofEntries entries.reverse).Fits 0 := by
  obtain ⟨ho, hconsumed⟩ := h.consumed inOrder_initial
  have hcomplete : InOrder ⟨[], entries, .closed⟩ := hc ▸ ho.complete
  refine ⟨?_, fun he => ?_, hcomplete.tree⟩
  · rw [← consumed_complete, hc] at hconsumed
    exact hconsumed
  · have hnil : entries.reverse = [] := by
      rw [← Tree.entries_ofEntries entries.reverse, he, Tree.entries_nil]
    exact hcomplete.closed rfl (List.reverse_eq_nil_iff.mp hnil)

end Fragment.State

end JsonProjection
