/-
# `JsonProjection.Proofs.Fragment.Transition` -- the moves of the reader.

`step` says of every state and token what happens, the refusals included.  `Moves` lists what is accepted,
one constructor for each kind of move, and `step_eq_ok_iff` says that the list is exact.  The other modules
on the reader argue about moves only: a statement about every accepted text is a case for each constructor,
and a text is shown to be accepted by putting moves together (`Reads`).

A comma or a right brace ends the entry before it.  Both moves are therefore stated for every state in
which an entry may end, that is, whose completion is closed.
-/
import JsonProjection.Fragment.Reader

namespace JsonProjection.Fragment

open JsonProjection.SyntaxError (Cause)

namespace State

/-! ## Moves -/

/-- **What the reader accepts**: the state, the token, and the state after it. -/
inductive Moves : State → Token → State → Prop
  /-- an entry starts with a name -/
  | firstLetter {outer : List Level} {entries : List (Key × Selection)} {c : Char} :
      isNameChar c = true →
      Moves ⟨outer, entries, .start⟩ (.plain c) ⟨outer, entries, .name [c]⟩
  /-- the name goes on -/
  | letter {outer : List Level} {entries : List (Key × Selection)} {newest : List Char} {c : Char} :
      isNameChar c = true →
      Moves ⟨outer, entries, .name newest⟩ (.plain c) ⟨outer, entries, .name (c :: newest)⟩
  /-- an arrow after the name -/
  | arrow {outer : List Level} {entries : List (Key × Selection)} {newest : List Char} :
      Moves ⟨outer, entries, .name newest⟩ .arrow ⟨outer, entries, .renaming (nameOf newest)⟩
  /-- a second name after the arrow -/
  | firstRenamedLetter {outer : List Level} {entries : List (Key × Selection)} {name : String}
      {c : Char} :
      isNameChar c = true →
      Moves ⟨outer, entries, .renaming name⟩ (.plain c) ⟨outer, entries, .renamed name [c]⟩
  /-- the second name goes on -/
  | renamedLetter {outer : List Level} {entries : List (Key × Selection)} {name : String}
      {newest : List Char} {c : Char} :
      isNameChar c = true →
      Moves ⟨outer, entries, .renamed name newest⟩ (.plain c)
        ⟨outer, entries, .renamed name (c :: newest)⟩
  /-- a colon after a name -/
  | colon {outer : List Level} {entries : List (Key × Selection)} {newest : List Char} :
      Moves ⟨outer, entries, .name newest⟩ .colon ⟨outer, entries, .colon ⟨nameOf newest, none⟩⟩
  /-- a colon after a second name -/
  | renamedColon {outer : List Level} {entries : List (Key × Selection)} {name : String}
      {newest : List Char} :
      Moves ⟨outer, entries, .renamed name newest⟩ .colon
        ⟨outer, entries, .colon ⟨name, some (nameOf newest)⟩⟩
  /-- a left brace after the colon -/
  | opening {outer : List Level} {entries : List (Key × Selection)} {key : Key} :
      Moves ⟨outer, entries, .colon key⟩ .opening ⟨outer, entries, .opened key⟩
  /-- the block is empty -/
  | emptyBlock {outer : List Level} {entries : List (Key × Selection)} {key : Key} :
      Moves ⟨outer, entries, .opened key⟩ .closing
        ⟨outer, (key, .nested .nil) :: entries, .closed⟩
  /-- the block starts with a name; there must be room for one more level -/
  | block {outer : List Level} {entries : List (Key × Selection)} {key : Key} {c : Char} :
      outer.length ≠ maxNesting → isNameChar c = true →
      Moves ⟨outer, entries, .opened key⟩ (.plain c) ⟨⟨entries, key⟩ :: outer, [], .name [c]⟩
  /-- a comma after an entry -/
  | comma {state : State} {outer : List Level} {entries : List (Key × Selection)} :
      state.complete = ⟨outer, entries, .closed⟩ →
      Moves state .comma ⟨outer, entries, .start⟩
  /-- a right brace after the last entry of a block -/
  | closing {state : State} {level : Level} {outer : List Level}
      {entries : List (Key × Selection)} :
      state.complete = ⟨level :: outer, entries, .closed⟩ →
      Moves state .closing
        ⟨outer, (level.key, .nested (Tree.ofEntries entries.reverse)) :: level.before, .closed⟩

variable {state next : State} {token : Token}

theorem of_ite_eq_ok {p : Prop} [Decidable p] {cause : Cause}
    (h : (if p then .ok state else .error cause) = (.ok next : Except Cause State)) :
    p ∧ state = next := by
  split at h
  case isTrue hp =>
    cases h
    exact ⟨hp, rfl⟩
  case isFalse => cases h

theorem moves_of_stepStart {outer : List Level} {entries : List (Key × Selection)} {phase : Phase}
    (h : stepStart ⟨outer, entries, phase⟩ token = .ok next) :
    Moves ⟨outer, entries, .start⟩ token next := by
  cases token with
  | plain c =>
      obtain ⟨hc, rfl⟩ := of_ite_eq_ok h
      exact .firstLetter hc
  | _ => cases h

theorem moves_of_stepComplete {outer : List Level} {entries : List (Key × Selection)}
    (hc : state.complete = ⟨outer, entries, .closed⟩)
    (h : stepComplete ⟨outer, entries, .closed⟩ token = .ok next) : Moves state token next := by
  cases token with
  | comma =>
      cases h
      exact .comma hc
  | closing =>
      cases outer with
      | nil => cases h
      | cons level outer =>
          cases h
          exact .closing hc
  | _ => cases h

theorem moves_of_step (h : state.step token = .ok next) : Moves state token next := by
  obtain ⟨outer, entries, phase⟩ := state
  cases phase with
  | start => exact moves_of_stepStart h
  | name newest =>
      cases token with
      | plain c =>
          obtain ⟨hc, rfl⟩ := of_ite_eq_ok h
          exact .letter hc
      | arrow =>
          cases h
          exact .arrow
      | colon =>
          cases h
          exact .colon
      | _ => exact moves_of_stepComplete rfl h
  | «renaming» name =>
      cases token with
      | plain c =>
          obtain ⟨hc, rfl⟩ := of_ite_eq_ok h
          exact .firstRenamedLetter hc
      | _ => cases h
  | renamed name newest =>
      cases token with
      | plain c =>
          obtain ⟨hc, rfl⟩ := of_ite_eq_ok h
          exact .renamedLetter hc
      | arrow => cases h
      | colon =>
          cases h
          exact .renamedColon
      | _ => exact moves_of_stepComplete rfl h
  | colon key =>
      cases token with
      | opening =>
          cases h
          exact .opening
      | _ => cases h
  | opened key =>
      cases token with
      | closing =>
          cases h
          exact .emptyBlock
      | plain c =>
          simp only [step] at h
          split at h
          case isTrue => cases h
          case isFalse hroom =>
            -- only the first letter of a name starts a block
            obtain ⟨hc, rfl⟩ := of_ite_eq_ok h
            exact .block hroom hc
      | _ =>
          simp only [step] at h
          split at h <;> cases h
  | closed => exact moves_of_stepComplete rfl h

/-- Where an entry may end, a comma and a right brace are taken as after the whole entry. -/
theorem step_of_complete {outer : List Level} {entries : List (Key × Selection)}
    (hc : state.complete = ⟨outer, entries, .closed⟩) (ht : token = .comma ∨ token = .closing) :
    state.step token = stepComplete ⟨outer, entries, .closed⟩ token := by
  rw [← hc]
  obtain ⟨outer', entries', phase⟩ := state
  cases phase with
  | name newest => rcases ht with rfl | rfl <;> rfl
  | renamed name newest => rcases ht with rfl | rfl <;> rfl
  | closed => rfl
  | _ => cases hc

theorem step_of_moves (h : Moves state token next) : state.step token = .ok next := by
  cases h with
  | firstLetter hc => exact if_pos hc
  | letter hc => exact if_pos hc
  | arrow => rfl
  | firstRenamedLetter hc => exact if_pos hc
  | renamedLetter hc => exact if_pos hc
  | colon => rfl
  | renamedColon => rfl
  | opening => rfl
  | emptyBlock => rfl
  | block hroom hc => exact (if_neg hroom).trans (if_pos hc)
  | comma hc => rw [step_of_complete hc (.inl rfl), stepComplete]
  | closing hc => rw [step_of_complete hc (.inr rfl), stepComplete, tree]

/-- **The moves are exactly the steps that are accepted.** -/
theorem step_eq_ok_iff : state.step token = .ok next ↔ Moves state token next :=
  ⟨moves_of_step, step_of_moves⟩

/-- The text may end exactly where an entry of the outermost level may end. -/
theorem finish_eq_ok_iff {tree : Tree} :
    state.finish = .ok tree ↔
      ∃ entries, state.complete = ⟨[], entries, .closed⟩ ∧
        tree = Tree.ofEntries entries.reverse := by
  obtain ⟨outer, entries, phase⟩ := state
  cases phase with
  | opened key =>
      constructor
      · intro h
        simp only [finish] at h
        split at h <;> cases h
      · rintro ⟨_, hc, _⟩
        cases hc
  | _ => cases outer <;> simp [finish, complete, State.tree, eq_comm]

/-! ## Reading a row of tokens -/

/-- **The reader takes a row of tokens** from one state to another, move by move. -/
inductive Reads : State → List Token → State → Prop
  | nil {state : State} : Reads state [] state
  | cons {state middle next : State} {token : Token} {tokens : List Token} :
      Moves state token middle → Reads middle tokens next → Reads state (token :: tokens) next

theorem Reads.single (h : Moves state token next) : Reads state [token] next := .cons h .nil

theorem Reads.append {middle : State} {tokens more : List Token} (h : Reads state tokens middle)
    (hm : Reads middle more next) : Reads state (tokens ++ more) next := by
  induction h with
  | nil => exact hm
  | cons hmove _ ih => exact .cons hmove (ih hm)

/-- A row that is read is read in two parts. -/
theorem Reads.split {front back : List Token} (h : Reads state (front ++ back) next) :
    ∃ middle, Reads state front middle ∧ Reads middle back next := by
  induction front generalizing state with
  | nil => exact ⟨state, .nil, h⟩
  | cons token front ih =>
      cases h with
      | cons hmove hrest =>
          obtain ⟨middle, hfront, hback⟩ := ih hrest
          exact ⟨middle, .cons hmove hfront, hback⟩

/-- A run that is not refused reads the tokens, whatever their places are. -/
theorem run_eq_ok_iff {located : List (Nat × Token)} :
    state.run located = .ok next ↔ Reads state (located.map Prod.snd) next := by
  induction located generalizing state with
  | nil =>
      constructor
      · rintro ⟨⟩
        exact .nil
      · rintro ⟨⟩
        rfl
  | cons place located ih =>
      obtain ⟨offset, token⟩ := place
      rw [run, List.map_cons]
      constructor
      · intro h
        split at h
        case h_1 middle hstep => exact .cons (step_eq_ok_iff.mp hstep) (ih.mp h)
        case h_2 => cases h
      · intro h
        cases h with
        | cons hmove hreads =>
            rw [step_eq_ok_iff.mpr hmove]
            exact ih.mpr hreads

end State

end JsonProjection.Fragment
