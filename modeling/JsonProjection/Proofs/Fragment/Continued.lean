/-
# `JsonProjection.Proofs.Fragment.Continued` -- what stands behind a fragment and a comma.

Behind an accepted fragment and a comma the reader starts an entry outside of all blocks, as it does at the
beginning of a text.  It differs from the beginning in two ways only.  It holds the finished entries of the
fragment, and it has come some bytes further.

The finished entries have no say in what is refused: that depends on the phase and on how many blocks are open,
the outline of a state (`outline_run`).  And the bytes only move the places (`run_later`).  So the text behind
the comma is refused exactly as it is refused by itself, for the same cause, so many bytes later; and where it is
accepted, its entries are inserted into those of the fragment (`compile_continued`).
-/
import JsonProjection.Proofs.Fragment.Joined

namespace JsonProjection

open JsonProjection.Fragment (Token)
open JsonProjection.SyntaxError (Cause)
open JsonProjection.Text (isWhitespace utf8Length)

/-! ## Places further on -/

/-- **A place further on**: what stood behind some bytes stands behind `bytes` more. -/
def Fragment.later {α : Type} (bytes : Nat) (place : Nat × α) : Nat × α := (bytes + place.1, place.2)

/-- An error in a place further on. -/
def SyntaxError.later (bytes : Nat) (error : SyntaxError) : SyntaxError :=
  ⟨bytes + error.offset, error.cause⟩

namespace Fragment

theorem visible_add (bytes offset : Nat) (cs : List Char) :
    visible (bytes + offset) cs = (visible offset cs).map (later bytes) := by
  induction cs generalizing offset with
  | nil => rfl
  | cons c cs ih =>
      rw [visible, visible, Nat.add_assoc, ih]
      split <;> rfl

theorem visible_append (offset : Nat) (cs ds : List Char) :
    visible offset (cs ++ ds) = visible offset cs ++ visible (offset + utf8Length cs) ds := by
  induction cs generalizing offset with
  | nil => rfl
  | cons c cs ih =>
      rw [List.cons_append, visible, visible, ih, Text.utf8Length_cons, Nat.add_assoc]
      split <;> rfl

theorem joinArrows_later (bytes : Nat) (located : List (Nat × Char)) :
    joinArrows (located.map (later bytes)) = (joinArrows located).map (later bytes) := by
  fun_induction joinArrows located with
  | case1 => rfl
  | case2 offset c => rfl
  | case3 offset c offset' c' rest h ih =>
      rw [List.map_cons, List.map_cons, List.map_cons, ← ih]
      exact if_pos h
  | case4 offset c offset' c' rest h ih =>
      show _ = later bytes (offset, .ofChar c) :: (joinArrows ((offset', c') :: rest)).map (later bytes)
      rw [← ih]
      exact if_neg h

/-- A comma is a token of its own, wherever it stands. -/
theorem joinArrows_append_comma (located more : List (Nat × Char)) (offset : Nat) :
    joinArrows (located ++ (offset, ',') :: more) =
      joinArrows located ++ (offset, .comma) :: joinArrows more := by
  have hcomma : joinArrows ((offset, ',') :: more) = (offset, .comma) :: joinArrows more := by
    cases more with
    | nil => rfl
    | cons next more => exact if_neg (by simp)
  fun_induction joinArrows located with
  | case1 => exact hcomma
  | case2 place c =>
      have hno : ¬ (c = '-' ∧ ',' = '>') := by simp
      rw [List.singleton_append, joinArrows, if_neg hno, hcomma, List.singleton_append]
  | case3 place c place' c' rest h ih =>
      rw [List.cons_append, List.cons_append, joinArrows, if_pos h, ih, List.cons_append]
  | case4 place c place' c' rest h ih =>
      rw [List.cons_append, List.cons_append, joinArrows, if_neg h, ← List.cons_append, ih,
        List.cons_append]

/-- **The tokens around a comma**: those of the text before it, and those of the text behind it, each so many
bytes later. -/
theorem locate_append_comma (cs ds : List Char) :
    locate (cs ++ ',' :: ds) =
      locate cs ++ (utf8Length cs, .comma) :: (locate ds).map (later (utf8Length cs + 1)) := by
  have hcomma : visible (utf8Length cs) (',' :: ds) =
      (utf8Length cs, ',') :: visible (utf8Length cs + 1) ds := rfl
  rw [locate, visible_append, Nat.zero_add, hcomma, joinArrows_append_comma,
    ← Nat.add_zero (utf8Length cs + 1), visible_add, joinArrows_later]
  rfl

namespace State

variable {state state' : State}

/-! ## Runs further on -/

theorem run_append (state : State) (located more : List (Nat × Token)) :
    state.run (located ++ more) = (state.run located).bind fun next => next.run more := by
  induction located generalizing state with
  | nil => rfl
  | cons place located ih =>
      obtain ⟨offset, token⟩ := place
      rw [List.cons_append, run, run]
      cases state.step token with
      | error cause => rfl
      | ok next => exact ih next

/-- **A run further on** is the same run, its error further on. -/
theorem run_later (bytes : Nat) (state : State) (located : List (Nat × Token)) :
    state.run (located.map (later bytes)) =
      (state.run located).mapError (SyntaxError.later bytes) := by
  induction located generalizing state with
  | nil => rfl
  | cons place located ih =>
      obtain ⟨offset, token⟩ := place
      rw [List.map_cons, later, run, run]
      cases state.step token with
      | error cause => rfl
      | ok next => exact ih next

/-! ## What decides about a refusal -/

section Outcomes

variable {ε α β : Type} {x : Except ε α} {y : Except ε β} {γ : Type} {f : α → γ} {g : β → γ}
  (h : x.map f = y.map g)
include h

theorem eq_error_of_map_eq {error : ε} (hx : x = .error error) : y = .error error := by
  subst hx
  cases y with
  | error found => exact congrArg Except.error (Except.error.inj h).symm
  | ok b => cases h

theorem exists_eq_ok_of_map_eq {a : α} (hx : x = .ok a) : ∃ b, y = .ok b ∧ f a = g b := by
  subst hx
  cases y with
  | error found => cases h
  | ok b => exact ⟨b, rfl, Except.ok.inj h⟩

end Outcomes

/-- **The outline of a state**: the phase, and the number of open blocks. -/
def outline (state : State) : Phase × Nat := (state.phase, state.outer.length)

theorem outline_stepStart (h : state.outer.length = state'.outer.length) (token : Token) :
    (state.stepStart token).map outline = (state'.stepStart token).map outline := by
  cases token with
  | plain c =>
      simp only [stepStart]
      split
      · exact congrArg (fun depth => Except.ok (Phase.name [c], depth)) h
      · rfl
  | _ => rfl

theorem outline_stepComplete (h : state.outer.length = state'.outer.length) (token : Token) :
    (state.stepComplete token).map outline = (state'.stepComplete token).map outline := by
  cases token with
  | comma => exact congrArg (fun depth => Except.ok (Phase.start, depth)) h
  | closing =>
      obtain ⟨outer, entries, phase⟩ := state
      obtain ⟨outer', entries', phase'⟩ := state'
      cases outer with
      | nil =>
          obtain rfl : outer' = [] := List.eq_nil_of_length_eq_zero h.symm
          rfl
      | cons level outer =>
          cases outer' with
          | nil => cases h
          | cons level' outer' =>
              exact congrArg (fun depth => Except.ok (Phase.closed, depth)) (Nat.succ.inj h)
  | _ => rfl

/-- **One token** is refused, or changes the outline, as the outline says. -/
theorem outline_step (h : state.outline = state'.outline) (token : Token) :
    (state.step token).map outline = (state'.step token).map outline := by
  obtain ⟨outer, entries, phase⟩ := state
  obtain ⟨outer', entries', phase'⟩ := state'
  obtain ⟨rfl, hdepth⟩ : phase = phase' ∧ outer.length = outer'.length := Prod.ext_iff.mp h
  have hphase : ∀ next : Phase, (Except.ok ⟨outer, entries, next⟩ : Except Cause State).map outline =
      (Except.ok ⟨outer', entries', next⟩ : Except Cause State).map outline :=
    fun next => congrArg (fun depth => Except.ok (next, depth)) hdepth
  have hletter : ∀ (c : Char) (next : Phase) (cause : Cause),
      (if isNameChar c then Except.ok ⟨outer, entries, next⟩ else Except.error cause).map outline =
        (if isNameChar c then Except.ok ⟨outer', entries', next⟩ else Except.error cause).map
          outline := by
    intro c next cause
    split
    · exact hphase next
    · rfl
  have hcomplete : ∀ token : Token,
      ((complete ⟨outer, entries, phase⟩).stepComplete token).map outline =
        ((complete ⟨outer', entries', phase⟩).stepComplete token).map outline := by
    intro token
    refine outline_stepComplete ?_ token
    cases phase <;> exact hdepth
  cases phase with
  | start => exact outline_stepStart hdepth token
  | closed => exact hcomplete token
  | name newest =>
      cases token with
      | plain c => exact hletter c _ _
      | arrow | colon => exact hphase _
      | opening => rfl
      | comma => exact hcomplete .comma
      | closing => exact hcomplete .closing
  | «renaming» name =>
      cases token with
      | plain c => exact hletter c _ _
      | _ => rfl
  | renamed name newest =>
      cases token with
      | plain c => exact hletter c _ _
      | arrow | opening => rfl
      | colon => exact hphase _
      | comma => exact hcomplete .comma
      | closing => exact hcomplete .closing
  | colon key =>
      cases token with
      | opening => exact hphase _
      | _ => rfl
  | opened key =>
      -- the token is looked at inside the block, if there is room for it
      have hinside : ∀ token : Token,
          (if outer.length = maxNesting then .error .nestedTooDeeply
            else stepStart ⟨⟨entries, key⟩ :: outer, [], .start⟩ token).map outline =
          (if outer'.length = maxNesting then .error .nestedTooDeeply
            else stepStart ⟨⟨entries', key⟩ :: outer', [], .start⟩ token).map outline := by
        intro token
        rw [hdepth]
        split
        · rfl
        · refine outline_stepStart ?_ token
          exact congrArg Nat.succ hdepth
      cases token with
      | closing => exact hphase _
      | _ => exact hinside _

/-- **A whole run** is refused, or ends in an outline, as the outline at its beginning says. -/
theorem outline_run (h : state.outline = state'.outline) (located : List (Nat × Token)) :
    (state.run located).map outline = (state'.run located).map outline := by
  induction located generalizing state state' with
  | nil => exact congrArg Except.ok h
  | cons place located ih =>
      obtain ⟨offset, token⟩ := place
      have hstep := outline_step h token
      rw [run, run]
      cases hnext : state.step token with
      | error cause =>
          rw [eq_error_of_map_eq hstep hnext]
      | ok next =>
          obtain ⟨next', hnext', hsame⟩ := exists_eq_ok_of_map_eq hstep hnext
          rw [hnext']
          exact ih hsame

/-- The end of the text is refused as the outline says. -/
theorem finish_eq_error_of_outline (h : state.outline = state'.outline) {cause : Cause}
    (hfinish : state.finish = .error cause) : state'.finish = .error cause := by
  obtain ⟨outer, entries, phase⟩ := state
  obtain ⟨outer', entries', phase'⟩ := state'
  obtain ⟨rfl, hdepth⟩ : phase = phase' ∧ outer.length = outer'.length := Prod.ext_iff.mp h
  have hdepth : outer.length = outer'.length := hdepth
  cases phase with
  | opened key =>
      simp only [finish] at hfinish ⊢
      rwa [← hdepth]
  | start | «renaming» _ | colon _ => exact hfinish
  | name _ | renamed _ _ | closed =>
      cases outer with
      | nil => cases hfinish
      | cons level outer =>
          cases outer' with
          | nil => cases hdepth
          | cons level' outer' => exact hfinish

/-! ## Reading on -/

/-- **Reading on** from a state: the tokens that follow, and then the end of the text, `size` bytes behind its
beginning. -/
def readOn (state : State) (located : List (Nat × Token)) (size : Nat) : Except SyntaxError Tree :=
  (state.run located).bind fun next => next.finish.mapError (SyntaxError.mk size)

theorem readOn_append {located : List (Nat × Token)} (h : state.run located = .ok state')
    (more : List (Nat × Token)) (size : Nat) :
    state.readOn (located ++ more) size = state'.readOn more size := by
  rw [readOn, run_append, h]
  rfl

theorem readOn_later (bytes : Nat) (state : State) (located : List (Nat × Token)) (size : Nat) :
    state.readOn (located.map (later bytes)) (bytes + size) =
      (state.readOn located size).mapError (SyntaxError.later bytes) := by
  rw [readOn, readOn, run_later]
  cases state.run located with
  | error error => rfl
  | ok next =>
      show next.finish.mapError _ = (next.finish.mapError _).mapError _
      cases next.finish <;> rfl

/-- What is refused is refused as the outline says, in the same place and for the same cause. -/
theorem readOn_eq_error_of_outline (h : state.outline = state'.outline)
    {located : List (Nat × Token)} {size : Nat} {error : SyntaxError}
    (hread : state.readOn located size = .error error) :
    state'.readOn located size = .error error := by
  have hsame := outline_run h located
  rw [readOn] at hread ⊢
  cases hrun : state.run located with
  | error found =>
      rw [eq_error_of_map_eq hsame hrun]
      rwa [hrun] at hread
  | ok next =>
      obtain ⟨next', hrun', hnext⟩ := exists_eq_ok_of_map_eq hsame hrun
      rw [hrun] at hread
      rw [hrun']
      have hread : next.finish.mapError (SyntaxError.mk size) = .error error := hread
      show next'.finish.mapError (SyntaxError.mk size) = .error error
      cases hfinish : next.finish with
      | ok tree =>
          rw [hfinish] at hread
          cases hread
      | error cause => rwa [finish_eq_error_of_outline hnext hfinish, ← hfinish]

end State

theorem read_eq_readOn (cs : List Char) :
    read cs = State.initial.readOn (locate cs) (utf8Length cs) := by
  rw [read, State.readOn]
  cases State.initial.run (locate cs) with
  | error error => rfl
  | ok state =>
      show _ = state.finish.mapError _
      cases hfinish : state.finish <;> simp only [hfinish] <;> rfl

/-- **Behind a fragment and a comma** a text is refused as it is refused by itself, so many bytes later. -/
theorem read_continued {cs ds : List Char} {written : Tree} (h : read cs = .ok written)
    {error : SyntaxError} (herror : read ds = .error error) :
    read (cs ++ ',' :: ds) = .error (error.later (utf8Length cs + 1)) := by
  obtain ⟨state, entries, hreads, hc, -⟩ := read_eq_ok_iff_reads.mp h
  let next : State := ⟨[], entries, .start⟩
  have hcomma : State.Reads .initial ((locate cs ++ [(utf8Length cs, Token.comma)]).map Prod.snd) next := by
    rw [List.map_append]
    exact hreads.append (.single (.comma hc))
  have hsize : utf8Length (cs ++ ',' :: ds) = utf8Length cs + 1 + utf8Length ds := by
    rw [Text.utf8Length_append, Text.utf8Length_cons, ← Nat.add_assoc]
    rfl
  rw [read_eq_readOn] at herror
  -- no block is open behind the comma, as at the beginning
  have houtline : State.initial.outline = next.outline := rfl
  have hnext : next.readOn (locate ds) (utf8Length ds) = .error error :=
    State.readOn_eq_error_of_outline houtline herror
  calc read (cs ++ ',' :: ds)
      = State.initial.readOn (locate cs ++ [(utf8Length cs, Token.comma)] ++
          (locate ds).map (later (utf8Length cs + 1))) (utf8Length cs + 1 + utf8Length ds) := by
        rw [read_eq_readOn, locate_append_comma, hsize, List.append_assoc, List.singleton_append]
    _ = next.readOn ((locate ds).map (later (utf8Length cs + 1)))
          (utf8Length cs + 1 + utf8Length ds) :=
        State.readOn_append (State.run_eq_ok_iff.mpr hcomma) _ _
    _ = (next.readOn (locate ds) (utf8Length ds)).mapError (SyntaxError.later (utf8Length cs + 1)) :=
        State.readOn_later _ _ _ _
    _ = .error (error.later (utf8Length cs + 1)) := by
        rw [hnext]
        rfl

end Fragment

/-- **Compiling a text behind a fragment and a comma.**  Where the text compiles by itself, its entries are
inserted in order into the tree of the fragment; where it is refused, the whole is refused for the same cause, in
the place that lies behind the fragment and the comma. -/
theorem Tree.compile_continued {fragment : String} {tree : Tree} (h : compile fragment = .ok tree)
    (more : String) :
    (∀ other, compile more = .ok other →
        compile (fragment ++ "," ++ more) = .ok (tree.merge other)) ∧
      ∀ error, compile more = .error error →
        compile (fragment ++ "," ++ more) =
          .error ⟨fragment.utf8ByteSize + 1 + error.offset, error.cause⟩ := by
  refine ⟨fun other ho => compile_joined h ho, fun error herror => ?_⟩
  obtain ⟨written, hread, -⟩ := compile_eq_ok_iff_read.mp h
  have htext : (fragment ++ "," ++ more).toList = fragment.toList ++ ',' :: more.toList := by
    rw [String.toList_append, String.toList_append, List.append_assoc]
    rfl
  rw [compile_eq_error_iff_read] at herror ⊢
  rw [htext, Fragment.read_continued hread herror, SyntaxError.later, Text.utf8Length_toList]

/-- A fragment that ends in a hyphen and a space, and behind the comma a key that it has already; then the same
with a text that ends inside a block, behind a space of three bytes. -/
theorem Tree.compile_continued_hyphen :
    let tree := Tree.leaf ⟨"b", none⟩ (.leaf ⟨"a-", none⟩ .nil)
    let block := Tree.leaf ⟨"x", none⟩ .nil
    compile "b, a- " = .ok tree ∧
      (compile ">" = .error ⟨0, .expectedName (some '>')⟩ ∧
        compile "b, a- ,>" = .error ⟨7, .expectedName (some '>')⟩) ∧
      (compile "b:\x7b\u3000x" = .error ⟨7, .unclosedBlock⟩ ∧
        compile "b, a- ,b:\x7b\u3000x" = .error ⟨14, .unclosedBlock⟩) ∧
      compile "b:\x7bx\x7d,c" = .ok (.nested ⟨"b", none⟩ block (.leaf ⟨"c", none⟩ .nil)) ∧
      compile "b, a- ,b:\x7bx\x7d,c" =
        .ok (.nested ⟨"b", none⟩ block (.leaf ⟨"a-", none⟩ (.leaf ⟨"c", none⟩ .nil))) := by
  intro tree block
  have h : compile "b, a- " = .ok tree := rfl
  have harrow : compile ">" = .error ⟨0, .expectedName (some '>')⟩ := rfl
  have hopen : compile "b:\x7b\u3000x" = .error ⟨7, .unclosedBlock⟩ := rfl
  have hmore : compile "b:\x7bx\x7d,c" = .ok (.nested ⟨"b", none⟩ block (.leaf ⟨"c", none⟩ .nil)) := rfl
  exact ⟨h, ⟨harrow, (compile_continued h ">").2 _ harrow⟩,
    ⟨hopen, (compile_continued h "b:\x7b\u3000x").2 _ hopen⟩, hmore,
    (compile_continued h "b:\x7bx\x7d,c").1 _ hmore⟩

end JsonProjection
