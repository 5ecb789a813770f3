/-
# `JsonProjection.Proofs.Fragment.Viable` -- errors stand at the earliest place.

A text is refused at one token, or at its end.  The theorem of this module is that the place could not be
earlier and need not be later.  Not earlier: whatever the reader has taken in can be completed to an accepted
text, from every state and at every depth, since a name, an empty block and right braces are never refused
where they are needed (`exists_completion`).  Not later: no text that goes on as the refused one up to and
including the token is accepted, because the reader has no choice but to be in the same state there and to
refuse the same token.

A `-` is the one token that a longer text may change, into an arrow.  Where a `-` is refused, the arrow is
refused as well (`not_moves_arrow`).
-/
import JsonProjection.Proofs.Fragment.Boundary
import JsonProjection.Proofs.Fragment.Grammar

namespace JsonProjection.Fragment

open JsonProjection.SyntaxError (Cause)
open JsonProjection.Text (isWhitespace utf8Length withoutWhitespace)

namespace State

variable {state next : State} {token : Token}

/-! ## Runs that are refused -/

/-- A refused run takes the tokens before the place of the error and refuses the token that stands there. -/
theorem run_eq_error {located : List (Nat × Token)} {error : SyntaxError}
    (h : state.run located = .error error) :
    ∃ front token back middle, located = front ++ (error.offset, token) :: back ∧
      Reads state (front.map Prod.snd) middle ∧ middle.step token = .error error.cause := by
  induction located generalizing state with
  | nil => cases h
  | cons first located ih =>
      obtain ⟨offset, token⟩ := first
      rw [run] at h
      split at h
      case h_1 middle hstep =>
        obtain ⟨front, refused, back, last, rfl, hreads, herror⟩ := ih h
        exact ⟨(offset, token) :: front, refused, back, last, rfl,
          .cons (step_eq_ok_iff.mp hstep) hreads, herror⟩
      case h_2 cause hstep =>
        cases h
        exact ⟨[], token, located, state, rfl, .nil, hstep⟩

theorem not_moves_of_step_eq_error {cause : Cause} (h : state.step token = .error cause)
    (next : State) : ¬ Moves state token next := by
  intro hmoves
  have hok := step_eq_ok_iff.mpr hmoves
  rw [h] at hok
  cases hok

/-- **Where a `-` is refused, so is an arrow.** -/
theorem not_moves_arrow {cause : Cause} (h : state.step (.plain '-') = .error cause) (next : State) :
    ¬ Moves state .arrow next := by
  intro hmoves
  cases hmoves with
  | arrow => cases h

/-- The state behind a row of tokens is determined by the row. -/
theorem Moves.unique {next' : State} (h : Moves state token next) (h' : Moves state token next') :
    next = next' := by
  have hok := step_eq_ok_iff.mpr h
  rw [step_eq_ok_iff.mpr h'] at hok
  exact (Except.ok.inj hok).symm

/-- What is read of a row is read of its beginning first, and the state there is determined. -/
theorem Reads.rest {middle : State} {tokens more : List Token} (h : Reads state tokens middle)
    (hall : Reads state (tokens ++ more) next) : Reads middle more next := by
  induction h with
  | nil => exact hall
  | cons hmove _ ih =>
      cases hall with
      | cons hmove' hrest =>
          cases hmove.unique hmove'
          exact ih hrest

/-! ## Completions -/

/-- The tokens that finish the entry at hand: a name where one must start, and a block where one must
follow. -/
def finishing : Phase → List Token
  | .start => [.plain 'a']
  | .name _ => []
  | .renaming _ => [.plain 'a']
  | .renamed _ _ => []
  | .colon _ => [.opening, .closing]
  | .opened _ => [.closing]
  | .closed => []

/-- The entry at hand can be finished in every state.  There is room for it at every depth, since the block
that finishes it is empty. -/
theorem reads_finishing (state : State) :
    ∃ next entries, Reads state (finishing state.phase) next ∧
      next.complete = ⟨state.outer, entries, .closed⟩ := by
  have ha : isNameChar 'a' = true := by decide
  obtain ⟨outer, entries, phase⟩ := state
  cases phase with
  | start => exact ⟨_, _, .single (.firstLetter ha), rfl⟩
  | name newest => exact ⟨_, _, .nil, rfl⟩
  | «renaming» name => exact ⟨_, _, .single (.firstRenamedLetter ha), rfl⟩
  | renamed name newest => exact ⟨_, _, .nil, rfl⟩
  | colon key => exact ⟨_, _, .cons .opening (.single .emptyBlock), rfl⟩
  | opened key => exact ⟨_, _, .single .emptyBlock, rfl⟩
  | closed => exact ⟨_, _, .nil, rfl⟩

/-- Every open block can be closed behind a whole entry. -/
theorem reads_closings {outer : List Level} {entries : List (Key × Selection)}
    (h : state.complete = ⟨outer, entries, .closed⟩) :
    ∃ next entries', Reads state (List.replicate outer.length .closing) next ∧
      next.complete = ⟨[], entries', .closed⟩ := by
  induction outer generalizing state entries with
  | nil => exact ⟨state, entries, .nil, h⟩
  | cons level outer ih =>
      have hclosed : complete ⟨outer,
          (level.key, .nested (Tree.ofEntries entries.reverse)) :: level.before, .closed⟩ =
            ⟨outer, _, .closed⟩ := rfl
      obtain ⟨next, entries', hreads, hnext⟩ := ih hclosed
      exact ⟨next, entries', .cons (.closing h) hreads, hnext⟩

/-- **Every state can be completed**, by tokens that stand for themselves in a text. -/
theorem exists_completion (state : State) :
    ∃ tokens next entries, Legible tokens ∧ Reads state tokens next ∧
      next.complete = ⟨[], entries, .closed⟩ := by
  obtain ⟨middle, entries, hfinish, hmiddle⟩ := reads_finishing state
  obtain ⟨next, entries', hclose, hnext⟩ := reads_closings hmiddle
  refine ⟨_, next, entries', ?_, hfinish.append hclose, hnext⟩
  have hfinishing : Legible (finishing state.phase) := by
    intro c hc
    cases hphase : state.phase <;> simp_all [finishing]
    all_goals decide
  have hclosings : Legible (List.replicate state.outer.length .closing) := by
    intro c hc
    cases (List.mem_replicate.mp hc).2
  exact hfinishing.append hclosings

end State

/-! ## Texts that can be completed -/

/-- **A text is extendable** if an accepted text begins with it. -/
def Extendable (text : String) : Prop := ∃ more tree, Tree.compile (text ++ more) = .ok tree

/-- A text is accepted if the reader takes its tokens to a state in which it may end. -/
theorem exists_compile_eq_ok_iff {text : String} :
    (∃ tree, Tree.compile text = .ok tree) ↔
      ∃ state entries, State.Reads .initial (tokensOf text.toList) state ∧
        state.complete = ⟨[], entries, .closed⟩ := by
  constructor
  · rintro ⟨tree, h⟩
    obtain ⟨written, hread, -⟩ := Tree.compile_eq_ok_iff_read.mp h
    obtain ⟨state, entries, hreads, hc, -⟩ := read_eq_ok_iff_reads.mp hread
    exact ⟨state, entries, hreads, hc⟩
  · rintro ⟨state, entries, hreads, hc⟩
    have hread := read_eq_ok_iff_reads.mpr ⟨state, entries, hreads, hc, rfl⟩
    exact ⟨_, Tree.compile_eq_ok_iff_read.mpr ⟨_, hread, rfl⟩⟩

/-- **Not too early**: a text whose tokens are read is extendable. -/
theorem extendable_of_reads {cs : List Char} {state : State}
    (h : State.Reads .initial (tokensOf cs) state) : Extendable (String.ofList cs) := by
  obtain ⟨tokens, next, entries, hlegible, hreads, hc⟩ := state.exists_completion
  -- a completion does not begin with `>`, so it makes no arrow with what stands before it
  have htokens : tokensOf (cs ++ tokens.flatMap Token.chars) = tokensOf cs ++ tokens := by
    rw [tokensOf_append, tokensOf_eq_of_spelled hlegible hlegible.withoutWhitespace_chars]
    intro hhead
    rw [hlegible.withoutWhitespace_chars] at hhead
    exact absurd hhead hlegible.head?_chars_ne
  refine ⟨Token.text tokens, exists_compile_eq_ok_iff.mpr ⟨next, entries, ?_, hc⟩⟩
  rw [Token.text, ← String.ofList_append, String.toList_ofList, htokens]
  exact h.append hreads

/-- **Not too late**: no accepted text begins with a text in front of a token and the token, if the token is
refused behind that text. -/
theorem not_extendable_of_refused {before text after : List Char} {token : Token} {state : State}
    {cause : Cause} (hreads : State.Reads .initial (tokensOf before) state)
    (hrefused : state.step token = .error cause) (hfirst : FirstToken text after)
    (htoken : tokensOf text = [token])
    (hcut : (withoutWhitespace text).head? = some '>' →
      (withoutWhitespace before).getLast? ≠ some '-') :
    ¬ Extendable (String.ofList (before ++ text)) := by
  rintro ⟨more, haccepted⟩
  -- an accepted continuation is read from beginning to end, through the state before the token
  obtain ⟨next, entries, hall, -⟩ := exists_compile_eq_ok_iff.mp haccepted
  obtain ⟨first, rest, hmore, hsame⟩ := hfirst.tokensOf_append htoken more.toList
  -- the token is no whitespace, so the character at the cut is its own
  have htext : (withoutWhitespace (text ++ more.toList)).head? = (withoutWhitespace text).head? := by
    rw [Text.withoutWhitespace_append, List.head?_append]
    cases hhead : (withoutWhitespace text).head? with
    | some c => rfl
    | none =>
        rw [tokensOf_eq_tokenize, List.head?_eq_none_iff.mp hhead] at htoken
        cases htoken
  rw [String.toList_append, String.toList_ofList, List.append_assoc, tokensOf_append (htext ▸ hcut),
    hmore] at hall
  cases hreads.rest hall with
  | cons hmove _ =>
      rcases hsame with rfl | ⟨rfl, rfl⟩
      · exact State.not_moves_of_step_eq_error hrefused _ hmove
      · exact State.not_moves_arrow hrefused _ hmove

/-! ## The place of an error -/

/-- **Errors stand at the earliest place.** If a text is refused, then either the place is the end of the text
and the text can be completed; or the text is cut in three at the place of the error: what stands before it
can be completed, the place is that of a token, an arrow or one character that is no whitespace, and no
accepted text begins with what stands before it and the token. -/
theorem compile_eq_error (fragment : String) (error : SyntaxError)
    (h : Tree.compile fragment = .error error) :
    (error.offset = fragment.utf8ByteSize ∧ Extendable fragment) ∨
      ∃ before token after : String,
        fragment = before ++ token ++ after ∧
        error.offset = before.utf8ByteSize ∧
        FirstToken token.toList after.toList ∧
        Extendable before ∧
        ¬ Extendable (before ++ token) := by
  have hread : read fragment.toList = .error error := by
    rw [Tree.compile] at h
    cases hread : read fragment.toList with
    | error found => rwa [hread] at h
    | ok written =>
        rw [hread] at h
        cases h
  rw [read] at hread
  split at hread
  case h_1 found hrun =>
    cases hread
    obtain ⟨front, token, back, state, hlocate, hreads, hrefused⟩ := State.run_eq_error hrun
    obtain ⟨before, text, after, hcs, hoffset, hfirst, htoken, htokens, hcut⟩ :=
      locate_eq_append hlocate
    rw [← htokens] at hreads
    refine .inr ⟨String.ofList before, String.ofList text, String.ofList after, ?_, ?_, ?_, ?_, ?_⟩
    · rw [← String.ofList_append, ← String.ofList_append, List.append_assoc, ← hcs,
        String.ofList_toList]
    · rw [← Text.utf8Length_toList, String.toList_ofList, hoffset]
    · rwa [String.toList_ofList, String.toList_ofList]
    · exact extendable_of_reads hreads
    · rw [← String.ofList_append]
      exact not_extendable_of_refused hreads hrefused hfirst htoken hcut
  case h_2 state hrun =>
    split at hread
    case h_1 => cases hread
    case h_2 cause hfinish =>
      cases hread
      refine .inl ⟨Text.utf8Length_toList fragment, ?_⟩
      have hextendable := extendable_of_reads (State.run_eq_ok_iff.mp hrun)
      rwa [String.ofList_toList] at hextendable

/-- A second arrow, spelled with a space inside and behind a space of three bytes: the error stands at its
`-`. -/
theorem compile_eq_error_secondArrow :
    Tree.compile "a - > b\u3000- > c" = .error ⟨10, .repeatedArrow⟩ ∧
      ((10 = "a - > b\u3000- > c".utf8ByteSize ∧ Extendable "a - > b\u3000- > c") ∨
        ∃ before token after : String,
          "a - > b\u3000- > c" = before ++ token ++ after ∧
          10 = before.utf8ByteSize ∧
          FirstToken token.toList after.toList ∧
          Extendable before ∧
          ¬ Extendable (before ++ token)) := by
  have h : Tree.compile "a - > b\u3000- > c" = .error ⟨10, .repeatedArrow⟩ := rfl
  exact ⟨h, compile_eq_error _ _ h⟩

end JsonProjection.Fragment
