/-
# `JsonProjection.Proofs.Fragment.Respaced` -- whitespace does not matter.

The reader sees the tokens of a text and their places.  The tokens are those of the characters that are no
whitespace, so texts in which these characters are the same have the same tokens, in other places.  What is read,
and what is refused and why, goes by the tokens alone.  The place of an error goes by the token that is refused,
or it is the end of the text (`read_eq_error_iff`); and a token stands where its first character does.  So the
errors of two such texts stand at the same character, counted without whitespace, or at the end of both
(`compile_respaced`).
-/
import JsonProjection.Proofs.Fragment.Continued
import JsonProjection.Proofs.Fragment.Viable

namespace JsonProjection.Fragment

open JsonProjection.Text (isWhitespace utf8Length withoutWhitespace)

/-! ## Refusals -/

/-- **A text is refused** at a token, behind tokens that were read, or at its end. -/
theorem read_eq_error_iff {cs : List Char} {error : SyntaxError} :
    read cs = .error error ↔
      (∃ front token back state, locate cs = front ++ (error.offset, token) :: back ∧
          State.Reads .initial (front.map Prod.snd) state ∧
          state.step token = .error error.cause) ∨
        error.offset = utf8Length cs ∧
          ∃ state, State.Reads .initial (tokensOf cs) state ∧ state.finish = .error error.cause := by
  rw [read_eq_readOn, State.readOn]
  constructor
  · intro h
    cases hrun : State.initial.run (locate cs) with
    | error found =>
        rw [hrun] at h
        cases h
        exact .inl (State.run_eq_error hrun)
    | ok state =>
        rw [hrun] at h
        have h : state.finish.mapError (SyntaxError.mk (utf8Length cs)) = .error error := h
        cases hfinish : state.finish with
        | ok tree =>
            rw [hfinish] at h
            cases h
        | error cause =>
            rw [hfinish] at h
            cases h
            exact .inr ⟨rfl, state, State.run_eq_ok_iff.mp hrun, hfinish⟩
  · obtain ⟨offset, cause⟩ := error
    rintro (⟨front, token, back, state, hlocate, hreads, hstep⟩ | ⟨rfl, state, hreads, hfinish⟩)
    · have hrefused : state.run ((offset, token) :: back) = .error ⟨offset, cause⟩ := by
        rw [State.run, hstep]
      rw [hlocate, State.run_append, State.run_eq_ok_iff.mpr hreads]
      show (state.run ((offset, token) :: back)).bind _ = _
      rw [hrefused]
      rfl
    · rw [State.run_eq_ok_iff.mpr hreads]
      show state.finish.mapError _ = _
      rw [hfinish]
      rfl

/-! ## Places counted without whitespace -/

/-- **A visible character**: a character that is no whitespace stands in the text behind `index` others, whitespace
not counted, and behind `offset` bytes. -/
def VisibleAt (text : String) (index offset : Nat) : Prop :=
  ∃ before c after, text.toList = before ++ c :: after ∧ isWhitespace c = false ∧
    (withoutWhitespace before).length = index ∧ utf8Length before = offset

/-- A token stands where its first character does, behind the characters of the tokens before it. -/
theorem visibleAt_of_locate {text : String} {front back : List (Nat × Token)} {offset : Nat}
    {token : Token} (h : locate text.toList = front ++ (offset, token) :: back) :
    VisibleAt text ((front.map Prod.snd).flatMap Token.chars).length offset := by
  obtain ⟨before, spelled, after, htext, hoffset, hfirst, -, hbefore, -⟩ := locate_eq_append h
  have hindex : withoutWhitespace before = (front.map Prod.snd).flatMap Token.chars := by
    rw [← hbefore, flatMap_chars_tokensOf]
  rw [← hindex]
  cases hfirst with
  | @arrow gap _ _ => exact ⟨before, '-', gap ++ ['>'] ++ after, htext, by decide, rfl, hoffset.symm⟩
  | @single c _ hc => exact ⟨before, c, after, htext, hc, rfl, hoffset.symm⟩

/-! ## Two texts -/

section Respaced

variable {cs ds : List Char} (h : withoutWhitespace cs = withoutWhitespace ds)
include h

theorem tokensOf_respaced : tokensOf cs = tokensOf ds := by
  rw [tokensOf_eq_tokenize, tokensOf_eq_tokenize, h]

theorem read_respaced_eq_ok {tree : Tree} (hread : read cs = .ok tree) : read ds = .ok tree := by
  rw [read_eq_ok_iff] at hread ⊢
  rwa [← h]

/-- A token of one text stands in the other behind the same tokens. -/
theorem locate_respaced {front back : List (Nat × Token)} {offset : Nat} {token : Token}
    (hlocate : locate cs = front ++ (offset, token) :: back) :
    ∃ front' offset' back', locate ds = front' ++ (offset', token) :: back' ∧
      front'.map Prod.snd = front.map Prod.snd := by
  have htokens : (locate ds).map Prod.snd = front.map Prod.snd ++ token :: back.map Prod.snd := by
    have hsame := tokensOf_respaced h
    rw [tokensOf, tokensOf, hlocate, List.map_append, List.map_cons] at hsame
    exact hsame.symm
  obtain ⟨front', more, hds, hfront, hmore⟩ := List.map_eq_append_iff.mp htokens
  obtain ⟨⟨offset', token'⟩, back', rfl, rfl, -⟩ := List.map_eq_cons_iff.mp hmore
  exact ⟨front', offset', back', hds, hfront⟩

end Respaced

/-- **Whitespace does not matter.**  If two texts are the same but for whitespace, both compile to the same tree; or
both are refused for the same cause, and the errors stand at the end of both texts, or at the same character of
both, whitespace not counted. -/
theorem compile_respaced {fragment other : String}
    (h : withoutWhitespace fragment.toList = withoutWhitespace other.toList) :
    (∃ tree, Tree.compile fragment = .ok tree ∧ Tree.compile other = .ok tree) ∨
      ∃ error error', Tree.compile fragment = .error error ∧ Tree.compile other = .error error' ∧
        error.cause = error'.cause ∧
        (error.offset = fragment.utf8ByteSize ∧ error'.offset = other.utf8ByteSize ∨
          ∃ index, VisibleAt fragment index error.offset ∧ VisibleAt other index error'.offset) := by
  cases hcompile : Tree.compile fragment with
  | ok tree =>
      obtain ⟨written, hread, rfl⟩ := Tree.compile_eq_ok_iff_read.mp hcompile
      exact .inl ⟨_, rfl, Tree.compile_eq_ok_iff_read.mpr ⟨written, read_respaced_eq_ok h hread, rfl⟩⟩
  | error error =>
      rcases read_eq_error_iff.mp (Tree.compile_eq_error_iff_read.mp hcompile) with
        ⟨front, token, back, state, hlocate, hreads, hstep⟩ | ⟨hoffset, state, hreads, hfinish⟩
      · obtain ⟨front', offset', back', hlocate', hfront⟩ := locate_respaced h hlocate
        have hvisible := visibleAt_of_locate hlocate'
        rw [hfront] at hvisible
        rw [← hfront] at hreads
        have hread : read other.toList = .error ⟨offset', error.cause⟩ :=
          read_eq_error_iff.mpr (.inl ⟨front', token, back', state, hlocate', hreads, hstep⟩)
        exact .inr ⟨error, _, rfl, Tree.compile_eq_error_iff_read.mpr hread, rfl,
          .inr ⟨_, visibleAt_of_locate hlocate, hvisible⟩⟩
      · rw [tokensOf_respaced h] at hreads
        have hread : read other.toList = .error ⟨utf8Length other.toList, error.cause⟩ :=
          read_eq_error_iff.mpr (.inr ⟨rfl, state, hreads, hfinish⟩)
        exact .inr ⟨error, _, rfl, Tree.compile_eq_error_iff_read.mpr hread, rfl,
          .inl ⟨hoffset.trans (Text.utf8Length_toList fragment), Text.utf8Length_toList other⟩⟩

/-- The same text with and without whitespace, some of it inside an arrow and of several bytes: the error stands at
the right brace of both, behind six characters. -/
theorem compile_respaced_brace :
    let spaced := " a :\u2003\x7b b -\u00a0> \x7d"
    let packed := "a:\x7bb->\x7d"
    withoutWhitespace spaced.toList = withoutWhitespace packed.toList ∧
      Tree.compile spaced = .error ⟨16, .expectedName (some '}')⟩ ∧
      Tree.compile packed = .error ⟨6, .expectedName (some '}')⟩ ∧
      ∃ index, VisibleAt spaced index 16 ∧ VisibleAt packed index 6 := by
  intro spaced packed
  have h : withoutWhitespace spaced.toList = withoutWhitespace packed.toList := by decide
  have hspaced : Tree.compile " a :\u2003\x7b b -\u00a0> \x7d" = .error ⟨16, .expectedName (some '}')⟩ := rfl
  have hpacked : Tree.compile "a:\x7bb->\x7d" = .error ⟨6, .expectedName (some '}')⟩ := rfl
  refine ⟨h, hspaced, hpacked, ?_⟩
  rcases compile_respaced h with ⟨tree, hok, -⟩ | ⟨error, error', herror, herror', -, hplace⟩
  · cases hspaced.symm.trans hok
  · cases hspaced.symm.trans herror
    cases hpacked.symm.trans herror'
    exact hplace.resolve_left fun hend => absurd hend.2 (by decide)

end JsonProjection.Fragment
