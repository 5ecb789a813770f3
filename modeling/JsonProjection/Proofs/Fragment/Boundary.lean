/-
# `JsonProjection.Proofs.Fragment.Boundary` -- a text cut at a token.

The reader finds a place by counting: a token stands where its first character does, so many bytes after the
beginning.  Here the count is turned back into a cut of the text (`locate_eq_append`): what stands before the
token, the token as it is spelled (`FirstToken`), and what stands behind it.  The tokens before the cut are
those of the text before it, so it can be asked in which other ways the text might have gone on.

The one thing that a cut could change is an arrow.  A `-` before the cut and a `>` behind it would become one
token; hence the condition in `tokenize_append`.  It holds at the cuts of `locate_eq_append`, because there
the two would have been one token before.
-/
import JsonProjection.Proofs.Fragment.Legible

namespace JsonProjection

namespace Text

/-- The bytes that a place counts are the bytes of the text. -/
theorem utf8Length_toList (s : String) : utf8Length s.toList = s.utf8ByteSize := by
  have h : ∀ cs : List Char, utf8Length cs = (String.ofList cs).utf8ByteSize := by
    intro cs
    induction cs with
    | nil => rfl
    | cons c cs ih =>
        rw [utf8Length_cons, ih, String.ofList_cons, String.utf8ByteSize_append,
          String.utf8ByteSize_singleton]
  rw [h, String.ofList_toList]

theorem withoutWhitespace_append (cs ds : List Char) :
    withoutWhitespace (cs ++ ds) = withoutWhitespace cs ++ withoutWhitespace ds :=
  List.filter_append cs ds

theorem withoutWhitespace_eq_nil {cs : List Char} (h : ∀ c ∈ cs, isWhitespace c = true) :
    withoutWhitespace cs = [] :=
  List.filter_eq_nil_iff.mpr fun c hc => by simp [h c hc]

theorem withoutWhitespace_singleton {c : Char} (h : isWhitespace c = false) :
    withoutWhitespace [c] = [c] := by
  simp [withoutWhitespace, h]

end Text

namespace Fragment

open JsonProjection.Text (isWhitespace utf8Length withoutWhitespace)

/-! ## Tokens without their places -/

/-- The tokens of a row of characters without whitespace. -/
def tokenize : List Char → List Token
  | [] => []
  | [c] => [.ofChar c]
  | c :: c' :: rest =>
    if c = '-' ∧ c' = '>' then .arrow :: tokenize rest else .ofChar c :: tokenize (c' :: rest)

theorem map_snd_joinArrows (located : List (Nat × Char)) :
    (joinArrows located).map Prod.snd = tokenize (located.map Prod.snd) := by
  fun_induction joinArrows located with
  | case1 => rfl
  | case2 offset c => rfl
  | case3 offset c offset' c' rest h ih =>
      rw [List.map_cons, List.map_cons, List.map_cons, tokenize, if_pos h, ih]
  | case4 offset c offset' c' rest h ih =>
      rw [List.map_cons, List.map_cons, List.map_cons, tokenize, if_neg h, ih, List.map_cons]

theorem tokensOf_eq_tokenize (cs : List Char) : tokensOf cs = tokenize (withoutWhitespace cs) := by
  rw [tokensOf, locate, map_snd_joinArrows, map_visible]

/-- **Two rows side by side** have the tokens of the one and then of the other, unless an arrow is made where
they meet. -/
theorem tokenize_append {cs ds : List Char} (h : ds.head? = some '>' → cs.getLast? ≠ some '-') :
    tokenize (cs ++ ds) = tokenize cs ++ tokenize ds := by
  fun_induction tokenize cs with
  | case1 => rfl
  | case2 c =>
      cases ds with
      | nil => rfl
      | cons d ds =>
          have hno : ¬ (c = '-' ∧ d = '>') := by
            rintro ⟨rfl, rfl⟩
            exact h rfl rfl
          rw [List.singleton_append, tokenize, if_neg hno]
          rfl
  | case3 c c' rest hc ih =>
      -- what ends the rest ends the whole row
      have hrest : ds.head? = some '>' → rest.getLast? ≠ some '-' := by
        intro hd hl
        have hne : rest ≠ [] := by
          rintro rfl
          cases hl
        refine h hd ?_
        rw [List.getLast?_cons_of_ne_nil (List.cons_ne_nil _ _), List.getLast?_cons_of_ne_nil hne, hl]
      rw [List.cons_append, List.cons_append, tokenize, if_pos hc, ih hrest, List.cons_append]
  | case4 c c' rest hc ih =>
      have hrest : ds.head? = some '>' → (c' :: rest).getLast? ≠ some '-' := by
        intro hd hl
        refine h hd ?_
        rw [List.getLast?_cons_of_ne_nil (List.cons_ne_nil _ _), hl]
      rw [List.cons_append, List.cons_append, tokenize, if_neg hc, ← List.cons_append, ih hrest,
        List.cons_append]

/-- **Two texts side by side** have the tokens of the one and then of the other, unless an arrow is made where
they meet. -/
theorem tokensOf_append {cs ds : List Char}
    (h : (withoutWhitespace ds).head? = some '>' → (withoutWhitespace cs).getLast? ≠ some '-') :
    tokensOf (cs ++ ds) = tokensOf cs ++ tokensOf ds := by
  simp only [tokensOf_eq_tokenize, Text.withoutWhitespace_append, tokenize_append h]

/-! ## A place in the text -/

/-- A character with its place: the text before it has so many bytes. -/
theorem visible_eq_append {start offset : Nat} {cs : List Char} {c : Char}
    {front back : List (Nat × Char)} (h : visible start cs = front ++ (offset, c) :: back) :
    ∃ before after, cs = before ++ c :: after ∧ offset = start + utf8Length before ∧
      isWhitespace c = false ∧ withoutWhitespace before = front.map Prod.snd ∧
      withoutWhitespace after = back.map Prod.snd := by
  induction cs generalizing start front with
  | nil =>
      have hnil := congrArg List.length h
      simp [visible] at hnil
  | cons d cs ih =>
      rw [visible] at h
      by_cases hd : isWhitespace d = true
      · rw [if_pos hd] at h
        obtain ⟨before, after, rfl, hoffset, hc, hbefore, hafter⟩ := ih h
        refine ⟨d :: before, after, rfl, ?_, hc, ?_, hafter⟩
        · rw [hoffset, Text.utf8Length_cons, Nat.add_assoc]
        · rw [← hbefore]
          simp [withoutWhitespace, hd]
      · rw [if_neg hd] at h
        cases front with
        | nil =>
            obtain ⟨hfirst, hback⟩ := List.cons.inj h
            cases hfirst
            refine ⟨[], cs, rfl, rfl, Bool.eq_false_iff.mpr hd, rfl, ?_⟩
            rw [← hback, map_visible]
        | cons first front =>
            obtain ⟨rfl, hrest⟩ := List.cons.inj h
            obtain ⟨before, after, rfl, hoffset, hc, hbefore, hafter⟩ := ih hrest
            refine ⟨d :: before, after, rfl, ?_, hc, ?_, hafter⟩
            · rw [hoffset, Text.utf8Length_cons, Nat.add_assoc]
            · rw [List.map_cons, ← hbefore]
              simp [withoutWhitespace, hd]

/-- A token with its place begins with the character in that place, and makes no arrow with the character
before it. -/
theorem joinArrows_eq_append {located : List (Nat × Char)} {front back : List (Nat × Token)}
    {offset : Nat} {token : Token} (h : joinArrows located = front ++ (offset, token) :: back) :
    ∃ before c after, located = before ++ (offset, c) :: after ∧ joinArrows before = front ∧
      (c = '>' → (before.map Prod.snd).getLast? ≠ some '-') ∧
      token = if c = '-' ∧ (after.map Prod.snd).head? = some '>' then .arrow else .ofChar c := by
  -- nothing stands before the first token
  have hstart : ∀ c : Char, c = '>' →
      (List.map Prod.snd ([] : List (Nat × Char))).getLast? ≠ some '-' := by simp
  fun_induction joinArrows located generalizing front with
  | case1 =>
      have hnil := congrArg List.length h
      simp at hnil
  | case2 place c =>
      cases front with
      | nil =>
          obtain ⟨hfirst, -⟩ := List.cons.inj h
          cases hfirst
          refine ⟨[], c, [], rfl, rfl, hstart c, (if_neg fun hno => ?_).symm⟩
          cases hno.2
      | cons first front =>
          have hnil := congrArg List.length (List.cons.inj h).2
          simp at hnil
  | case3 place c place' c' rest hc ih =>
      obtain ⟨rfl, rfl⟩ := hc
      cases front with
      | nil =>
          obtain ⟨hfirst, -⟩ := List.cons.inj h
          cases hfirst
          exact ⟨[], '-', (place', '>') :: rest, rfl, rfl, hstart '-', (if_pos ⟨rfl, rfl⟩).symm⟩
      | cons first front =>
          obtain ⟨rfl, hrest⟩ := List.cons.inj h
          obtain ⟨before, d, after, rfl, rfl, hlast, htoken⟩ := ih hrest
          refine ⟨(place, '-') :: (place', '>') :: before, d, after, rfl, ?_, fun hd => ?_, htoken⟩
          · rw [joinArrows, if_pos ⟨rfl, rfl⟩]
          · cases before with
            | nil => simp
            | cons => exact hlast hd
  | case4 place c place' c' rest hc ih =>
      cases front with
      | nil =>
          obtain ⟨hfirst, -⟩ := List.cons.inj h
          cases hfirst
          refine ⟨[], c, (place', c') :: rest, rfl, rfl, hstart c, (if_neg fun hno => ?_).symm⟩
          exact hc ⟨hno.1, Option.some.inj hno.2⟩
      | cons first front =>
          obtain ⟨rfl, hrest⟩ := List.cons.inj h
          obtain ⟨before, d, after, hbefore, rfl, hlast, htoken⟩ := ih hrest
          refine ⟨(place, c) :: before, d, after, by rw [hbefore, List.cons_append], ?_, ?_, htoken⟩
          · cases before with
            | nil => rfl
            | cons next before =>
                obtain ⟨rfl, -⟩ := List.cons.inj hbefore
                rw [joinArrows, if_neg hc]
          · intro hd hl
            cases before with
            | nil =>
                -- the character before the `>` is `c` itself, and the two were not joined
                obtain ⟨hplace, -⟩ := List.cons.inj hbefore
                cases hplace
                exact hc ⟨Option.some.inj hl, hd⟩
            | cons => exact hlast hd hl

/-! ## Tokens as they are spelled -/

/-- **The first token of a text, as it is spelled there**: an arrow with the whitespace inside it, or one
character that does not begin an arrow with what stands behind it. -/
inductive FirstToken : List Char → List Char → Prop
  | arrow {gap after : List Char} :
      (∀ c ∈ gap, isWhitespace c = true) → FirstToken ('-' :: (gap ++ ['>'])) after
  | single {c : Char} {after : List Char} :
      isWhitespace c = false → ¬ (c = '-' ∧ (withoutWhitespace after).head? = some '>') →
      FirstToken [c] after

/-- The first character that is no whitespace stands behind whitespace only. -/
theorem exists_gap {cs : List Char} {c : Char} (h : (withoutWhitespace cs).head? = some c) :
    ∃ gap after, cs = gap ++ c :: after ∧ ∀ d ∈ gap, isWhitespace d = true := by
  induction cs with
  | nil => cases h
  | cons d cs ih =>
      by_cases hd : isWhitespace d = true
      · have hcs : (withoutWhitespace cs).head? = some c := by
          simpa [withoutWhitespace, hd] using h
        obtain ⟨gap, after, rfl, hgap⟩ := ih hcs
        exact ⟨d :: gap, after, rfl, List.forall_mem_cons.mpr ⟨hd, hgap⟩⟩
      · have hdc : d = c := by simpa [withoutWhitespace, hd] using h
        exact ⟨[], cs, by rw [hdc, List.nil_append], List.forall_mem_nil _⟩

/-- The characters of an arrow, the whitespace inside it left out. -/
theorem withoutWhitespace_arrow {gap : List Char} (h : ∀ c ∈ gap, isWhitespace c = true) :
    withoutWhitespace ('-' :: (gap ++ ['>'])) = ['-', '>'] := by
  have hdash : withoutWhitespace ['-'] = ['-'] := by decide
  have harrow : withoutWhitespace ['>'] = ['>'] := by decide
  rw [← List.singleton_append, Text.withoutWhitespace_append, Text.withoutWhitespace_append,
    Text.withoutWhitespace_eq_nil h, hdash, harrow]
  rfl

/-- **A token in its place is a cut of the text**: what stands before it, the token as it is spelled, and what
stands behind it.  The tokens before it are those of the text before it, and no arrow is made at the cut. -/
theorem locate_eq_append {cs : List Char} {front back : List (Nat × Token)} {offset : Nat}
    {token : Token} (h : locate cs = front ++ (offset, token) :: back) :
    ∃ before text after, cs = before ++ (text ++ after) ∧ offset = utf8Length before ∧
      FirstToken text after ∧ tokensOf text = [token] ∧ tokensOf before = front.map Prod.snd ∧
      ((withoutWhitespace text).head? = some '>' →
        (withoutWhitespace before).getLast? ≠ some '-') := by
  obtain ⟨chars, c, more, hvisible, rfl, hlast, htoken⟩ := joinArrows_eq_append h
  obtain ⟨before, after, rfl, hoffset, hc, hbefore, hafter⟩ := visible_eq_append hvisible
  rw [Nat.zero_add] at hoffset
  rw [← hafter] at htoken
  rw [← hbefore] at hlast
  have htokens : tokensOf before = (joinArrows chars).map Prod.snd := by
    rw [tokensOf_eq_tokenize, map_snd_joinArrows, hbefore]
  by_cases harrow : c = '-' ∧ (withoutWhitespace after).head? = some '>'
  · obtain ⟨rfl, hnext⟩ := harrow
    rw [if_pos ⟨rfl, hnext⟩] at htoken
    obtain ⟨gap, after, rfl, hgap⟩ := exists_gap hnext
    have htext := withoutWhitespace_arrow hgap
    refine ⟨before, '-' :: (gap ++ ['>']), after, ?_, hoffset, .arrow hgap, ?_, htokens, ?_⟩
    · simp
    · rw [tokensOf_eq_tokenize, htext, htoken]
      rfl
    · rw [htext]
      exact fun he => hlast (Option.some.inj he)
  · rw [if_neg harrow] at htoken
    have htext := Text.withoutWhitespace_singleton hc
    refine ⟨before, [c], after, rfl, hoffset, .single hc harrow, ?_, htokens, ?_⟩
    · rw [tokensOf_eq_tokenize, htext, htoken]
      rfl
    · rw [htext]
      exact fun he => hlast (Option.some.inj he)

/-- **A text that begins with the token** begins with that token, or with the arrow that a `-` makes with a
`>` behind it. -/
theorem FirstToken.tokensOf_append {text after : List Char} {token : Token}
    (h : FirstToken text after) (ht : tokensOf text = [token]) (more : List Char) :
    ∃ first rest, tokensOf (text ++ more) = first :: rest ∧
      (first = token ∨ token = .plain '-' ∧ first = .arrow) := by
  rw [tokensOf_eq_tokenize] at ht
  rw [tokensOf_eq_tokenize, Text.withoutWhitespace_append]
  cases h with
  | arrow hgap =>
      rw [withoutWhitespace_arrow hgap] at ht ⊢
      exact ⟨.arrow, _, rfl, .inl (List.cons.inj ht).1⟩
  | @single c _ hc =>
      rw [Text.withoutWhitespace_singleton hc] at ht ⊢
      have htoken : Token.ofChar c = token := (List.cons.inj ht).1
      cases hmore : withoutWhitespace more with
      | nil => exact ⟨.ofChar c, [], rfl, .inl htoken⟩
      | cons d ds =>
          -- what follows now need not be what followed in the text of the token
          by_cases harrow : c = '-' ∧ d = '>'
          · refine ⟨.arrow, tokenize ds, ?_, .inr ⟨?_, rfl⟩⟩
            · rw [List.singleton_append, tokenize, if_pos harrow]
            · rw [← htoken, harrow.1]
              rfl
          · refine ⟨.ofChar c, tokenize (d :: ds), ?_, .inl htoken⟩
            rw [List.singleton_append, tokenize, if_neg harrow]

end Fragment

end JsonProjection
