/-
# `JsonProjection.Proofs.Fragment.Braces` -- how deep the braces of a text may lie.

The limit on nesting is kept by counting in the reader: the blocks around the present one are on the stack, and
a block is put there at its first letter.  Here the count is taken from the text instead, where a left brace
goes one level up and a right brace one level down (`levelBehind`).  The two agree as long as the text is read
(`Reads.level_eq`), so the limit can be stated for texts without the reader.

They agree with one delay.  A left brace alone puts no block on the stack, and a block that is closed at once is
never put there.  So an empty block may stand where there is no room for a level, and braces may lie one level
deeper than `maxNesting`, with nothing between them.  `OverLimit` says which texts go beyond that: exactly
these are refused because of their depth (`compile_overLimit`).
-/
import JsonProjection.Proofs.Fragment.Viable

namespace JsonProjection.Fragment

open JsonProjection.Text (isWhitespace withoutWhitespace)

/-! ## Levels of a text -/

/-- A left brace goes one level up, a right brace one level down. -/
def levelAfter (level : Nat) (c : Char) : Nat :=
  if c = '{' then level + 1 else if c = '}' then level - 1 else level

/-- **The level behind a text**: how many of its braces are open there. -/
def levelBehind (cs : List Char) : Nat := cs.foldl levelAfter 0

theorem levelBehind_append (cs ds : List Char) :
    levelBehind (cs ++ ds) = ds.foldl levelAfter (levelBehind cs) := List.foldl_append

/-- A character of a class without braces leaves the level as it is. -/
theorem levelAfter_of_class {p : Char → Bool} {c : Char} (hc : p c = true)
    (hopening : p '{' = false) (hclosing : p '}' = false) (level : Nat) :
    levelAfter level c = level := by
  have hne : ∀ brace, p brace = false → c ≠ brace := by
    intro brace hbrace he
    rw [he, hbrace] at hc
    cases hc
  rw [levelAfter, if_neg (hne '{' hopening), if_neg (hne '}' hclosing)]

theorem levelAfter_of_isNameChar {c : Char} (hc : isNameChar c = true) (level : Nat) :
    levelAfter level c = level :=
  levelAfter_of_class hc (by decide) (by decide) level

theorem foldl_withoutWhitespace (cs : List Char) (level : Nat) :
    (withoutWhitespace cs).foldl levelAfter level = cs.foldl levelAfter level := by
  induction cs generalizing level with
  | nil => rfl
  | cons c cs ih =>
      by_cases hc : isWhitespace c = true
      · have hlevel : levelAfter level c = level :=
          levelAfter_of_class hc (by decide) (by decide) level
        rw [List.foldl_cons, hlevel, ← ih]
        simp [withoutWhitespace, hc]
      · rw [List.foldl_cons, ← ih]
        simp [withoutWhitespace, hc]

/-- The level behind a text can be counted over its tokens. -/
theorem levelBehind_eq (cs : List Char) :
    levelBehind cs = ((tokensOf cs).flatMap Token.chars).foldl levelAfter 0 := by
  rw [flatMap_chars_tokensOf, foldl_withoutWhitespace, levelBehind]

/-! ## Levels of the reader -/

namespace State

variable {state next : State} {token : Token}

/-- **The level of a state**: the blocks around the present one, and a left brace behind which nothing stands
yet. -/
def level (state : State) : Nat :=
  match state.phase with
  | .opened _ => state.outer.length + 1
  | _ => state.outer.length

theorem level_of_complete {outer : List Level} {entries : List (Key × Selection)}
    (h : state.complete = ⟨outer, entries, .closed⟩) : state.level = outer.length := by
  obtain ⟨outer', entries', phase⟩ := state
  cases phase with
  | name _ | renamed _ _ | closed =>
      cases h
      rfl
  | _ => cases h

/-- **Every move counts the braces of its token.** -/
theorem Moves.level_eq (h : Moves state token next) :
    next.level = token.chars.foldl levelAfter state.level := by
  cases h with
  | firstLetter hc => exact (levelAfter_of_isNameChar hc _).symm
  | letter hc => exact (levelAfter_of_isNameChar hc _).symm
  | arrow => rfl
  | firstRenamedLetter hc => exact (levelAfter_of_isNameChar hc _).symm
  | renamedLetter hc => exact (levelAfter_of_isNameChar hc _).symm
  | colon => rfl
  | renamedColon => rfl
  | opening => rfl
  | emptyBlock => rfl
  | block _ hc => exact (levelAfter_of_isNameChar hc _).symm
  | comma hc =>
      rw [level_of_complete hc]
      rfl
  | closing hc =>
      rw [level_of_complete hc]
      rfl

theorem Reads.foldl_level {tokens : List Token} (h : Reads state tokens next) :
    next.level = (tokens.flatMap Token.chars).foldl levelAfter state.level := by
  induction h with
  | nil => rfl
  | cons hmove _ ih => rw [List.flatMap_cons, List.foldl_append, ← hmove.level_eq, ih]

/-- **The level of the state is the level behind the text** that was read. -/
theorem Reads.level_eq {cs : List Char} (h : Reads initial (tokensOf cs) state) :
    state.level = levelBehind cs := by
  rw [h.foldl_level, levelBehind_eq]
  rfl

/-! ## Where the limit is met -/

/-- **Behind a left brace** of an accepted text there is room for a level, or the block is closed at once. -/
theorem Reads.room_or_closing {outer : List Level} {entries : List (Key × Selection)} {key : Key}
    {tokens : List Token} (h : Reads ⟨outer, entries, .opened key⟩ tokens next)
    {entries' : List (Key × Selection)} (hc : next.complete = ⟨[], entries', .closed⟩) :
    outer.length ≠ maxNesting ∨ tokens.head? = some .closing := by
  cases h with
  | nil => cases hc
  | cons hmove _ =>
      cases hmove with
      | emptyBlock => exact .inr rfl
      | block hroom => exact .inl hroom
      | comma hopened => cases hopened
      | closing hopened => cases hopened

theorem stepStart_ne_nestedTooDeeply : state.stepStart token ≠ .error .nestedTooDeeply := by
  intro h
  cases token with
  | plain c =>
      simp only [stepStart] at h
      split at h <;> cases h
  | _ => cases h

theorem stepComplete_ne_nestedTooDeeply : state.stepComplete token ≠ .error .nestedTooDeeply := by
  intro h
  cases token with
  | closing =>
      simp only [stepComplete] at h
      split at h <;> cases h
  | _ => cases h

/-- **The step that reports the limit**: there is no room behind a left brace, and the block is not empty.  The
other refusals name other causes. -/
theorem step_eq_nestedTooDeeply (h : state.step token = .error .nestedTooDeeply) :
    ∃ key, state.phase = .opened key ∧ state.outer.length = maxNesting ∧ token ≠ .closing := by
  obtain ⟨outer, entries, phase⟩ := state
  cases phase with
  | opened key =>
      by_cases htoken : token = .closing
      · subst htoken
        cases h
      by_cases hroom : outer.length = maxNesting
      · exact ⟨key, rfl, hroom, htoken⟩
      · have hstep : step ⟨outer, entries, .opened key⟩ token =
            stepStart ⟨⟨entries, key⟩ :: outer, [], .start⟩ token := by
          cases token with
          | closing => exact absurd rfl htoken
          | _ => exact if_neg hroom
        exact absurd (hstep ▸ h) stepStart_ne_nestedTooDeeply
  | start => exact absurd h stepStart_ne_nestedTooDeeply
  | closed => exact absurd h stepComplete_ne_nestedTooDeeply
  | colon key => cases token <;> cases h
  | «renaming» name =>
      cases token with
      | plain c =>
          simp only [step] at h
          split at h <;> cases h
      | _ => cases h
  | _ =>
      -- a name may go on, or a comma or a right brace ends the entry
      cases token with
      | plain c =>
          simp only [step] at h
          split at h <;> cases h
      | comma => cases h
      | closing =>
          rw [step_of_complete rfl (.inr rfl)] at h
          exact absurd h stepComplete_ne_nestedTooDeeply
      | _ => cases h

/-- The end of the text reports the limit behind a left brace only. -/
theorem finish_eq_nestedTooDeeply (h : state.finish = .error .nestedTooDeeply) :
    ∃ key, state.phase = .opened key ∧ state.outer.length = maxNesting := by
  obtain ⟨outer, entries, phase⟩ := state
  cases phase with
  | opened key =>
      simp only [finish] at h
      split at h
      case isTrue hfull => exact ⟨key, rfl, hfull⟩
      case isFalse => cases h
  | _ => cases outer <;> cases h

/-- What was read up to a left brace ends in the left brace. -/
theorem Reads.eq_append_opening {tokens : List Token} (h : Reads initial tokens state) {key : Key}
    (hphase : state.phase = .opened key) : ∃ front, tokens = front ++ [.opening] := by
  obtain ⟨-, hconsumed⟩ := h.consumed inOrder_initial
  obtain ⟨outer, entries, phase⟩ := state
  cases hphase
  refine ⟨outerTokens outer ++ (tree ⟨outer, entries, .opened key⟩).tokensBefore ++
    (key.tokens ++ [.colon]), ?_⟩
  have htokens : State.consumed ⟨outer, entries, .opened key⟩ = tokens := hconsumed
  rw [← htokens]
  simp [State.consumed, phaseTokens]

end State

/-! ## Cuts at a left brace -/

theorem tokensOf_append_brace (before after : List Char) :
    tokensOf (before ++ '{' :: after) = tokensOf before ++ .opening :: tokensOf after := by
  have hbrace : withoutWhitespace ['{'] = ['{'] := by decide
  have hafter : tokensOf ('{' :: after) = .opening :: tokensOf after := by
    rw [← List.singleton_append, tokensOf_append]
    · rfl
    · rw [hbrace]
      intro _ hlast
      cases hlast
  rw [tokensOf_append, hafter]
  intro hhead
  rw [← List.singleton_append, Text.withoutWhitespace_append, hbrace] at hhead
  cases hhead

/-- **A left brace among the tokens is a left brace of the text.** -/
theorem exists_brace {cs : List Char} {front back : List Token}
    (h : tokensOf cs = front ++ .opening :: back) :
    ∃ before after, cs = before ++ '{' :: after ∧ tokensOf before = front ∧
      tokensOf after = back := by
  obtain ⟨located, more, hlocate, rfl, hmore⟩ := List.map_eq_append_iff.mp h
  obtain ⟨⟨offset, token⟩, rest, rfl, rfl, rfl⟩ := List.map_eq_cons_iff.mp hmore
  obtain ⟨before, text, after, rfl, -, hfirst, htoken, hbefore, -⟩ := locate_eq_append hlocate
  have htext : text = ['{'] := by
    have hchars := flatMap_chars_tokensOf text
    rw [htoken] at hchars
    cases hfirst with
    | arrow hgap =>
        rw [withoutWhitespace_arrow hgap] at hchars
        cases hchars
    | single hc =>
        rw [Text.withoutWhitespace_singleton hc] at hchars
        exact hchars.symm
  subst htext
  refine ⟨before, after, rfl, hbefore, ?_⟩
  rw [List.singleton_append, tokensOf_append_brace, hbefore] at h
  exact (List.cons.inj (List.append_cancel_left h)).2

/-- The text behind a left brace begins with a right brace exactly if its tokens do. -/
theorem head?_tokensOf_eq_closing {cs : List Char} :
    (tokensOf cs).head? = some .closing ↔ (withoutWhitespace cs).head? = some '}' := by
  constructor
  · intro h
    obtain ⟨rest, hrest⟩ := List.head?_eq_some_iff.mp h
    rw [← flatMap_chars_tokensOf, hrest]
    rfl
  · intro h
    obtain ⟨rest, hrest⟩ := List.head?_eq_some_iff.mp h
    rw [tokensOf_eq_tokenize, hrest]
    cases rest <;> rfl

/-! ## Texts over the limit -/

/-- **A left brace beyond the limit**, between the text before it and the text behind it: it opens more than one
level too many, or it opens one level too many and its block is not empty. -/
def TooDeep (before after : List Char) : Prop :=
  maxNesting < levelBehind before ∨
    levelBehind before = maxNesting ∧ (withoutWhitespace after).head? ≠ some '}'

/-- **A text over the limit** has a left brace beyond it. -/
def OverLimit (text : String) : Prop :=
  ∃ before after, text.toList = before ++ '{' :: after ∧ TooDeep before after

/-- Accepted texts keep the limit. -/
theorem not_tooDeep {cs before after : List Char} {state : State}
    {entries : List (Key × Selection)} (hreads : State.Reads .initial (tokensOf cs) state)
    (hc : state.complete = ⟨[], entries, .closed⟩) (hcs : cs = before ++ '{' :: after) :
    ¬ TooDeep before after := by
  rw [hcs, tokensOf_append_brace] at hreads
  obtain ⟨middle, hfront, hback⟩ := hreads.split
  have hlevel := hfront.level_eq
  have hdepth := (hfront.consumed State.inOrder_initial).1.depth_le
  cases hback with
  | cons hmove hrest =>
      cases hmove with
      | @opening outer _ _ =>
          have houter : outer.length = levelBehind before := hlevel
          have hle : outer.length ≤ maxNesting := hdepth
          rintro (hbeyond | ⟨hfull, hnonempty⟩)
          · omega
          · rcases hrest.room_or_closing hc with hroom | hclosing
            · omega
            · exact hnonempty (head?_tokensOf_eq_closing.mp hclosing)

/-- Where the reader meets the limit, the text goes beyond it. -/
theorem tooDeep_of_full {cs : List Char} {front back : List Token} {state : State} {key : Key}
    (hcs : tokensOf cs = front ++ back) (hreads : State.Reads .initial front state)
    (hphase : state.phase = .opened key) (hfull : state.outer.length = maxNesting)
    (hback : back.head? ≠ some .closing) :
    ∃ before after, cs = before ++ '{' :: after ∧ TooDeep before after := by
  obtain ⟨front, rfl⟩ := hreads.eq_append_opening hphase
  rw [List.append_assoc, List.singleton_append] at hcs
  obtain ⟨before, after, rfl, rfl, rfl⟩ := exists_brace hcs
  refine ⟨before, after, rfl, .inr ⟨?_, mt head?_tokensOf_eq_closing.mpr hback⟩⟩
  have hstate : state.level = maxNesting + 1 := by
    rw [State.level, hphase]
    exact congrArg (· + 1) hfull
  have hbrace : state.level = levelBehind before + 1 := by
    rw [hreads.foldl_level, List.flatMap_append, List.foldl_append, levelBehind_eq]
    rfl
  omega

/-- **The limit on the braces of a text.** A text with a left brace beyond the limit is refused, whatever else
stands in it: braces lie at most `maxNesting` levels deep in an accepted text, or one level deeper around
nothing.  And the limit is reported for no other text. -/
theorem compile_overLimit (fragment : String) :
    (OverLimit fragment → ∃ error, Tree.compile fragment = .error error) ∧
      ∀ offset, Tree.compile fragment = .error ⟨offset, .nestedTooDeeply⟩ → OverLimit fragment := by
  constructor
  · rintro ⟨before, after, htext, hdeep⟩
    cases hcompile : Tree.compile fragment with
    | error error => exact ⟨error, rfl⟩
    | ok tree =>
        obtain ⟨state, entries, hreads, hc⟩ := exists_compile_eq_ok_iff.mp ⟨tree, hcompile⟩
        exact absurd hdeep (not_tooDeep hreads hc htext)
  · intro offset hcompile
    have hread := Tree.compile_eq_error_iff_read.mp hcompile
    rw [read] at hread
    split at hread
    case h_1 error hrun =>
      cases hread
      obtain ⟨front, token, back, state, hlocate, hreads, hstep⟩ := State.run_eq_error hrun
      obtain ⟨key, hphase, hfull, htoken⟩ := State.step_eq_nestedTooDeeply hstep
      have htokens : tokensOf fragment.toList =
          front.map Prod.snd ++ token :: back.map Prod.snd := by
        rw [tokensOf, hlocate, List.map_append, List.map_cons]
      exact tooDeep_of_full htokens hreads hphase hfull fun h => htoken (Option.some.inj h)
    case h_2 state hrun =>
      split at hread
      case h_1 => cases hread
      case h_2 cause hfinish =>
        cases hread
        obtain ⟨key, hphase, hfull⟩ := State.finish_eq_nestedTooDeeply hfinish
        have hreads := State.run_eq_ok_iff.mp hrun
        have hend : ([] : List Token).head? ≠ some .closing := by decide
        exact tooDeep_of_full (List.append_nil _).symm hreads hphase hfull hend

/-! ## Blocks inside one another -/

/-- The left braces of `depth` blocks inside one another, each with its name. -/
def opened (depth : Nat) : List Char := (List.replicate depth ['a', ':', '{']).flatten

/-- `depth` blocks inside one another around a text. -/
def blocksAround (depth : Nat) (inner : List Char) : String :=
  String.ofList (opened depth ++ (inner ++ List.replicate depth '}'))

theorem opened_succ (depth : Nat) : opened (depth + 1) = opened depth ++ ['a', ':', '{'] := by
  rw [opened, List.replicate_succ', List.flatten_append, opened]
  rfl

theorem levelBehind_opened (depth : Nat) : levelBehind (opened depth) = depth := by
  induction depth with
  | zero => rfl
  | succ depth ih =>
      rw [opened_succ, levelBehind_append, ih]
      rfl

/-- A name in front of a block is on the level around the block. -/
theorem levelBehind_opened_name (depth : Nat) :
    levelBehind (opened depth ++ ['a', ':']) = depth := by
  rw [levelBehind_append, levelBehind_opened]
  rfl

/-- The left brace of the innermost block. -/
theorem toList_blocksAround_succ (depth : Nat) (inner : List Char) :
    (blocksAround (depth + 1) inner).toList =
      (opened depth ++ ['a', ':']) ++ '{' :: (inner ++ List.replicate (depth + 1) '}') := by
  rw [blocksAround, String.toList_ofList, opened_succ]
  simp only [List.append_assoc, List.cons_append, List.nil_append]

instance : DecidableEq (Except SyntaxError Tree)
  | .ok tree, .ok tree' => decidable_of_iff (tree = tree') ⟨congrArg _, Except.ok.inj⟩
  | .error error, .error error' =>
    decidable_of_iff (error = error') ⟨congrArg _, Except.error.inj⟩
  | .ok _, .error _ => isFalse nofun
  | .error _, .ok _ => isFalse nofun

/-- A name one level too deep: the text is over the limit and refused, and the limit is reported behind the last
left brace. -/
theorem compile_overLimit_leaf :
    let text := blocksAround (maxNesting + 1) ['b']
    (OverLimit text ∧ ∃ error, Tree.compile text = .error error) ∧
      Tree.compile text = .error ⟨387, .nestedTooDeeply⟩ ∧ OverLimit text := by
  intro text
  obtain ⟨hrefused, hreported⟩ := compile_overLimit text
  have hover : OverLimit text :=
    ⟨_, _, toList_blocksAround_succ maxNesting ['b'], .inr ⟨levelBehind_opened_name maxNesting, by decide⟩⟩
  have hcompile : Tree.compile (blocksAround (maxNesting + 1) ['b']) =
      .error ⟨387, .nestedTooDeeply⟩ := by
    rw [Tree.compile_eq_error_iff_read, blocksAround, String.toList_ofList]
    decide +kernel
  exact ⟨⟨hover, hrefused hover⟩, hcompile, hreported 387 hcompile⟩

/-- **Nothing, one level too deep**: a text whose braces lie deeper than `maxNesting` is accepted. -/
theorem not_compile_refuses_every_deeper :
    ¬ ∀ fragment : String,
      (∃ before after, fragment.toList = before ++ '{' :: after ∧ maxNesting ≤ levelBehind before) →
        ∃ error, Tree.compile fragment = .error error := by
  intro hlimit
  have hlevel : maxNesting ≤ levelBehind (opened maxNesting ++ ['a', ':']) :=
    Nat.le_of_eq (levelBehind_opened_name maxNesting).symm
  obtain ⟨error, hcompile⟩ :=
    hlimit _ ⟨_, _, toList_blocksAround_succ maxNesting [], hlevel⟩
  have haccepted : (read (blocksAround (maxNesting + 1) []).toList).isOk = true := by
    rw [blocksAround, String.toList_ofList]
    decide +kernel
  rw [Tree.compile_eq_error_iff_read.mp hcompile] at haccepted
  cases haccepted

end JsonProjection.Fragment
