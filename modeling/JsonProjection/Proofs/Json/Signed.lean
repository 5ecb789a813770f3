/-
# `JsonProjection.Proofs.Json.Signed` -- a text that begins with a minus sign.

Only a number begins with a minus sign, so a text that does describes a number or nothing
(`exists_num_of_ofText?`).  The lexer only ever adds tokens, so the word that the sign begins, once it has ended, is
the first token of the text; and the reader admits nothing after a number that stands in no array and no object.
-/
import JsonProjection.Json.Reader
import JsonProjection.Proofs.Json.Lexed

namespace JsonProjection.Json

/-! ## The lexer adds tokens -/

namespace Lexer

variable {lexer next : Lexer} {c : Char}

theorem isSuffix_of_endWord? (h : lexer.endWord? = some next) :
    lexer.tokens.IsSuffix next.tokens := by
  unfold endWord? at h
  split at h
  · obtain ⟨token, -, rfl⟩ := Option.map_eq_some_iff.mp h
    exact List.suffix_cons token lexer.tokens
  · cases h
    exact List.suffix_rfl

theorem isSuffix_of_stepBetween? (h : lexer.stepBetween? c = some next) :
    lexer.tokens.IsSuffix next.tokens := by
  unfold stepBetween? at h
  split at h
  · cases h
    exact List.suffix_rfl
  split at h
  · cases h
    exact List.suffix_rfl
  split at h
  · cases h
    exact List.suffix_rfl
  · obtain ⟨token, -, rfl⟩ := Option.map_eq_some_iff.mp h
    exact List.suffix_cons token lexer.tokens

/-- **One character** takes no token away. -/
theorem isSuffix_of_step? (h : lexer.step? c = some next) : lexer.tokens.IsSuffix next.tokens := by
  unfold step? at h
  split at h
  case h_1 => exact isSuffix_of_stepBetween? h
  case h_2 =>
    split at h
    · cases h
      exact List.suffix_rfl
    · obtain ⟨ended, hended, hstep⟩ := Option.bind_eq_some_iff.mp h
      exact (isSuffix_of_endWord? hended).trans (isSuffix_of_stepBetween? hstep)
  case h_3 =>
    split at h
    · cases h
      exact List.suffix_rfl
    split at h
    · obtain ⟨cs, -, rfl⟩ := Option.map_eq_some_iff.mp h
      exact List.suffix_cons _ lexer.tokens
    · cases h
      exact List.suffix_rfl

/-- The tokens of a text begin with those that have been read. -/
theorem isPrefix_of_read? {cs : List Char} {tokens : List Token} (h : lexer.read? cs = some tokens) :
    lexer.tokens.reverse.IsPrefix tokens := by
  induction cs generalizing lexer with
  | nil =>
      obtain ⟨last, hlast, hfinish⟩ := Option.bind_eq_some_iff.mp h
      cases hlast
      unfold finish? at hfinish
      split at hfinish
      · cases hfinish
      · obtain ⟨ended, hended, rfl⟩ := Option.map_eq_some_iff.mp hfinish
        exact List.reverse_prefix.mpr (isSuffix_of_endWord? hended)
  | cons c cs ih =>
      rw [read?_cons] at h
      obtain ⟨next, hstep, hrest⟩ := Option.bind_eq_some_iff.mp h
      exact (List.reverse_prefix.mpr (isSuffix_of_step? hstep)).trans (ih hrest)

/-! ## The word of a sign -/

/-- A word that begins with a minus sign is a number. -/
theorem exists_num_of_ofWord? {cs : List Char} {token : Token}
    (h : Token.ofWord? ('-' :: cs) = some token) : ∃ n, token = .num n := by
  have hletters : ∀ c ∈ ['n', 't', 'f'], ∀ word, '-' :: cs ≠ c :: word := by
    rintro c hc word he
    cases he
    revert hc
    decide
  rw [Token.ofWord?, if_neg (hletters 'n' (by decide) _), if_neg (hletters 't' (by decide) _),
    if_neg (hletters 'f' (by decide) _)] at h
  obtain ⟨n, -, rfl⟩ := Option.map_eq_some_iff.mp h
  exact ⟨n, rfl⟩

/-- The word that a minus sign begins is the first token. -/
theorem exists_num_of_read? {w cs : List Char} {tokens : List Token}
    (h : read? ⟨[], .word (w ++ ['-'])⟩ cs = some tokens) : ∃ n more, tokens = .num n :: more := by
  have hended : ∀ {word : List Char} {token : Token},
      Token.ofWord? (word ++ ['-']).reverse = some token → ∃ n, token = .num n := by
    intro word token htoken
    rw [List.reverse_append] at htoken
    exact exists_num_of_ofWord? htoken
  induction cs generalizing w with
  | nil =>
      obtain ⟨last, hlast, hfinish⟩ := Option.bind_eq_some_iff.mp h
      cases hlast
      obtain ⟨ended, hend, rfl⟩ := Option.map_eq_some_iff.mp hfinish
      obtain ⟨token, htoken, rfl⟩ := Option.map_eq_some_iff.mp hend
      obtain ⟨n, rfl⟩ := hended htoken
      exact ⟨n, [], rfl⟩
  | cons c cs ih =>
      rw [read?_cons] at h
      obtain ⟨next, hstep, hrest⟩ := Option.bind_eq_some_iff.mp h
      unfold step? at hstep
      split at hstep
      case h_1 he => cases he
      case h_3 he => cases he
      case h_2 newest he =>
        cases he
        split at hstep
        · cases hstep
          exact ih (w := c :: w) hrest
        · obtain ⟨ended, hend, hbetween⟩ := Option.bind_eq_some_iff.mp hstep
          obtain ⟨token, htoken, rfl⟩ := Option.map_eq_some_iff.mp hend
          obtain ⟨n, rfl⟩ := hended htoken
          have hfirst := (isSuffix_of_stepBetween? hbetween)
          obtain ⟨more, rfl⟩ := (List.reverse_prefix.mpr hfirst).trans (isPrefix_of_read? hrest)
          exact ⟨n, more, rfl⟩

end Lexer

/-- A row of tokens that begins with a number is that number. -/
theorem eq_num_of_ofTokens? {limit : Nat} {n : Number} {more : List Token} {value : Json}
    (h : ofTokens? limit (.num n :: more) = some value) : value = .num n := by
  cases more with
  | nil =>
      cases h
      rfl
  | cons token more => cases h

/-- **A text that begins with a minus sign** describes a number or nothing. -/
theorem exists_num_of_ofText? {text : String} {value : Json} (h : ofText? text = some value)
    (hsign : text.toList.head? = some '-') : ∃ n, value = .num n := by
  obtain ⟨tokens, htokens, hvalue⟩ := Option.bind_eq_some_iff.mp h
  cases hcs : text.toList with
  | nil =>
      rw [hcs] at hsign
      cases hsign
  | cons c cs =>
      rw [hcs] at hsign htokens
      cases hsign
      have hword : Lexer.read? ⟨[], .word ([] ++ ['-'])⟩ cs = some tokens := htokens
      obtain ⟨n, more, rfl⟩ := Lexer.exists_num_of_read? hword
      exact ⟨n, eq_num_of_ofTokens? hvalue⟩

end JsonProjection.Json
