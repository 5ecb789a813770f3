/-
# `JsonProjection.Proofs.Fragment.Legible` -- texts and rows of tokens.

The reader sees a text as the row of its tokens, `tokensOf`.  Two facts tie the two together.  The tokens of
a text spell the text without its whitespace (`flatMap_chars_tokensOf`), for every text.  And a row of
tokens in which every plain character may stand in a name (`Legible`) is the row of every text that spells
it (`tokensOf_eq_of_spelled`): a `-` at the end of a name is not taken for half of an arrow, because no
token of such a row begins with `>`.
-/
import JsonProjection.Fragment.Writer

namespace JsonProjection

/-! ## Whitespace -/

/-- The characters that are no whitespace. -/
def Text.withoutWhitespace (cs : List Char) : List Char := cs.filter fun c => !Text.isWhitespace c

namespace Fragment

open JsonProjection.Text (isWhitespace withoutWhitespace)

/-! ## Characters of names -/

/-- Name characters by code point: the letters and digits of ASCII, `_` and `-`. -/
theorem isNameChar_iff {c : Char} :
    isNameChar c = true ↔
      (65 ≤ c.toNat ∧ c.toNat ≤ 90 ∨ 97 ≤ c.toNat ∧ c.toNat ≤ 122) ∨
        (48 ≤ c.toNat ∧ c.toNat ≤ 57) ∨ c = '_' ∨ c = '-' := by
  have hupper : c.isUpper = true ↔ 65 ≤ c.toNat ∧ c.toNat ≤ 90 := by
    show decide ('A'.val ≤ c.val ∧ c.val ≤ 'Z'.val) = true ↔ _
    rw [decide_eq_true_iff, UInt32.le_iff_toNat_le, UInt32.le_iff_toNat_le]
    rfl
  have hlower : c.isLower = true ↔ 97 ≤ c.toNat ∧ c.toNat ≤ 122 := by
    show (decide ('a'.val ≤ c.val) && decide (c.val ≤ 'z'.val)) = true ↔ _
    rw [Bool.and_eq_true, decide_eq_true_iff, decide_eq_true_iff, UInt32.le_iff_toNat_le,
      UInt32.le_iff_toNat_le]
    rfl
  show (((c.isUpper || c.isLower) || c.isDigit) || decide (c = '_') || decide (c = '-')) = true ↔ _
  simp only [Bool.or_eq_true, decide_eq_true_eq, hupper, hlower, Char.isDigit_iff_toNat, or_assoc]
  rfl

theorem isWhitespace_of_isNameChar {c : Char} (h : isNameChar c = true) :
    isWhitespace c = false := by
  have hc : 0x20 < c.toNat ∧ c.toNat < 0x80 := by
    rcases isNameChar_iff.mp h with h | h | rfl | rfl
    · omega
    · omega
    · decide
    · decide
  simp only [isWhitespace, Text.whitespaceRanges, List.any_cons, List.any_nil, Bool.or_eq_false_iff,
    Bool.and_eq_false_imp, decide_eq_true_eq, decide_eq_false_iff_not, and_true]
  refine ⟨?_, ?_, ?_, ?_, ?_, ?_, ?_, ?_, ?_, ?_⟩ <;> omega

/-- **A name**: at least one character, and name characters only. -/
def IsName (name : String) : Prop :=
  name.toList ≠ [] ∧ ∀ c ∈ name.toList, isNameChar c = true

-- The characters of the name are run through; there are instances that run through all characters.
instance (name : String) : Decidable (IsName name) :=
  @instDecidableAnd _ _ inferInstance (List.decidableBAll _ name.toList)

/-! ## Rows of tokens -/

/-- **Legible**: every plain character of the row may stand in a name. -/
def Legible (tokens : List Token) : Prop := ∀ c, Token.plain c ∈ tokens → isNameChar c = true

theorem Legible.append {tokens more : List Token} (h : Legible tokens) (hm : Legible more) :
    Legible (tokens ++ more) := by
  intro c hc
  rcases List.mem_append.mp hc with hc | hc
  · exact h c hc
  · exact hm c hc

theorem Legible.of_cons {token : Token} {tokens : List Token} (h : Legible (token :: tokens)) :
    Legible tokens := fun c hc => h c (List.mem_cons_of_mem _ hc)

/-- The tokens of a text. -/
def tokensOf (cs : List Char) : List Token := (locate cs).map Prod.snd

/-! ## The tokens spell the text -/

theorem map_visible (offset : Nat) (cs : List Char) :
    (visible offset cs).map Prod.snd = withoutWhitespace cs := by
  induction cs generalizing offset with
  | nil => rfl
  | cons c cs ih =>
      rw [visible, withoutWhitespace, List.filter_cons]
      cases isWhitespace c with
      | true => exact ih _
      | false => exact congrArg (c :: ·) (ih _)

theorem chars_ofChar (c : Char) : (Token.ofChar c).chars = [c] := by
  unfold Token.ofChar
  split
  case isTrue h => rw [h]; rfl
  case isFalse =>
    split
    case isTrue h => rw [h]; rfl
    case isFalse =>
      split
      case isTrue h => rw [h]; rfl
      case isFalse =>
        split
        case isTrue h => rw [h]; rfl
        case isFalse => rfl

theorem flatMap_chars_joinArrows (located : List (Nat × Char)) :
    ((joinArrows located).map Prod.snd).flatMap Token.chars = located.map Prod.snd := by
  fun_induction joinArrows located with
  | case1 => rfl
  | case2 offset c => simp [chars_ofChar]
  | case3 offset c offset' c' rest h ih =>
      obtain ⟨rfl, rfl⟩ := h
      simp only [List.map_cons, List.flatMap_cons, ih]
      rfl
  | case4 offset c offset' c' rest h ih =>
      simp only [List.map_cons, List.flatMap_cons, chars_ofChar] at ih ⊢
      rw [ih]
      rfl

/-- **The tokens of a text spell the text without its whitespace.** -/
theorem flatMap_chars_tokensOf (cs : List Char) :
    (tokensOf cs).flatMap Token.chars = withoutWhitespace cs := by
  rw [tokensOf, locate, flatMap_chars_joinArrows, map_visible]

/-! ## A legible row is read back -/

/-- No token of a legible row begins with the second half of the arrow. -/
theorem Legible.first_ne {tokens : List Token} (h : Legible tokens) {token : Token}
    (ht : token ∈ tokens) : token.first ≠ '>' := by
  cases token with
  | plain c =>
      intro he
      have hc : isNameChar '>' = true := he ▸ h c ht
      exact absurd hc (by decide)
  | _ => decide

/-- The text of a legible row does not begin with the second half of the arrow. -/
theorem Legible.head?_chars_ne {tokens : List Token} (h : Legible tokens) :
    (tokens.flatMap Token.chars).head? ≠ some '>' := by
  cases tokens with
  | nil => decide
  | cons token tokens =>
      have hf := h.first_ne List.mem_cons_self
      cases token <;> simp_all [Token.chars, Token.first]

/-- A token that is no arrow is one character, and the token of that character. -/
theorem Legible.ofChar_first {tokens : List Token} (h : Legible tokens) {token : Token}
    (ht : token ∈ tokens) (ha : token ≠ .arrow) :
    token.chars = [token.first] ∧ Token.ofChar token.first = token := by
  cases token with
  | plain c =>
      have hc := h c ht
      have hne : ∀ d, isNameChar d = false → c ≠ d := fun d hd he => by
        rw [he, hd] at hc
        cases hc
      refine ⟨rfl, ?_⟩
      rw [Token.first, Token.ofChar, if_neg (hne ',' (by decide)), if_neg (hne ':' (by decide)),
        if_neg (hne '{' (by decide)), if_neg (hne '}' (by decide))]
  | arrow => exact absurd rfl ha
  | _ => exact ⟨rfl, rfl⟩

/-- A character that is not followed by the second half of the arrow is a token of its own. -/
theorem joinArrows_cons {offset : Nat} {c : Char} {located : List (Nat × Char)}
    (h : (located.map Prod.snd).head? ≠ some '>') :
    joinArrows ((offset, c) :: located) = (offset, .ofChar c) :: joinArrows located := by
  cases located with
  | nil => rfl
  | cons next located =>
      obtain ⟨offset', c'⟩ := next
      rw [joinArrows, if_neg fun he => h (by rw [he.2]; rfl)]

theorem map_joinArrows {tokens : List Token} (hl : Legible tokens) {located : List (Nat × Char)}
    (h : located.map Prod.snd = tokens.flatMap Token.chars) :
    (joinArrows located).map Prod.snd = tokens := by
  induction tokens generalizing located with
  | nil =>
      rw [List.map_eq_nil_iff.mp h]
      rfl
  | cons token tokens ih =>
      rw [List.flatMap_cons] at h
      by_cases ha : token = .arrow
      · subst ha
        obtain ⟨⟨offset, c⟩, located, rfl, hc, h⟩ := List.map_eq_cons_iff.mp h
        obtain ⟨⟨offset', c'⟩, located, rfl, hc', h⟩ := List.map_eq_cons_iff.mp h
        rw [joinArrows, if_pos ⟨hc, hc'⟩, List.map_cons, ih hl.of_cons h]
      · obtain ⟨hchars, hfirst⟩ := hl.ofChar_first List.mem_cons_self ha
        rw [hchars] at h
        obtain ⟨⟨offset, c⟩, located, rfl, hc, h⟩ := List.map_eq_cons_iff.mp h
        -- what follows begins another token, so no arrow is joined here
        have hnext : (located.map Prod.snd).head? ≠ some '>' := by
          rw [h]
          exact hl.of_cons.head?_chars_ne
        have hc : c = token.first := hc
        rw [joinArrows_cons hnext, List.map_cons, ih hl.of_cons h, hc, hfirst]

/-- **A legible row is the row of every text that spells it.** -/
theorem tokensOf_eq_of_spelled {tokens : List Token} (hl : Legible tokens) {cs : List Char}
    (h : withoutWhitespace cs = tokens.flatMap Token.chars) : tokensOf cs = tokens :=
  map_joinArrows hl ((map_visible 0 cs).trans h)

/-- The text of a legible row has no whitespace. -/
theorem Legible.withoutWhitespace_chars {tokens : List Token} (hl : Legible tokens) :
    withoutWhitespace (tokens.flatMap Token.chars) = tokens.flatMap Token.chars := by
  refine List.filter_eq_self.mpr fun c hc => ?_
  obtain ⟨token, ht, hc⟩ := List.mem_flatMap.mp hc
  cases token with
  | plain d =>
      rw [List.mem_singleton.mp hc, Token.first, isWhitespace_of_isNameChar (hl d ht)]
      rfl
  | arrow =>
      rcases List.mem_cons.mp hc with rfl | hc
      · decide
      · rw [List.mem_singleton.mp hc]
        decide
  | _ =>
      rw [List.mem_singleton.mp hc]
      decide

end Fragment

end JsonProjection
