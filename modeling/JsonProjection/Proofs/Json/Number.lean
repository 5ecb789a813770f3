/-
# `JsonProjection.Proofs.Json.Number` -- the text of a number.

The text of a number is one word: its characters are digits, signs, points and the letter of an exponent
(`Number.isWordChar_of_mem_chars`).  An integer is read as the integer that was written
(`Number.ofChars?_chars_int`).  For doubles there is no such law: reading rounds more than once, so the text of a
double may stand for another one.
-/
import Mathlib.Data.List.TakeWhile
import JsonProjection.Json.Token

namespace JsonProjection.Json

/-! ## Digits -/

theorem isDigit_eq (c : Char) : isDigit c = c.isDigit := by
  simp [isDigit, Char.isDigit, Char.le_def]

theorem isDigit_of_mem_toDigits {n : Nat} {c : Char} (h : c ∈ Nat.toDigits 10 n) :
    isDigit c = true := by
  rw [isDigit_eq]
  exact Nat.isDigit_of_mem_toDigits (by decide) (by decide) h

theorem isWordChar_of_isDigit {c : Char} (h : isDigit c = true) : Token.isWordChar c = true := by
  rw [isDigit_eq] at h
  simp [Token.isWordChar, Char.isAlphanum, h]

theorem isWordChar_of_mem_toDigits {n : Nat} {c : Char} (h : c ∈ Nat.toDigits 10 n) :
    Token.isWordChar c = true := isWordChar_of_isDigit (isDigit_of_mem_toDigits h)

/-- Only zero is written with a zero in front. -/
theorem toDigits_eq_of_head?_eq_zero {n : Nat} (h : (Nat.toDigits 10 n).head? = some '0') :
    Nat.toDigits 10 n = ['0'] := by
  induction n using Nat.strongRecOn with
  | ind n ih =>
      by_cases hn : n < 10
      · rw [Nat.toDigits_of_lt_base hn] at h ⊢
        rw [Option.some.inj h]
      · -- the digits before the last are those of a smaller number, which is not zero
        have hsmall : Nat.toDigits 10 n =
            Nat.toDigits 10 (n / 10) ++ [(n % 10).digitChar] :=
          Nat.toDigits_of_base_le (by decide) (by omega)
        have hhead : (Nat.toDigits 10 (n / 10)).head? = some '0' := by
          rw [hsmall, List.head?_append] at h
          cases hd : Nat.toDigits 10 (n / 10) with
          | nil => exact absurd hd Nat.toDigits_ne_nil
          | cons d ds =>
              rw [hd] at h
              exact h
        have hzero := ih (n / 10) (by omega) hhead
        have hvalue : n / 10 = 0 := by
          rw [← Nat.ofDigitChars_ten_toDigits (n := n / 10), hzero]
          rfl
        omega

/-! ## Words -/

/-- The sign of a number. -/
theorem isWordChar_of_mem_sign {p : Prop} [Decidable p] {c : Char}
    (h : c ∈ if p then ['-'] else []) : Token.isWordChar c = true := by
  split at h
  · rw [List.mem_singleton.mp h]
    decide
  · cases h

theorem isWordChar_of_mem_exponentChars {e : Int} {c : Char} (h : c ∈ Layout.exponentChars e) :
    Token.isWordChar c = true := by
  rcases List.mem_cons.mp h with rfl | h
  · decide
  rcases List.mem_cons.mp h with rfl | h
  · split <;> decide
  · exact isWordChar_of_mem_toDigits h

/-- The layout adds zeros, a point and an exponent to the digits. -/
theorem Layout.isWordChar_of_mem_chars {layout : Layout} {ds : List Char} {e : Int}
    (hds : ∀ c ∈ ds, Token.isWordChar c = true) {c : Char} (h : c ∈ layout.chars ds e) :
    Token.isWordChar c = true := by
  have hzero : Token.isWordChar '0' = true := by decide
  have hpoint : Token.isWordChar '.' = true := by decide
  have hzeros : ∀ {n : Nat} {c : Char}, c ∈ List.replicate n '0' → Token.isWordChar c = true :=
    fun hc => (List.mem_replicate.mp hc).2 ▸ hzero
  unfold Layout.chars at h
  split at h
  · split at h
    · simp only [List.mem_append, List.mem_cons] at h
      rcases h with (h | h) | rfl | h
      · exact hds c (List.mem_of_mem_take h)
      · exact hzeros h
      · exact hpoint
      · split at h
        · exact List.mem_singleton.mp h ▸ hzero
        · exact hds c (List.mem_of_mem_drop h)
    · simp only [List.mem_append, List.mem_cons] at h
      rcases h with rfl | rfl | h | h
      · exact hzero
      · exact hpoint
      · exact hzeros h
      · exact hds c h
  · split at h
    · cases h
    · rcases List.mem_cons.mp h with rfl | h
      · exact hds _ List.mem_cons_self
      · exact isWordChar_of_mem_exponentChars h
    · simp only [List.mem_cons, List.mem_append] at h
      rcases h with rfl | rfl | h | h
      · exact hds _ List.mem_cons_self
      · exact hpoint
      · exact hds c (List.mem_cons_of_mem _ h)
      · exact isWordChar_of_mem_exponentChars h

theorem Double.isWordChar_of_mem_decimalChars {negative : Bool} {digits : Nat} {exponent : Int}
    {c : Char} (h : c ∈ decimalChars negative digits exponent) : Token.isWordChar c = true := by
  rcases List.mem_append.mp h with h | h
  · exact isWordChar_of_mem_sign h
  · refine Layout.isWordChar_of_mem_chars (fun c hc => ?_) h
    have hmem := List.mem_reverse.mp ((List.dropWhile_sublist _).mem (List.mem_reverse.mp hc))
    exact isWordChar_of_mem_toDigits hmem

theorem Double.isWordChar_of_mem_chars {d : Double} {c : Char} (h : c ∈ d.chars) :
    Token.isWordChar c = true := by
  unfold Double.chars at h
  split at h
  · rcases List.mem_append.mp h with h | h
    · exact isWordChar_of_mem_sign h
    · have hzero : ['0', '.', '0'].all Token.isWordChar = true := by decide
      exact List.all_eq_true.mp hzero c h
  · -- which digits they are does not matter, and must not be computed here
    generalize d.shortestDecimal = decimal at h
    obtain ⟨digits, unit⟩ := decimal
    exact isWordChar_of_mem_decimalChars h

theorem isWordChar_of_mem_intChars {n : Int} {c : Char} (h : c ∈ intChars n) :
    Token.isWordChar c = true := by
  rcases List.mem_append.mp h with h | h
  · exact isWordChar_of_mem_sign h
  · exact isWordChar_of_mem_toDigits h

/-- **The text of a number is one word.** -/
theorem Number.isWordChar_of_mem_chars {n : Number} {c : Char} (h : c ∈ n.chars) :
    Token.isWordChar c = true := by
  cases n with
  | int n ge lt => exact isWordChar_of_mem_intChars h
  | float d => exact Double.isWordChar_of_mem_chars h

/-! ## Integers -/

/-- The digits of a number are digits to the end. -/
theorem Literal.digits?_toDigits (n : Nat) :
    digits? (Nat.toDigits 10 n) = some (Nat.toDigits 10 n, []) := by
  have hdigits : ∀ c ∈ Nat.toDigits 10 n, isDigit c = true := fun _ hc => isDigit_of_mem_toDigits hc
  rw [digits?, List.takeWhile_eq_self_iff.mpr hdigits, List.dropWhile_eq_nil_iff.mpr hdigits]
  cases hd : Nat.toDigits 10 n with
  | nil => exact absurd hd Nat.toDigits_ne_nil
  | cons d ds => rfl

/-- The literal of an integer: a minus sign if it is negative, and its digits. -/
theorem Literal.ofChars?_intChars (n : Int) :
    ofChars? (intChars n) = some ⟨decide (n < 0), Nat.toDigits 10 n.natAbs, none, none⟩ := by
  have hsign : sign (intChars n) = (decide (n < 0), Nat.toDigits 10 n.natAbs) := by
    unfold intChars
    split
    case isTrue hn => simp [sign, hn]
    case isFalse hn =>
      -- no digit is a minus sign
      cases hd : Nat.toDigits 10 n.natAbs with
      | nil => exact absurd hd Nat.toDigits_ne_nil
      | cons d ds =>
          have hdigit : isDigit d = true := isDigit_of_mem_toDigits (hd ▸ List.mem_cons_self)
          have hminus : d ≠ '-' := by
            rintro rfl
            cases hdigit
          simp [sign, hn, hminus]
  have hzero : ¬((Nat.toDigits 10 n.natAbs).head? = some '0' ∧ Nat.toDigits 10 n.natAbs ≠ ['0']) :=
    fun h => h.2 (toDigits_eq_of_head?_eq_zero h.1)
  simp [ofChars?, hsign, digits?_toDigits, hzero, fraction?, exponent?]

/-- **An integer is read as the integer that was written.** -/
theorem Number.ofChars?_chars_int (n : Int) (ge : -9223372036854775808 ≤ n)
    (lt : n < 18446744073709551616) :
    Number.ofChars? (Number.int n ge lt).chars = some (.int n ge lt) := by
  let literal : Literal := ⟨decide (n < 0), Nat.toDigits 10 n.natAbs, none, none⟩
  have hwhole : literal.wholeNumber = n.natAbs := Nat.ofDigitChars_ten_toDigits
  have hint : literal.toInt? = some n := by
    unfold Literal.toInt?
    have hinteger : literal.isInteger = true := rfl
    rw [hwhole, if_pos hinteger]
    by_cases hn : n < 0
    · have hne : n.natAbs ≠ 0 := by omega
      have hvalue : -(n.natAbs : Int) = n := by omega
      rw [if_pos (decide_eq_true hn), if_neg hne, hvalue]
    · have hvalue : (n.natAbs : Int) = n := by omega
      rw [if_neg (by simpa [literal] using hn), hvalue]
  have hnumber : literal.toNumber? = some (.int n ge lt) := by
    simp only [Literal.toNumber?, hint, ge, lt, and_self, dif_pos]
  show (Literal.ofChars? (intChars n)).bind Literal.toNumber? = _
  rw [Literal.ofChars?_intChars, Option.bind_some, hnumber]

end JsonProjection.Json
