/-
# `JsonProjection.Proofs.Json.Quoted` -- what is written between quotes is read back.

Writing escapes the characters one by one, and every character becomes one piece again: itself, or the unit of a
control character that has no letter.  No such unit is a surrogate, so joining the pieces joins nothing, and
decoding what was encoded gives back the text (`decode_encode`).
-/
import JsonProjection.Json.Quoted

namespace JsonProjection.Json.Quoted

/-! ## One character -/

/-- What has a letter is a quote, a backslash or a control character, and the letter stands for it. -/
theorem ofEscapeLetter?_of_escapeLetter? {c letter : Char} (h : escapeLetter? c = some letter) :
    letter ≠ 'u' ∧ ofEscapeLetter? letter = some c := by
  unfold escapeLetter? at h
  -- one case for each character that has a letter
  repeat' split at h
  all_goals cases h
  all_goals
    subst_vars
    decide

/-- The quote and the backslash have letters. -/
theorem ne_of_escapeLetter?_eq_none {c : Char} (h : escapeLetter? c = none) :
    c ≠ '"' ∧ c ≠ '\\' := by
  constructor <;> rintro rfl <;> cases h

/-- The four digits of a control character are its number. -/
theorem unit?_control : ∀ n < 0x20,
    unit? '0' '0' (Nat.digitChar (n / 16)) (Nat.digitChar (n % 16)) = some n := by decide

/-- The piece that a character becomes when it has been written and is read. -/
def pieceOf (c : Char) : Piece :=
  if escapeLetter? c = none ∧ c.toNat < 0x20 then .unit c.toNat else .char c

theorem pieces?_encodeChar (c : Char) (rest : List Char) :
    pieces? (encodeChar c ++ rest) = (pieces? rest).map (pieceOf c :: ·) := by
  unfold encodeChar pieceOf
  cases hletter : escapeLetter? c with
  | some letter =>
      obtain ⟨hu, hc⟩ := ofEscapeLetter?_of_escapeLetter? hletter
      show pieces? ('\\' :: letter :: rest) = _
      rw [pieces?, hc]
      · cases pieces? rest <;> rfl
      · exact fun _ _ _ _ _ he _ => hu he
  | none =>
      by_cases hcontrol : c.toNat < 0x20
      · simp only [hcontrol, if_true, and_self]
        show pieces? ('\\' :: 'u' :: '0' :: '0' :: _ :: _ :: rest) = _
        rw [pieces?, unit?_control c.toNat hcontrol]
        cases pieces? rest <;> rfl
      · obtain ⟨-, hbackslash⟩ := ne_of_escapeLetter?_eq_none hletter
        have hread : pieces? (c :: rest) =
            if c = '\\' ∨ c.toNat < 0x20 then none else (pieces? rest).map (.char c :: ·) := by
          rw [pieces?] <;> simp [hbackslash]
        simp only [hcontrol, if_false, and_false]
        show pieces? (c :: rest) = _
        rw [hread, if_neg (by simp [hbackslash, hcontrol])]

/-! ## A whole text -/

theorem pieces?_encode (cs : List Char) : pieces? (encode cs) = some (cs.map pieceOf) := by
  induction cs with
  | nil => rfl
  | cons c cs ih =>
      rw [encode, List.flatMap_cons, pieces?_encodeChar]
      show (pieces? (encode cs)).map _ = _
      rw [ih]
      rfl

/-- A unit below the surrogates stands alone. -/
theorem join?_unit {n : Nat} (h : n < 0xD800) (rest : List Piece) :
    join? (.unit n :: rest) = (join? rest).map (Char.ofNat n :: ·) := by
  have hhigh : isHigh n = false := by simp [isHigh]; omega
  have hlow : isLow n = false := by simp [isLow]; omega
  cases rest with
  | nil => simp [join?, hhigh, hlow]
  | cons piece rest => cases piece <;> simp [join?, hhigh, hlow]

theorem join?_pieceOf (c : Char) (rest : List Piece) :
    join? (pieceOf c :: rest) = (join? rest).map (c :: ·) := by
  unfold pieceOf
  split
  case isTrue h => rw [join?_unit (by omega), Char.ofNat_toNat]
  case isFalse => rfl

theorem join?_map_pieceOf (cs : List Char) : join? (cs.map pieceOf) = some cs := by
  induction cs with
  | nil => rfl
  | cons c cs ih =>
      rw [List.map_cons, join?_pieceOf, ih]
      rfl

/-- **What is written between quotes is read back.** -/
theorem decode_encode (cs : List Char) : decode (encode cs) = some cs := by
  rw [decode, pieces?_encode, Option.bind_some, join?_map_pieceOf]

end JsonProjection.Json.Quoted
