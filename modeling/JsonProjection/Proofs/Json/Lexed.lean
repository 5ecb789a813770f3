/-
# `JsonProjection.Proofs.Json.Lexed` -- what is written is cut into the tokens that were written.

The text of a value is the text of its tokens, with nothing or with blanks between them (`Spaced`), so the lexer
must find where one ends and the next begins.  Punctuation is one character, and a string ends at its closing
quote; only a word does not tell where it ends.  But the next character of a written value never goes on with a
word, because it is a blank or begins what is no word (`Parted`).

A word is read as the token that it is (`Token.ReadsBack`) if it is no number of a document whose text stands for
another number.
-/
import Mathlib.Data.List.Chain
import JsonProjection.Json.Writer
import JsonProjection.Proofs.Json.Number
import JsonProjection.Proofs.Json.Parts
import JsonProjection.Proofs.Json.Quoted

namespace JsonProjection.Json

/-! ## Words and what follows them -/

namespace Token

/-- The tokens that are words. -/
def isWord : Token → Bool
  | .null => true
  | .bool _ => true
  | .num _ => true
  | _ => false

/-- **Read back**: a number is read as the number that was written. -/
def ReadsBack : Token → Prop
  | .num n => Number.ofChars? n.chars = some n
  | _ => True

/-- **Parted**: no word follows another. -/
def Parted (tokens : List Token) : Prop :=
  tokens.IsChain fun token next => token.isWord = true → next.isWord = false

theorem parted_cons_iff {token : Token} {rest : List Token} :
    Parted (token :: rest) ↔
      (token.isWord = true → ∀ next ∈ rest.head?, next.isWord = false) ∧ Parted rest := by
  rw [Parted, List.isChain_cons]
  exact and_congr_left fun _ => ⟨fun h hw next hn => h next hn hw, fun h next hn hw => h hw next hn⟩

/-- After what is no word anything may follow. -/
theorem Parted.cons {token : Token} {rest : List Token} (h : Parted rest)
    (hw : token.isWord = false) : Parted (token :: rest) :=
  parted_cons_iff.mpr ⟨fun hword => absurd (hword.symm.trans hw) (by decide), h⟩

/-- A word is read as the token that it is. -/
theorem ofWord?_chars {token : Token} (hw : token.isWord = true) (h : token.ReadsBack) :
    ofWord? token.chars = some token := by
  cases token with
  | null => rfl
  | bool b => cases b <;> rfl
  | num n =>
      have hback : Number.ofChars? n.chars = some n := h
      have hnot : ∀ word, Number.ofChars? word = none → n.chars ≠ word := by
        rintro word hnone rfl
        cases hback.symm.trans hnone
      show ofWord? n.chars = _
      rw [ofWord?, if_neg (hnot _ rfl), if_neg (hnot _ rfl), if_neg (hnot _ rfl), hback]
      rfl
  | _ => cases hw

/-- The characters of a word. -/
theorem isWordChar_of_mem_chars {token : Token} (hw : token.isWord = true) {c : Char}
    (h : c ∈ token.chars) : isWordChar c = true := by
  have hnull : Token.null.chars.all isWordChar = true := by decide
  have htrue : (Token.bool true).chars.all isWordChar = true := by decide
  have hfalse : (Token.bool false).chars.all isWordChar = true := by decide
  cases token with
  | null => exact List.all_eq_true.mp hnull c h
  | bool b => cases b with
    | true => exact List.all_eq_true.mp htrue c h
    | false => exact List.all_eq_true.mp hfalse c h
  | num n => exact Number.isWordChar_of_mem_chars h
  | _ => cases hw

/-- A word has a first character. -/
theorem chars_ne_nil {token : Token} (h : token.ReadsBack) : token.chars ≠ [] := by
  cases token with
  | bool b => cases b <;> exact List.cons_ne_nil _ _
  | num n =>
      intro hnil
      have hback : Number.ofChars? n.chars = some n := h
      have hchars : n.chars = [] := hnil
      rw [hchars] at hback
      cases hback
  | _ => exact List.cons_ne_nil _ _

/-- What is no word begins with a character that goes on with no word. -/
theorem exists_chars_eq_cons {token : Token} (hw : token.isWord = false) :
    ∃ c cs, token.chars = c :: cs ∧ isWordChar c = false := by
  cases token with
  | null | bool | num => cases hw
  | str s => exact ⟨'"', _, rfl, by decide⟩
  | _ => exact ⟨_, _, rfl, by decide⟩

/-- A blank goes on with no word. -/
theorem isWordChar_of_isBlank {c : Char} (h : Text.isBlank c = true) : isWordChar c = false := by
  simp only [Text.isBlank, Bool.or_eq_true, decide_eq_true_eq] at h
  rcases h with ((rfl | rfl) | rfl) | rfl <;> decide

/-! ## Blanks between tokens -/

/-- **A text spells tokens**: it holds their characters in order, and nothing else but blanks before, between and
after them. -/
inductive Spaced : List Token → List Char → Prop where
  | nil : Spaced [] []
  | blank {tokens : List Token} {cs : List Char} {c : Char} (hc : Text.isBlank c = true)
      (h : Spaced tokens cs) : Spaced tokens (c :: cs)
  | token {tokens : List Token} {cs : List Char} (token : Token) (h : Spaced tokens cs) :
      Spaced (token :: tokens) (token.chars ++ cs)

namespace Spaced

variable {tokens more : List Token} {cs ds : List Char}

theorem append (h : Spaced tokens cs) (hmore : Spaced more ds) : Spaced (tokens ++ more) (cs ++ ds) := by
  induction h with
  | nil => exact hmore
  | blank hc _ ih => exact .blank hc ih
  | token token _ ih =>
      rw [List.cons_append, List.append_assoc]
      exact .token token ih

theorem single (token : Token) : Spaced [token] token.chars := by
  simpa using Spaced.nil.token token

/-- Tokens with nothing between them. -/
theorem flatMap_chars (tokens : List Token) : Spaced tokens (tokens.flatMap Token.chars) := by
  induction tokens with
  | nil => exact .nil
  | cons token rest ih => exact .token token ih

/-- Blanks spell nothing. -/
theorem of_blanks (h : ∀ c ∈ cs, Text.isBlank c = true) : Spaced [] cs := by
  induction cs with
  | nil => exact .nil
  | cons c cs ih =>
      obtain ⟨hc, hcs⟩ := List.forall_mem_cons.mp h
      exact .blank hc (ih hcs)

/-- The text begins with no character of a word if the first token is no word. -/
theorem isWordChar_head? (h : Spaced tokens cs) (htokens : ∀ token ∈ tokens.head?, token.isWord = false) :
    ∀ c ∈ cs.head?, isWordChar c = false := by
  cases h with
  | nil => exact nofun
  | blank hc =>
      rintro _ ⟨⟩
      exact isWordChar_of_isBlank hc
  | token token =>
      obtain ⟨c, cs, hchars, hc⟩ := exists_chars_eq_cons (htokens token rfl)
      rw [hchars]
      rintro _ ⟨⟩
      exact hc

end Spaced

end Token

/-! ## The lexer -/

namespace Lexer

/-- The tokens of the rest of a text. -/
def read? (lexer : Lexer) (cs : List Char) : Option (List Token) := (lexer.run? cs).bind finish?

theorem read?_cons (lexer : Lexer) (c : Char) (cs : List Char) :
    lexer.read? (c :: cs) = (lexer.step? c).bind fun next => next.read? cs := by
  rw [read?, run?]
  cases lexer.step? c <;> rfl

variable {done : List Token}

/-! ### Strings -/

/-- Inside a string a character that is neither quote nor backslash stands for itself. -/
theorem read?_plain {c : Char} (hc : c ≠ '"' ∧ c ≠ '\\') (newest rest : List Char) :
    read? ⟨done, .string newest false⟩ (c :: rest) =
      read? ⟨done, .string (c :: newest) false⟩ rest := by
  rw [read?_cons]
  simp [step?, hc.1, hc.2]

/-- The digits of control characters are plain. -/
theorem plain_digitChar : ∀ n < 0x20,
    (Nat.digitChar (n / 16) ≠ '"' ∧ Nat.digitChar (n / 16) ≠ '\\') ∧
      Nat.digitChar (n % 16) ≠ '"' ∧ Nat.digitChar (n % 16) ≠ '\\' := by decide

/-- Inside a string a character that was written is passed over, its escape included. -/
theorem read?_encodeChar (newest : List Char) (c : Char) (rest : List Char) :
    read? ⟨done, .string newest false⟩ (Quoted.encodeChar c ++ rest) =
      read? ⟨done, .string ((Quoted.encodeChar c).reverse ++ newest) false⟩ rest := by
  unfold Quoted.encodeChar
  cases hletter : Quoted.escapeLetter? c with
  | some letter => rfl
  | none =>
      by_cases hcontrol : c.toNat < 0x20
      · obtain ⟨hfirst, hsecond⟩ := plain_digitChar c.toNat hcontrol
        have hzero : '0' ≠ '"' ∧ '0' ≠ '\\' := by decide
        simp only [hcontrol, if_true]
        -- the backslash and the letter, and then four plain digits
        show read? ⟨done, .string ('u' :: '\\' :: newest) false⟩ ('0' :: '0' :: _ :: _ :: rest) = _
        rw [read?_plain hzero, read?_plain hzero, read?_plain hfirst, read?_plain hsecond]
        rfl
      · simp only [hcontrol, if_false]
        exact read?_plain (Quoted.ne_of_escapeLetter?_eq_none hletter) newest rest

theorem read?_encode (newest : List Char) (cs rest : List Char) :
    read? ⟨done, .string newest false⟩ (Quoted.encode cs ++ rest) =
      read? ⟨done, .string ((Quoted.encode cs).reverse ++ newest) false⟩ rest := by
  induction cs generalizing newest with
  | nil => rfl
  | cons c cs ih =>
      have hencode : Quoted.encode (c :: cs) = Quoted.encodeChar c ++ Quoted.encode cs := rfl
      rw [hencode, List.append_assoc, read?_encodeChar, ih, List.reverse_append, List.append_assoc]

/-- A string that was written is read up to its closing quote. -/
theorem read?_quoted (s : String) (rest : List Char) :
    read? ⟨done, .between⟩ (Token.quoted s ++ rest) = read? ⟨.str s :: done, .between⟩ rest := by
  have hclose : step? ⟨done, .string (Quoted.encode s.toList).reverse false⟩ '"' =
      some ⟨.str s :: done, .between⟩ := by
    simp [step?, Quoted.decode_encode]
  show read? ⟨done, .string [] false⟩ (Quoted.encode s.toList ++ ['"'] ++ rest) = _
  rw [List.append_assoc, read?_encode, List.append_nil, List.singleton_append, read?_cons, hclose]
  rfl

/-! ### Words -/

/-- The characters of a word are gathered. -/
theorem read?_gather {word : List Char} (hword : ∀ c ∈ word, Token.isWordChar c = true)
    (newest rest : List Char) :
    read? ⟨done, .word newest⟩ (word ++ rest) = read? ⟨done, .word (word.reverse ++ newest)⟩ rest := by
  induction word generalizing newest with
  | nil => rfl
  | cons c cs ih =>
      obtain ⟨hc, hcs⟩ := List.forall_mem_cons.mp hword
      have hstep : step? ⟨done, .word newest⟩ c = some ⟨done, .word (c :: newest)⟩ := by
        simp [step?, hc]
      rw [List.cons_append, read?_cons, hstep, Option.bind_some, ih hcs, List.reverse_cons,
        List.append_assoc, List.singleton_append]

/-- A word begins where a character of a word stands. -/
theorem stepBetween?_of_isWordChar {c : Char} (h : Token.isWordChar c = true) :
    stepBetween? ⟨done, .between⟩ c = some ⟨done, .word [c]⟩ := by
  have hblank : Text.isBlank c = false := by
    refine Bool.eq_false_iff.mpr fun hb => ?_
    cases h.symm.trans (Token.isWordChar_of_isBlank hb)
  have hquote : c ≠ '"' := by
    rintro rfl
    cases h
  simp [stepBetween?, hblank, hquote, h]

/-- A word ends before a character that is none of a word, and at the end of the text. -/
theorem read?_endWord {newest rest : List Char} {token : Token}
    (htoken : Token.ofWord? newest.reverse = some token)
    (hrest : ∀ c ∈ rest.head?, Token.isWordChar c = false) :
    read? ⟨done, .word newest⟩ rest = read? ⟨token :: done, .between⟩ rest := by
  have hend : endWord? ⟨done, .word newest⟩ = some ⟨token :: done, .between⟩ := by
    simp [endWord?, htoken]
  cases rest with
  | nil => simp [read?, run?, finish?, endWord?, htoken]
  | cons c cs =>
      have hc : Token.isWordChar c = false := hrest c rfl
      have hstep : step? ⟨done, .word newest⟩ c = step? ⟨token :: done, .between⟩ c := by
        simp [step?, hc, hend]
      rw [read?_cons, read?_cons, hstep]

theorem read?_word {word rest : List Char} {token : Token} (hne : word ≠ [])
    (hword : ∀ c ∈ word, Token.isWordChar c = true) (htoken : Token.ofWord? word = some token)
    (hrest : ∀ c ∈ rest.head?, Token.isWordChar c = false) :
    read? ⟨done, .between⟩ (word ++ rest) = read? ⟨token :: done, .between⟩ rest := by
  cases word with
  | nil => exact absurd rfl hne
  | cons c cs =>
      obtain ⟨hc, hcs⟩ := List.forall_mem_cons.mp hword
      have hstep : step? ⟨done, .between⟩ c = some ⟨done, .word [c]⟩ := stepBetween?_of_isWordChar hc
      rw [List.cons_append, read?_cons, hstep, Option.bind_some, read?_gather hcs]
      refine read?_endWord ?_ hrest
      rw [List.reverse_append, List.reverse_reverse]
      exact htoken

/-! ### Rows of tokens -/

/-- **A token** is read where a word is not gone on with. -/
theorem read?_chars {token : Token} (hback : token.ReadsBack) {rest : List Char}
    (hrest : token.isWord = true → ∀ c ∈ rest.head?, Token.isWordChar c = false) :
    read? ⟨done, .between⟩ (token.chars ++ rest) = read? ⟨token :: done, .between⟩ rest := by
  cases hw : token.isWord with
  | true =>
      exact read?_word (Token.chars_ne_nil hback) (fun _ hc => Token.isWordChar_of_mem_chars hw hc)
        (Token.ofWord?_chars hw hback) (hrest hw)
  | false =>
      cases token with
      | null | bool | num => cases hw
      | str s => exact read?_quoted s rest
      | _ => rfl

/-- **Tokens that are parted** are read as they were written, whatever blanks stand between them. -/
theorem read?_of_spaced {tokens : List Token} {cs : List Char} (h : Token.Spaced tokens cs)
    (hparted : Token.Parted tokens) (hback : ∀ token ∈ tokens, token.ReadsBack) :
    read? ⟨done, .between⟩ cs = some (done.reverse ++ tokens) := by
  induction h generalizing done with
  | nil => simp [read?, run?, finish?, endWord?]
  | blank hc _ ih =>
      have hstep : step? ⟨done, .between⟩ _ = some ⟨done, .between⟩ := if_pos hc
      rw [read?_cons, hstep, Option.bind_some, ih hparted hback]
  | token token hspaced ih =>
      obtain ⟨hnext, hrest⟩ := Token.parted_cons_iff.mp hparted
      obtain ⟨htoken, hrestback⟩ := List.forall_mem_cons.mp hback
      rw [read?_chars htoken fun hw => hspaced.isWordChar_head? (hnext hw), ih hrest hrestback,
        List.reverse_cons, List.append_assoc, List.singleton_append]

end Lexer

end JsonProjection.Json
