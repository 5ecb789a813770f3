/-
# `JsonProjection.Proofs.Command.Failure` -- failures are told apart by their texts.

The text of a failure says what was being done, which may name a path or a fragment, and below that the cause.
Nothing keeps a path from looking like the rest of a text.  But the lines of a cause are indented, so no blank line
is part of it: the last blank line of a text is the one between the two parts, and both can be read off the text
(`Failure.text_injective`).

What was being done and the messages begin with fixed words, by which their kinds are told apart (`opening`).
-/
import JsonProjection.Command.Run
import Mathlib.Data.List.Chain

namespace JsonProjection

/-! ## Texts that begin alike -/

namespace Text

/-- Texts that begin with as many characters are equal part by part. -/
theorem append_inj {first second rest rest' : String} (h : first ++ rest = second ++ rest')
    (hlength : first.toList.length = second.toList.length) : first = second ∧ rest = rest' := by
  have hchars : first.toList ++ rest.toList = second.toList ++ rest'.toList := by
    rw [← String.toList_append, h, String.toList_append]
  obtain ⟨hfirst, hrest⟩ := List.append_inj hchars hlength
  exact ⟨String.toList_inj.mp hfirst, String.toList_inj.mp hrest⟩

theorem append_cancel {first rest rest' : String} (h : first ++ rest = first ++ rest') : rest = rest' :=
  (append_inj h rfl).2

end Text

/-! ## Messages -/

namespace SyntaxError

/-- What was met can be read off its text. -/
theorem foundText_injective {found other : Option Char} (h : foundText found = foundText other) :
    found = other := by
  have hchars := congrArg String.toList h
  cases found with
  | none =>
      cases other with
      | none => rfl
      | some d => simp [foundText] at hchars
  | some c =>
      cases other with
      | none => simp [foundText] at hchars
      | some d => simpa [foundText] using hchars

namespace Cause

/-- How the text of a cause begins. -/
def opening : Cause → String
  | .expectedName _ => "expected pr"
  | .expectedSeparator _ => "expected ',"
  | .expectedBlock _ => "expected '\x7b"
  | .repeatedArrow => "only one '-"
  | .unclosedBlock => "unclosed '\x7b"
  | .unmatchedBrace => "unmatched '"
  | .nestedTooDeeply => "schema nest"

theorem length_opening (cause : Cause) : cause.opening.toList.length = 11 := by
  cases cause <;> simp only [opening] <;> rfl

theorem exists_detail_eq (cause : Cause) : ∃ rest, cause.detail = cause.opening ++ rest := by
  cases cause with
  | expectedName found => exact ⟨"operty name, " ++ foundText found, by rw [← String.append_assoc]; rfl⟩
  | expectedSeparator found =>
      exact ⟨"' or end of entry, " ++ foundText (some found), by rw [← String.append_assoc]; rfl⟩
  | expectedBlock found => exact ⟨"' after ':', " ++ foundText found, by rw [← String.append_assoc]; rfl⟩
  | repeatedArrow => exact ⟨">' is allowed per key", rfl⟩
  | unclosedBlock => exact ⟨"'", rfl⟩
  | unmatchedBrace => exact ⟨"\x7d'", rfl⟩
  | nestedTooDeeply => exact ⟨"ed too deeply", rfl⟩

/-- **The causes are told apart by their texts.** -/
theorem detail_injective {cause other : Cause} (h : cause.detail = other.detail) : cause = other := by
  obtain ⟨rest, hrest⟩ := cause.exists_detail_eq
  obtain ⟨rest', hrest'⟩ := other.exists_detail_eq
  have hopening : cause.opening = other.opening := by
    refine (Text.append_inj (hrest.symm.trans (h.trans hrest')) ?_).1
    rw [length_opening, length_opening]
  -- causes that begin alike are of one kind, and what was met follows
  cases cause <;> cases other <;> first
    | rfl
    | exact absurd hopening (by simp only [opening]; decide)
    | skip
  case expectedName.expectedName found found' =>
    rw [foundText_injective (Text.append_cancel h)]
  case expectedSeparator.expectedSeparator found found' =>
    rw [Option.some.inj (foundText_injective (Text.append_cancel h))]
  case expectedBlock.expectedBlock found found' =>
    rw [foundText_injective (Text.append_cancel h)]

end Cause

end SyntaxError

/-- A number can be read off before words that begin with no digit. -/
theorem Text.toString_append_inj {n m : Nat} {words rest rest' : String} {mark : Char} {more : List Char}
    (hwords : words.toList = mark :: more) (hmark : mark.isDigit = false)
    (h : toString n ++ (words ++ rest) = toString m ++ (words ++ rest')) : n = m ∧ rest = rest' := by
  have hdigits : ∀ k, mark ∉ Nat.toDigits 10 k := by
    intro k hmem
    cases hmark.symm.trans (Nat.isDigit_of_mem_toDigits (by decide) (by decide) hmem)
  have hchars : Nat.toDigits 10 n ++ mark :: (more ++ rest.toList) =
      Nat.toDigits 10 m ++ mark :: (more ++ rest'.toList) := by
    have hlist := congrArg String.toList h
    simpa only [String.toList_append, Nat.toString_eq_repr, Nat.toList_repr, hwords, List.cons_append]
      using hlist
  obtain ⟨hn, hrest⟩ := Text.append_mark_inj (hdigits n) (hdigits m) hchars
  refine ⟨?_, String.toList_inj.mp (List.append_cancel_left hrest)⟩
  calc n = Nat.ofDigitChars 10 (Nat.toDigits 10 n) 0 := Nat.ofDigitChars_ten_toDigits.symm
    _ = m := by rw [hn, Nat.ofDigitChars_ten_toDigits]

/-- **Syntax errors are told apart by their messages.** -/
theorem SyntaxError.message_injective {error other : SyntaxError} (h : error.message = other.message) :
    error = other := by
  have hwords : ": ".toList = [':', ' '] := rfl
  unfold message at h
  rw [String.append_assoc, String.append_assoc, String.append_assoc, String.append_assoc] at h
  obtain ⟨hoffset, hdetail⟩ := Text.toString_append_inj hwords rfl (Text.append_cancel h)
  calc error = ⟨error.offset, error.cause⟩ := rfl
    _ = ⟨other.offset, other.cause⟩ := by rw [hoffset, Cause.detail_injective hdetail]
    _ = other := rfl

theorem ArgumentError.Kind.text_injective {kind other : Kind} (h : kind.text = other.text) : kind = other := by
  revert h
  cases kind <;> cases other <;> decide

/-- **Refused arguments are told apart by their messages.** -/
theorem ArgumentError.message_injective {error other : ArgumentError} (h : error.message = other.message) :
    error = other := by
  have hwords : " is ".toList = [' ', 'i', 's', ' '] := rfl
  unfold message at h
  rw [String.append_assoc, String.append_assoc, String.append_assoc, String.append_assoc] at h
  obtain ⟨hindex, hfound⟩ := Text.toString_append_inj hwords rfl (Text.append_cancel h)
  calc error = ⟨error.index, error.found⟩ := rfl
    _ = ⟨other.index, other.found⟩ := by rw [hindex, Kind.text_injective hfound]
    _ = other := rfl

namespace Command.Failure

/-! ## What was being done -/

/-- How the text of what was being done begins. -/
def opening : Failure → String
  | .fragmentsJsonMalformed _ => "--fragments-json"
  | .fragmentsJsonInvalid _ => "Invalid --fragme"
  | .schemaInvalid _ => "Failed to compil"
  | .inputUnreadable _ _ => "Failed to read f"
  | .inputMalformed _ => "Failed to parse "
  | .outputUnwritable _ _ => "Failed to write "
  | .fragmentInvalid _ _ => "Invalid schema: "

theorem length_opening (failure : Failure) : failure.opening.toList.length = 16 := by
  cases failure <;> simp only [opening] <;> rfl

theorem exists_context_eq (failure : Failure) : ∃ rest, failure.context = failure.opening ++ rest := by
  cases failure with
  | fragmentsJsonMalformed => exact ⟨" is not valid JSON", rfl⟩
  | fragmentsJsonInvalid => exact ⟨"nts-json", rfl⟩
  | schemaInvalid => exact ⟨"e schema", rfl⟩
  | inputUnreadable path =>
      cases path with
      | none => exact ⟨"rom stdin", rfl⟩
      | some path => exact ⟨"ile: " ++ path, by rw [← String.append_assoc]; rfl⟩
  | inputMalformed => exact ⟨"input JSON", rfl⟩
  | outputUnwritable path => exact ⟨"file: " ++ path, by rw [← String.append_assoc]; rfl⟩
  | fragmentInvalid fragment => exact ⟨fragment, rfl⟩

/-- Failures at the same work begin alike. -/
theorem opening_eq_of_context_eq {failure other : Failure} (h : failure.context = other.context) :
    failure.opening = other.opening := by
  obtain ⟨rest, hrest⟩ := failure.exists_context_eq
  obtain ⟨rest', hrest'⟩ := other.exists_context_eq
  refine (Text.append_inj (hrest.symm.trans (h.trans hrest')) ?_).1
  rw [length_opening, length_opening]

/-- No file is the standard input. -/
theorem readFile_ne_readStdin (path : String) :
    "Failed to read file: " ++ path ≠ "Failed to read from stdin" := by
  intro h
  have hsplit : "Failed to read fi" ++ ("le: " ++ path) = "Failed to read fr" ++ "om stdin" := by
    rw [← String.append_assoc]
    exact h
  have hlength : "Failed to read fi".toList.length = "Failed to read fr".toList.length := by decide
  exact absurd (Text.append_inj hsplit hlength).1 (by decide)

/-- Whether the input is a file, and which, can be read off. -/
theorem eq_of_context_inputUnreadable_eq {path path' : Option String} {cause cause' : String}
    (h : (inputUnreadable path cause).context = (inputUnreadable path' cause').context) : path = path' := by
  cases path with
  | none =>
      cases path' with
      | none => rfl
      | some path' =>
          unfold context at h
          exact absurd h.symm (readFile_ne_readStdin path')
  | some path =>
      cases path' with
      | none =>
          unfold context at h
          exact absurd h (readFile_ne_readStdin path)
      | some path' =>
          unfold context at h
          rw [Text.append_cancel h]

/-- **A failure is given by what was being done and the cause.** -/
theorem eq_of_context_eq_of_cause_eq {failure other : Failure} (hcontext : failure.context = other.context)
    (hcause : failure.cause = other.cause) : failure = other := by
  have hopening := opening_eq_of_context_eq hcontext
  -- failures that begin alike are of one kind
  cases failure <;> cases other <;> first
    | exact absurd hopening (by simp only [opening]; decide)
    | skip
  case fragmentsJsonMalformed.fragmentsJsonMalformed => exact congrArg _ hcause
  case fragmentsJsonInvalid.fragmentsJsonInvalid =>
    exact congrArg _ (ArgumentError.message_injective hcause)
  case schemaInvalid.schemaInvalid => exact congrArg _ (SyntaxError.message_injective hcause)
  case inputUnreadable.inputUnreadable =>
    exact congr (congrArg _ (eq_of_context_inputUnreadable_eq hcontext)) hcause
  case inputMalformed.inputMalformed => exact congrArg _ hcause
  case outputUnwritable.outputUnwritable => exact congr (congrArg _ (Text.append_cancel hcontext)) hcause
  case fragmentInvalid.fragmentInvalid =>
    exact congr (congrArg _ (Text.append_cancel hcontext)) (SyntaxError.message_injective hcause)

/-! ## The two parts of a text -/

/-- No blank line. -/
def NoBlankLine (cs : List Char) : Prop := cs.IsChain fun c d => ¬(c = '\n' ∧ d = '\n')

theorem indented_cons (c : Char) (cs : List Char) :
    indented (c :: cs) =
      (if c = '\n' then ['\n', ' ', ' ', ' ', ' '] else [c]) ++ indented cs := rfl

/-- Lines that are indented are not blank. -/
theorem noBlankLine_indented (cs : List Char) : NoBlankLine (indented cs) := by
  induction cs with
  | nil => exact List.isChain_nil
  | cons c cs ih =>
      rw [indented_cons]
      by_cases hc : c = '\n'
      · simp only [NoBlankLine, hc, if_true, List.cons_append, List.nil_append, List.isChain_cons_cons]
        refine ⟨by decide, by decide, by decide, by decide, ?_⟩
        exact List.isChain_cons.mpr ⟨fun _ _ h => absurd h.1 (by decide), ih⟩
      · rw [if_neg hc, List.singleton_append]
        exact List.isChain_cons.mpr ⟨fun _ _ h => hc h.1, ih⟩

theorem indented_injective {cs ds : List Char} (h : indented cs = indented ds) : cs = ds := by
  induction cs generalizing ds with
  | nil =>
      cases ds with
      | nil => rfl
      | cons d ds => by_cases hd : d = '\n' <;> simp [indented, hd] at h
  | cons c cs ih =>
      cases ds with
      | nil => by_cases hc : c = '\n' <;> simp [indented, hc] at h
      | cons d ds =>
          rw [indented_cons, indented_cons] at h
          -- the first characters are equal, so both are line ends or neither is
          by_cases hc : c = '\n'
          · by_cases hd : d = '\n'
            · subst hc hd
              rw [ih (List.append_cancel_left h)]
            · rw [if_pos hc, if_neg hd] at h
              exact absurd (List.cons.inj h).1.symm hd
          · by_cases hd : d = '\n'
            · rw [if_neg hc, if_pos hd] at h
              exact absurd (List.cons.inj h).1 hc
            · rw [if_neg hc, if_neg hd] at h
              obtain ⟨rfl, hrest⟩ := List.cons.inj h
              rw [ih hrest]

/-- What stands between the two parts, from the first of its two line ends. -/
def between : List Char := "\n\nCaused by:\n    ".toList

/-- Behind the first line end of the second part there is no blank line. -/
theorem eq_nil_of_between_append_eq {skipped rest rest' : List Char} (hrest : NoBlankLine rest)
    (h : between ++ rest = skipped ++ (between ++ rest')) : skipped = [] := by
  cases skipped with
  | nil => rfl
  | cons c skipped =>
      have htail : "\nCaused by:\n    ".toList ++ rest = skipped ++ (between ++ rest') :=
        (List.cons.inj h).2
      have hline : NoBlankLine ("\nCaused by:\n    ".toList ++ rest) := by
        refine List.isChain_append.mpr ⟨by decide, hrest, ?_⟩
        rintro _ ⟨⟩ d _ ⟨hspace, -⟩
        cases hspace
      rw [NoBlankLine, htail] at hline
      have hblank := (List.isChain_append.mp (List.isChain_append.mp hline).2.1).1
      cases (List.isChain_cons_cons.mp hblank).1 ⟨rfl, rfl⟩

/-- **The two parts of a text** can be read off it. -/
theorem parts_inj {first first' rest rest' : List Char} (hrest : NoBlankLine rest)
    (hrest' : NoBlankLine rest') (h : first ++ (between ++ rest) = first' ++ (between ++ rest')) :
    first = first' ∧ rest = rest' := by
  have hfirst : first = first' := by
    rcases List.append_eq_append_iff.mp h with ⟨skipped, rfl, hskipped⟩ | ⟨skipped, rfl, hskipped⟩
    · rw [eq_nil_of_between_append_eq hrest hskipped, List.append_nil]
    · rw [eq_nil_of_between_append_eq hrest' hskipped, List.append_nil]
  subst hfirst
  exact ⟨rfl, List.append_cancel_left (List.append_cancel_left h)⟩

theorem toList_text (failure : Failure) :
    failure.text.toList =
      "Error: ".toList ++ (failure.context.toList ++ (between ++ indented failure.cause.toList)) := by
  simp only [text, String.toList_append, String.toList_ofList, List.append_assoc]
  rfl

/-- **Failures are told apart by their texts.** -/
theorem text_injective {failure other : Failure} (h : failure.text = other.text) : failure = other := by
  have hchars : failure.text.toList = other.text.toList := congrArg String.toList h
  rw [toList_text, toList_text] at hchars
  obtain ⟨hcontext, hcause⟩ := parts_inj (noBlankLine_indented _) (noBlankLine_indented _)
    (List.append_cancel_left hchars)
  exact eq_of_context_eq_of_cause_eq (String.toList_inj.mp hcontext)
    (String.toList_inj.mp (indented_injective hcause))

end Command.Failure

end JsonProjection
