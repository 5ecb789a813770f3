/-
# `JsonProjection.Proofs.Command.Agreement` -- the ways in agree.

A projection can be asked for on the command line, with fragments as words or as one JSON text, and by a call,
with a JSON text for the document and one for the fragments.  Each way checks its parts in an order of its own
and has its own way to fail, but they succeed together and give the same document.  They are compared through
`projectText`: a command line prints what the fragments make of the input text, and so does a call with the array
of the fragments.

There is one exception.  An argument that holds no fragment, such as `[[]]`, selects nothing in a call, while the
command line takes it for no argument at all and prints the document as it is.
-/
import JsonProjection.Proofs.Command.Project
import JsonProjection.Proofs.Json.Signed
import JsonProjection.Proofs.Json.Read
import JsonProjection.Proofs.Json.RoundTrip

namespace JsonProjection.Command

open JsonProjection.Projection

/-! ## Command lines -/

/-- The word that asks for a mode. -/
def modeWords : Mode → List String
  | .strict => []
  | .absent => ["--absent"]

/-- The command line with fragments as words. -/
def fragmentWords (mode : Mode) (fragments : List String) : List String :=
  "project" :: (modeWords mode ++ "--" :: fragments)

/-- The command line with one argument as JSON text. -/
def argumentWords (mode : Mode) (argument : String) : List String :=
  "project" :: (modeWords mode ++ ["--fragments-json", argument])

theorem takeWords_modeWords (mode : Mode) (rest : List String) :
    Draft.takeWords .project .empty none (modeWords mode ++ rest) =
      Draft.takeWords .project { Draft.empty with absent := decide (mode = .absent) } none rest := by
  cases mode <;> rfl

theorem ofWords_fragmentWords (mode : Mode) (fragments : List String) :
    Request.ofWords (fragmentWords mode fragments) =
      .ok (.project (.plain mode fragments none) false) := by
  have hfragments : (fragments.reverse ++ []).reverse = fragments := by
    rw [List.append_nil, List.reverse_reverse]
  show Request.ofCommand .project false (modeWords mode ++ "--" :: fragments) = _
  rw [Request.ofCommand, takeWords_modeWords, Draft.takeWords, if_pos rfl]
  show Except.ok (Request.project { ProjectOptions.plain mode [] none with
    fragments := (fragments.reverse ++ []).reverse } false) = _
  rw [hfragments]
  rfl

/-- The argument must not look like an option. -/
theorem takeWords_argument {draft : Draft} (h : draft.fragmentsJson = none) (argument : String) :
    Draft.takeWords .project draft none ["--fragments-json", argument] =
      if isDetachedValue argument then .ok { draft with fragmentsJson := some argument }
      else .error (.error (.missingValue "fragments-json")) := by
  have hset : draft.setValue .fragmentsJson argument =
      .ok { draft with fragmentsJson := some argument } := by
    simp [Draft.setValue, h]
  have hseparator : "--fragments-json" ≠ "--" := by decide
  have hoption : draft.takeWord .project "--fragments-json" = .ok (draft, some .fragmentsJson) := rfl
  rw [Draft.takeWords, if_neg hseparator, hoption]
  show Draft.takeWords .project draft (some .fragmentsJson) [argument] = _
  rw [Draft.takeWords, hset]
  rfl

theorem ofWords_argumentWords (mode : Mode) (argument : String) :
    Request.ofWords (argumentWords mode argument) =
      if isDetachedValue argument then .ok (.project (.plain mode [] (some argument)) false)
      else .error (.missingValue "fragments-json") := by
  show Request.ofCommand .project false (modeWords mode ++ ["--fragments-json", argument]) = _
  rw [Request.ofCommand, takeWords_modeWords, takeWords_argument rfl]
  cases isDetachedValue argument <;> rfl

/-! ## Fragments as words, fragments in a list, fragments in an array -/

theorem lists_plain_none (mode : Mode) (fragments : List String) :
    (ProjectOptions.plain mode fragments none).Lists fragments :=
  ⟨[], rfl, by simp [ProjectOptions.plain]⟩

/-- The array of some fragments is read back from its text. -/
theorem ofText?_compact_str (fragments : List String) :
    Json.ofText? (Json.arr (fragments.map .str)).compact = some (.arr (fragments.map .str)) := by
  have hstr : ∀ item ∈ fragments.map Json.str, ∃ s, item = .str s := by
    intro item hitem
    obtain ⟨s, -, rfl⟩ := List.mem_map.mp hitem
    exact ⟨s, rfl⟩
  have hfits : Json.Fits Json.nestingLimit 0 (.arr (fragments.map .str)) := by
    refine Json.fits_arr_iff.mpr ⟨by decide, fun item hitem => ?_⟩
    obtain ⟨s, rfl⟩ := hstr item hitem
    exact Json.fits_of_scalar nofun rfl (by decide)
  have hnumbers : (Json.arr (fragments.map .str)).ReadableNumbers := by
    refine Json.readableNumbers_arr_iff.mpr fun item hitem d hd => ?_
    obtain ⟨s, rfl⟩ := hstr item hitem
    cases hd
  have hheight : (Json.arr (fragments.map .str)).height ≤ Json.nestingLimit :=
    Nat.zero_add (Json.height _) ▸ hfits.height_le
  rw [Json.ofText?, Json.ofTextWithin?_compact hfits.unambiguous hnumbers, if_pos hheight]

/-- A call with an array of fragments does what the list of fragments does. -/
theorem projectCall_eq_ok_iff_projectText {mode : Mode} {text argument out : String}
    {fragments : List String} (hne : fragments ≠ [])
    (hargument : Json.ofText? argument = some (.arr (fragments.map .str))) :
    projectCall mode text argument = .ok out ↔ projectText mode text fragments = .ok out := by
  have hflatten : Arguments.flatten [.arr (fragments.map .str)] = .ok fragments := by
    rw [Arguments.flatten_arr, Arguments.flatten_str]
  rw [projectCall_eq_ok_iff, projectText_eq_ok_iff]
  constructor
  · rintro ⟨value, source, result, hvalue, hsource, hresult, rfl⟩
    cases hargument.symm.trans hvalue
    obtain ⟨found, schema, hfound, hschema, rfl⟩ := projectArguments_eq_ok_iff.mp hresult
    cases hflatten.symm.trans hfound
    have htrees := trees_ne_nil_of_compileSchema hne hschema
    exact ⟨schema, source, hschema, hsource, by rw [Schema.apply_eq_fold htrees]⟩
  · rintro ⟨schema, source, hschema, hsource, rfl⟩
    have htrees := trees_ne_nil_of_compileSchema hne hschema
    exact ⟨_, source, _, hargument, hsource,
      projectArguments_eq_ok_iff.mpr ⟨fragments, schema, hflatten, hschema, rfl⟩,
      by rw [Schema.apply_eq_fold htrees]⟩

/-- **The ways in agree.**  A command line with some fragments as words, run on a text, ends with code 0
exactly when the fragments project the text, prints the output and a newline then and nothing else, and leaves
the files alone.  A call with the array of the fragments, of which there must be one, succeeds for the same texts
and with the same output; and the text of that array is read as the array. -/
theorem entries_agree (mode : Mode) (text : String) (fragments : List String) :
    (∀ directory logFilter,
        let run := runIn directory (fragmentWords mode fragments) text.toUTF8 logFilter
        (run.1.code = 0 ↔ ∃ out, projectText mode text fragments = .ok out) ∧
          (∀ out, projectText mode text fragments = .ok out → run.1.stdout = out ++ "\n") ∧
          (run.1.code ≠ 0 → run.1.code = 1 ∧ run.1.stdout = "") ∧ run.2 = directory) ∧
      (fragments ≠ [] → ∀ argument, Json.ofText? argument = some (.arr (fragments.map .str)) →
        ∀ out, projectCall mode text argument = .ok out ↔ projectText mode text fragments = .ok out) ∧
      Json.ofText? (Json.arr (fragments.map .str)).compact = some (.arr (fragments.map .str)) := by
  refine ⟨fun directory logFilter => ?_, fun hne argument hargument out =>
    projectCall_eq_ok_iff_projectText hne hargument, ofText?_compact_str fragments⟩
  have hwords := ofWords_fragmentWords mode fragments
  have hall := lists_plain_none mode fragments
  intro run
  cases htext : projectText mode text fragments with
  | ok out =>
      obtain ⟨hcode, hstdout, hafter⟩ := runIn_of_projectText directory logFilter hwords hall htext
      refine ⟨iff_of_true hcode ⟨out, rfl⟩, ?_, fun hne => absurd hcode hne, hafter⟩
      rintro _ ⟨⟩
      exact hstdout
  | error error =>
      have hnone : ∀ all out, (ProjectOptions.plain mode fragments none).Lists all →
          projectText mode text all ≠ .ok out := by
        intro all out hfound hout
        obtain rfl := hall.unique hfound
        cases htext.symm.trans hout
      obtain ⟨hcode, hstdout, hafter⟩ := runIn_of_not_projectText directory logFilter hwords hnone
      have hfails : run.1.code ≠ 0 := ne_of_eq_of_ne hcode Nat.one_ne_zero
      exact ⟨iff_of_false hfails nofun, nofun, fun _ => ⟨hcode, hstdout⟩, hafter⟩

/-- A document with one flag. -/
def flagged : Json := .obj [("a", .bool true)]

theorem ofText?_flagged : Json.ofText? "\x7b\"a\": true\x7d" = some flagged := rfl

/-- A fragment that looks like an option, and a marker. -/
theorem entries_agree_flagged :
    Json.ofText? "[\"a\", \"-b\"]" = some (.arr [.str "a", .str "-b"]) ∧
      projectCall .absent "\x7b\"a\": true\x7d" "[\"a\", \"-b\"]" =
        .ok "\x7b\"a\":true,\"-b\":null\x7d" ∧
      let run := runIn [] (fragmentWords .absent ["a", "-b"]) "\x7b\"a\": true\x7d".toUTF8 none
      run.1.code = 0 ∧ run.1.stdout = "\x7b\"a\":true,\"-b\":null\x7d\n" := by
  have htext : projectText .absent "\x7b\"a\": true\x7d" ["a", "-b"] =
      .ok "\x7b\"a\":true,\"-b\":null\x7d" :=
    projectText_eq_ok_iff.mpr
      ⟨⟨[.leaf ⟨"a", none⟩ .nil, .leaf ⟨"-b", none⟩ .nil]⟩, flagged, rfl, ofText?_flagged, by decide⟩
  have harray : Json.ofText? "[\"a\", \"-b\"]" = some (.arr [.str "a", .str "-b"]) := rfl
  obtain ⟨hruns, hcalls, -⟩ := entries_agree .absent "\x7b\"a\": true\x7d" ["a", "-b"]
  obtain ⟨hcode, hstdout, -, -⟩ := hruns [] none
  exact ⟨harray, (hcalls (by decide) _ harray _).mpr htext, hcode.mpr ⟨_, htext⟩, hstdout _ htext⟩

/-! ## One argument as JSON text -/

/-- The command line flattens its argument like any other. -/
theorem lists_plain_some_iff (mode : Mode) {argument : String} {value : Json}
    (hvalue : Json.ofText? argument = some value) {fragments : List String} :
    (ProjectOptions.plain mode [] (some argument)).Lists fragments ↔
      Arguments.flatten [value] = .ok fragments := by
  simp [ProjectOptions.Lists, ProjectOptions.Adds, ProjectOptions.plain, hvalue]

/-- A word that does not begin with a minus sign is no option. -/
theorem ofString_of_head?_ne {word : String} (h : word.toList.head? ≠ some '-') :
    Word.ofString word = .plain word := by
  unfold Word.ofString
  split
  case h_1 hw | h_2 hw | h_4 hw =>
    rw [hw] at h
    exact absurd rfl h
  case h_3 => rfl
  case h_5 => rfl

/-- The text of an argument that looks like an option is that of a number. -/
theorem exists_num_of_not_isDetachedValue {argument : String} {value : Json}
    (hvalue : Json.ofText? argument = some value) (h : isDetachedValue argument = false) :
    ∃ n, value = .num n := by
  refine Json.exists_num_of_ofText? hvalue ?_
  by_contra hsign
  rw [isDetachedValue, ofString_of_head?_ne hsign] at h
  cases h

section Argument

variable {text argument : String} {source value : Json} {fragments : List String} {schema : Schema}
variable (mode : Mode) (directory : Directory) (logFilter : Option String)

/-- A command line with an argument that looks like an option is refused. -/
theorem runIn_argumentWords_of_not_isDetachedValue (h : isDetachedValue argument = false)
    (stdin : ByteArray) :
    runIn directory (argumentWords mode argument) stdin logFilter =
      (⟨2, "", [usageText], none⟩, directory) := by
  simp only [runIn, run, respondTo, ofWords_argumentWords, h, Bool.false_eq_true, if_false,
    Response.carryOut]
  rfl

/-- A command line whose argument flattens to fragments that compile prints what the schema gives. -/
theorem runIn_argumentWords_of_compileSchema (hsource : Json.ofText? text = some source)
    (hvalue : Json.ofText? argument = some value) (hdetached : isDetachedValue argument = true)
    (hflatten : Arguments.flatten [value] = .ok fragments)
    (hschema : compileSchema fragments = .ok schema) :
    let run := runIn directory (argumentWords mode argument) text.toUTF8 logFilter
    run.1.code = 0 ∧ run.1.stdout = (schema.apply mode source).value.compact ++ "\n" ∧
      run.2 = directory := by
  have hwords := (ofWords_argumentWords mode argument).trans (if_pos hdetached)
  have htext : projectText mode text fragments = .ok (schema.apply mode source).value.compact :=
    projectText_eq_ok_iff.mpr ⟨schema, source, hschema, hsource, rfl⟩
  exact runIn_of_projectText directory logFilter hwords
    ((lists_plain_some_iff mode hvalue).mpr hflatten) htext

/-- A command line whose argument does not flatten to fragments that compile fails. -/
theorem runIn_argumentWords_of_refused (hvalue : Json.ofText? argument = some value)
    (hdetached : isDetachedValue argument = true)
    (hrefused : ¬∃ fragments schema, Arguments.flatten [value] = .ok fragments ∧
      compileSchema fragments = .ok schema) :
    let run := runIn directory (argumentWords mode argument) text.toUTF8 logFilter
    run.1.code = 1 ∧ run.1.stdout = "" ∧ run.2 = directory := by
  have hwords := (ofWords_argumentWords mode argument).trans (if_pos hdetached)
  refine runIn_of_not_projectText directory logFilter hwords fun all out hall hout => ?_
  obtain ⟨schema, -, hschema, -⟩ := projectText_eq_ok_iff.mp hout
  exact hrefused ⟨all, schema, (lists_plain_some_iff mode hvalue).mp hall, hschema⟩

/-- **One argument on the command line and in a call.**  A command line with one argument as JSON text, run on a
JSON text, ends with code 0 exactly when the call succeeds.  It prints what the call gives if the argument holds
a fragment, and the document as it is if the argument holds none. -/
theorem runIn_argumentWords (hsource : Json.ofText? text = some source)
    (hvalue : Json.ofText? argument = some value) :
    let run := runIn directory (argumentWords mode argument) text.toUTF8 logFilter
    (run.1.code = 0 ↔ ∃ result, projectArguments mode source [value] = .ok result) ∧
      (∀ result, projectArguments mode source [value] = .ok result →
        (Arguments.flatten [value] ≠ .ok [] → run.1.stdout = result.compact ++ "\n") ∧
          (Arguments.flatten [value] = .ok [] → run.1.stdout = source.compact ++ "\n")) ∧
      run.2 = directory := by
  intro run
  by_cases hok : ∃ fragments schema, Arguments.flatten [value] = .ok fragments ∧
      compileSchema fragments = .ok schema
  · obtain ⟨fragments, schema, hflatten, hschema⟩ := hok
    have hresult : projectArguments mode source [value] = .ok (schema.fold mode source).value :=
      projectArguments_eq_ok_iff.mpr ⟨fragments, schema, hflatten, hschema, rfl⟩
    have hdetached : isDetachedValue argument = true := by
      by_contra hoption
      obtain ⟨n, rfl⟩ := exists_num_of_not_isDetachedValue hvalue (Bool.eq_false_iff.mpr hoption)
      cases hflatten
    obtain ⟨hcode, hstdout, hafter⟩ := runIn_argumentWords_of_compileSchema mode directory logFilter
      hsource hvalue hdetached hflatten hschema
    refine ⟨iff_of_true hcode ⟨_, hresult⟩, fun result hfound => ?_, hafter⟩
    refine ⟨fun hne => ?_, fun hnil => ?_⟩
    · cases hresult.symm.trans hfound
      have hfragments : fragments ≠ [] := fun h => hne (h ▸ hflatten)
      rw [← Schema.apply_eq_fold (trees_ne_nil_of_compileSchema hfragments hschema)]
      exact hstdout
    · -- without fragments the schema has no tree, and the document is returned
      cases hflatten.symm.trans hnil
      cases hschema
      exact hstdout
  · have hfails : ∀ result, projectArguments mode source [value] ≠ .ok result := by
      intro result hresult
      obtain ⟨fragments, schema, hflatten, hschema, -⟩ := projectArguments_eq_ok_iff.mp hresult
      exact hok ⟨fragments, schema, hflatten, hschema⟩
    have hrun : run.1.code ≠ 0 ∧ run.2 = directory := by
      cases hdetached : isDetachedValue argument with
      | false =>
          have hrefused : run = (⟨2, "", [usageText], none⟩, directory) :=
            runIn_argumentWords_of_not_isDetachedValue mode directory logFilter hdetached text.toUTF8
          rw [hrefused]
          exact ⟨nofun, rfl⟩
      | true =>
          obtain ⟨hcode, -, hafter⟩ :=
            runIn_argumentWords_of_refused mode directory logFilter hvalue hdetached hok
          exact ⟨ne_of_eq_of_ne hcode Nat.one_ne_zero, hafter⟩
    exact ⟨iff_of_false hrun.1 fun ⟨result, hresult⟩ => hfails result hresult,
      fun result hresult => absurd hresult (hfails result), hrun.2⟩

end Argument

/-- An argument with two fragments and an empty list. -/
theorem runIn_argumentWords_flagged :
    (Json.ofText? "\x7b\"a\": true\x7d" = some flagged ∧
        Json.ofText? "[\"b\", [\"a->c\", []]]" =
          some (.arr [.str "b", .arr [.str "a->c", .arr []]])) ∧
      let run := runIn [] (argumentWords .absent "[\"b\", [\"a->c\", []]]")
        "\x7b\"a\": true\x7d".toUTF8 none
      run.1.code = 0 ∧ run.1.stdout = "\x7b\"b\":null,\"c\":true\x7d\n" := by
  have hvalue : Json.ofText? "[\"b\", [\"a->c\", []]]" =
      some (.arr [.str "b", .arr [.str "a->c", .arr []]]) := rfl
  have hresult : projectArguments .absent flagged [.arr [.str "b", .arr [.str "a->c", .arr []]]] =
      .ok (.obj [("b", .null), ("c", .bool true)]) := rfl
  obtain ⟨hcode, hstdout, -⟩ := runIn_argumentWords .absent [] none ofText?_flagged hvalue
  refine ⟨⟨ofText?_flagged, hvalue⟩, hcode.mpr ⟨_, hresult⟩, ?_⟩
  rw [(hstdout _ hresult).1 nofun]
  decide

/-- The exception is needed: an argument without fragments selects nothing in a call and everything on the
command line. -/
theorem not_runIn_argumentWords_prints_every_result :
    ¬ ∀ (mode : Mode) (text argument : String) (source value : Json),
      Json.ofText? text = some source → Json.ofText? argument = some value →
      ∀ result, projectArguments mode source [value] = .ok result →
        (runIn [] (argumentWords mode argument) text.toUTF8 none).1.stdout = result.compact ++ "\n" := by
  intro h
  have hvalue : Json.ofText? "[[]]" = some (.arr [.arr []]) := rfl
  have hprints := h .strict _ _ _ _ ofText?_flagged hvalue (.obj []) rfl
  have hflatten : Arguments.flatten [.arr [.arr []]] = .ok [] := rfl
  have hschema : compileSchema [] = .ok ⟨[]⟩ := rfl
  obtain ⟨-, hstdout, -⟩ := runIn_argumentWords_of_compileSchema .strict [] none
    ofText?_flagged hvalue (by decide) hflatten hschema
  exact absurd (hstdout.symm.trans hprints) (by decide)

end JsonProjection.Command
