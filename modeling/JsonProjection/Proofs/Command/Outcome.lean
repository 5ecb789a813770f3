/-
# `JsonProjection.Proofs.Command.Outcome` -- `project` does all or nothing.

A run of `project` has several steps that can fail: the text of `--fragments-json` must be JSON and flatten, all
fragments must compile, the input must be there and be JSON, and the output must be written.  `Ready` says that
none of them fails up to the output, and `Fails` which of them do, each for itself.  A run that is ready and can
write its output puts the rendered result in one place; any other run reports the first failure (`First`) and leaves
no trace beside the report.

The run is one among any files, whatever paths lead to them, and the file system may refuse any call.  What is
needed of it is that the output is an ordinary file; that a file which was opened and emptied may then turn out not to
fit is a case of its own, and the only one in which the output of a run that fails is not as it was.

Of the options only the fragments are gathered from several places; how they stand on a command line is told by
`ofWords_eq_project_iff`.
-/
import JsonProjection.Proofs.Command.Failure
import JsonProjection.Proofs.Command.Files
import JsonProjection.Proofs.Command.Lines
import JsonProjection.Proofs.Command.Project
import JsonProjection.Proofs.Json.RoundTrip

namespace JsonProjection.Command

open JsonProjection.Schema (exists_schema_iff)

variable {σ : Type} {options : ProjectOptions} {around : Surroundings σ} {list : List String}
  {source result : Json}

/-! ## What a run needs -/

/-- **A run that can give a result**: the fragments are listed and compile, and the input is JSON. -/
structure Ready (options : ProjectOptions) (around : Surroundings σ) (list : List String)
    (source : Json) : Prop where
  lists : options.Lists list
  compile : ∀ fragment ∈ list, ∃ tree, Tree.compile fragment = .ok tree
  input : ∃ text, around.Reads options text ∧ Json.ofText? text = some source

/-- **The result of a run that is ready**: what the schema of its fragments makes of its input. -/
def Result (options : ProjectOptions) (around : Surroundings σ) (result : Json) : Prop :=
  ∃ list source schema, Ready options around list source ∧ (Schema.compile list).value = .ok schema ∧
    (schema.apply options.mode source).value = result

/-- The attempt to write a text to a path. -/
def Surroundings.write (around : Surroundings σ) (path text : String) : Except String Unit × σ :=
  around.fileSystem.write around.files path text.toUTF8

/-- **The output can be written**, if one is named. -/
def CanWrite (options : ProjectOptions) (around : Surroundings σ) (rendered : String) : Prop :=
  ∀ path, options.output = some path → (around.write path rendered).1 = .ok ()

/-- **What fails in a run**, whether something fails before it or not.  Only the fragments depend on each other:
that one of them does not compile is said of the first one.  And an output is only there to be written if there is a
result. -/
inductive Fails (options : ProjectOptions) (around : Surroundings σ) : Failure → Prop where
  | fragmentsJsonMalformed {text : String} (htext : options.fragmentsJson = some text)
      (h : Json.ofText? text = none) :
      Fails options around (.fragmentsJsonMalformed (around.refusal text))
  | fragmentsJsonInvalid {text : String} {value : Json} {error : ArgumentError}
      (htext : options.fragmentsJson = some text) (hvalue : Json.ofText? text = some value)
      (h : Arguments.flatten [value] = .error error) :
      Fails options around (.fragmentsJsonInvalid error)
  | schemaInvalid {before after : List String} {fragment : String} {error : SyntaxError}
      (hlists : options.Lists (before ++ fragment :: after))
      (hbefore : ∀ earlier ∈ before, ∃ tree, Tree.compile earlier = .ok tree)
      (h : Tree.compile fragment = .error error) : Fails options around (.schemaInvalid error)
  | inputUnreadable {cause : String} (h : around.inputBytes options = .error cause) :
      Fails options around (.inputUnreadable options.input cause)
  | inputNotUnicode {bytes : ByteArray} (hbytes : around.inputBytes options = .ok bytes)
      (h : String.fromUTF8? bytes = none) :
      Fails options around (.inputUnreadable options.input notUnicode)
  | inputMalformed {text : String} (htext : around.Reads options text) (h : Json.ofText? text = none) :
      Fails options around (.inputMalformed (around.refusal text))
  | outputUnwritable {result : Json} {path cause : String} (hresult : Result options around result)
      (hpath : options.output = some path)
      (h : (around.write path (options.render result)).1 = .error cause) :
      Fails options around (.outputUnwritable path cause)

/-- The place of a failure among those of `project`. -/
def Failure.place : Failure → Nat
  | .fragmentsJsonMalformed _ => 0
  | .fragmentsJsonInvalid _ => 1
  | .schemaInvalid _ => 2
  | .inputUnreadable _ _ => 3
  | .inputMalformed _ => 4
  | .outputUnwritable _ _ => 5
  | .fragmentInvalid _ _ => 6

/-- **The first failure** of a run. -/
structure First (options : ProjectOptions) (around : Surroundings σ) (failure : Failure) : Prop where
  fails : Fails options around failure
  first : ∀ other, Fails options around other → failure.place ≤ other.place

/-! ## Steps that do not fail -/

/-- What is ready has a result. -/
theorem Ready.exists_result (h : Ready options around list source) :
    ∃ schema, (Schema.compile list).value = .ok schema ∧
      Result options around (schema.apply options.mode source).value := by
  obtain ⟨schema, hschema⟩ := exists_schema_iff.mpr h.compile
  exact ⟨schema, hschema, list, source, schema, h, hschema, rfl⟩

/-- **A run that has a result** gives it rendered, and no other run gives anything. -/
theorem value_projectRun_eq_ok_iff_result {rendered : String} :
    (projectRun options around).value = .ok rendered ↔
      ∃ result, Result options around result ∧ options.render result = rendered := by
  simp only [value_projectRun_eq_ok_iff, Projection.compileSchema_eq_ok_iff, readSource_eq_ok_iff]
  constructor
  · rintro ⟨list, schema, source, hlists, hschema, hinput, rfl⟩
    exact ⟨_, ⟨list, source, schema, ⟨hlists, exists_schema_iff.mp ⟨schema, hschema⟩, hinput⟩,
      hschema, rfl⟩, rfl⟩
  · rintro ⟨result, ⟨list, source, schema, hready, hschema, rfl⟩, rfl⟩
    exact ⟨list, schema, source, hready.lists, hschema, hready.input, rfl⟩

/-- **The rendered text spells the result**, in either layout. -/
theorem ProjectOptions.spaced_render (options : ProjectOptions) (result : Json) :
    Json.Token.Spaced result.tokens (options.render result).toList := by
  unfold render
  split
  · exact result.spaced_pretty
  · exact result.spaced_compact

/-! ## The first failure -/

section Passed

variable {failure : Failure} {text : String}

theorem Fails.two_le_place (h : Fails options around failure) (hlists : options.Lists list) :
    2 ≤ failure.place := by
  cases h with
  | fragmentsJsonMalformed htext hnone =>
      obtain ⟨more, hadds, -⟩ := hlists
      simp [ProjectOptions.Adds, htext, hnone] at hadds
  | fragmentsJsonInvalid htext hvalue herror =>
      obtain ⟨more, hadds, -⟩ := hlists
      simp [ProjectOptions.Adds, htext, hvalue, herror] at hadds
  | _ => simp [Failure.place]

theorem Fails.three_le_place (h : Fails options around failure) (hlists : options.Lists list)
    (hcompile : ∀ fragment ∈ list, ∃ tree, Tree.compile fragment = .ok tree) : 3 ≤ failure.place := by
  have hplace := h.two_le_place hlists
  cases h with
  | schemaInvalid hother hbefore hrefused =>
      obtain rfl := hlists.unique hother
      obtain ⟨tree, htree⟩ := hcompile _ (List.mem_append_right _ List.mem_cons_self)
      cases htree.symm.trans hrefused
  | _ => simp_all [Failure.place]

theorem Fails.four_le_place (h : Fails options around failure) (hlists : options.Lists list)
    (hcompile : ∀ fragment ∈ list, ∃ tree, Tree.compile fragment = .ok tree)
    (htext : around.Reads options text) : 4 ≤ failure.place := by
  have hplace := h.three_le_place hlists hcompile
  obtain ⟨bytes, hbytes, hunicode⟩ := htext
  cases h with
  | inputUnreadable hrefused => cases hbytes.symm.trans hrefused
  | inputNotUnicode hother hnone =>
      cases hbytes.symm.trans hother
      cases hunicode.symm.trans hnone
  | _ => simp_all [Failure.place]

/-- In a run that is ready nothing fails but the output. -/
theorem Ready.five_le_place (h : Ready options around list source) (hfails : Fails options around failure) :
    5 ≤ failure.place := by
  obtain ⟨text, htext, hsource⟩ := h.input
  have hplace := hfails.four_le_place h.lists h.compile htext
  cases hfails with
  | inputMalformed hother hnone =>
      have hsame := readInput_eq_ok_iff.mpr htext
      cases hsame.symm.trans (readInput_eq_ok_iff.mpr hother)
      cases hsource.symm.trans hnone
  | _ => simp_all [Failure.place]

theorem first_of_allFragments (h : options.allFragments around.refusal = .error failure) :
    First options around failure := by
  unfold ProjectOptions.allFragments at h
  cases htext : options.fragmentsJson with
  | none =>
      rw [htext] at h
      cases h
  | some text =>
      rw [htext] at h
      cases hvalue : Json.ofText? text with
      | none =>
          simp only [jsonFragments_of_none hvalue] at h
          cases h
          exact ⟨.fragmentsJsonMalformed htext hvalue, fun _ _ => Nat.zero_le _⟩
      | some value =>
          simp only [jsonFragments_eq hvalue] at h
          cases hflatten : Arguments.flatten [value] with
          | ok more =>
              rw [hflatten] at h
              cases h
          | error error =>
              rw [hflatten] at h
              cases h
              refine ⟨.fragmentsJsonInvalid htext hvalue hflatten, fun other hother => ?_⟩
              cases hother with
              | fragmentsJsonMalformed hother hnone =>
                  cases htext.symm.trans hother
                  cases hvalue.symm.trans hnone
              | _ => simp [Failure.place]

theorem first_of_compile {error : SyntaxError} (hlists : options.Lists list)
    (h : (Schema.compile list).value = .error error) : First options around (.schemaInvalid error) := by
  obtain ⟨before, fragment, after, rfl, hbefore, hrefused⟩ := Schema.value_compile_eq_error_iff.mp h
  exact ⟨.schemaInvalid hlists hbefore hrefused, fun other hother => hother.two_le_place hlists⟩

theorem first_of_readInput (hlists : options.Lists list)
    (hcompile : ∀ fragment ∈ list, ∃ tree, Tree.compile fragment = .ok tree)
    (h : readInput options around = .error failure) : First options around failure := by
  unfold readInput at h
  cases hbytes : around.inputBytes options with
  | error cause =>
      rw [hbytes] at h
      cases h
      exact ⟨.inputUnreadable hbytes, fun other hother => hother.three_le_place hlists hcompile⟩
  | ok bytes =>
      cases htext : String.fromUTF8? bytes with
      | none =>
          simp only [hbytes, htext] at h
          cases h
          exact ⟨.inputNotUnicode hbytes htext, fun other hother => hother.three_le_place hlists hcompile⟩
      | some text =>
          simp only [hbytes, htext] at h
          cases h

theorem first_of_readSource (hlists : options.Lists list)
    (hcompile : ∀ fragment ∈ list, ∃ tree, Tree.compile fragment = .ok tree)
    (h : readSource options around = .error failure) : First options around failure := by
  cases hread : readInput options around with
  | error found =>
      rw [readSource, hread] at h
      cases h
      exact first_of_readInput hlists hcompile hread
  | ok text =>
      have htext := readInput_eq_ok_iff.mp hread
      rw [readSource_of_reads htext] at h
      cases hsource : Json.ofText? text with
      | none =>
          rw [hsource] at h
          cases h
          exact ⟨.inputMalformed htext hsource,
            fun other hother => hother.four_le_place hlists hcompile htext⟩
      | some source =>
          rw [hsource] at h
          cases h

/-- A result that cannot be written is the first failure, as nothing fails before. -/
theorem first_of_write {path cause : String} (hresult : Result options around result)
    (hpath : options.output = some path)
    (h : (around.write path (options.render result)).1 = .error cause) :
    First options around (.outputUnwritable path cause) := by
  refine ⟨.outputUnwritable hresult hpath h, fun other hother => ?_⟩
  obtain ⟨list, source, schema, hready, -, -⟩ := hresult
  exact hready.five_le_place hother

end Passed

/-- **A run without a result** reports the first failure. -/
theorem first_of_value_projectRun {failure : Failure}
    (h : (projectRun options around).value = .error failure) : First options around failure := by
  rw [value_projectRun] at h
  cases hlist : options.allFragments around.refusal with
  | error found =>
      rw [hlist] at h
      cases h
      exact first_of_allFragments hlist
  | ok list =>
      have hlists := allFragments_eq_ok_iff.mp hlist
      rw [hlist] at h
      cases hschema : (Schema.compile list).value with
      | error error =>
          simp only [Except.bind, hschema, mapError_error] at h
          cases h
          exact first_of_compile hlists hschema
      | ok schema =>
          have hcompile := exists_schema_iff.mp ⟨schema, hschema⟩
          simp only [Except.bind, hschema, mapError_ok] at h
          cases hread : readSource options around with
          | error found =>
              rw [hread] at h
              cases h
              exact first_of_readSource hlists hcompile hread
          | ok source =>
              rw [hread] at h
              cases h

/-! ## The message -/

/-- **A failure is reported**: the last message begins with what was being done, and it is the text of this failure
and of no other. -/
structure Failure.ReportedIn (failure : Failure) (stderr : List String) : Prop where
  last : stderr.getLast? = some failure.text
  context : ∃ cause, failure.text = "Error: " ++ failure.context ++ "\n\nCaused by:\n    " ++ cause
  only : ∀ other : Failure, stderr.getLast? = some other.text → other = failure

theorem Failure.reportedIn {failure : Failure} {stderr : List String}
    (h : stderr.getLast? = some failure.text) : failure.ReportedIn stderr where
  last := h
  context := ⟨_, rfl⟩
  only _ hother := text_injective (Option.some.inj (hother.symm.trans h))

/-! ## What a run leaves -/

/-- **A run that succeeds** puts the rendered result in one place: on the standard output, followed by a newline, or
in the file of the output, the one with the given names. -/
structure PutsResult (options : ProjectOptions) (around : Surroundings σ) (names : String → Prop)
    (rendered : String) (after : Response × σ) : Prop where
  code : after.1.code = 0
  printed : options.output = none → after.1.stdout = rendered ++ "\n" ∧ after.2 = around.files
  written : ∀ path, options.output = some path → after.1.stdout = "" ∧
    around.fileSystem.read after.2 path = .ok rendered.toUTF8 ∧
    around.fileSystem.Wrote names around.files rendered.toUTF8 after.2

/-- **A run that fails** reports a failure and leaves everything else as it was.  The file of the output is touched
only if all else has succeeded, and is as it was unless it is opened and does not fit. -/
structure LeavesNoTrace (options : ProjectOptions) (around : Surroundings σ) (names : String → Prop)
    (failure : Failure) (after : Response × σ) : Prop where
  code : after.1.code = 1
  stdout : after.1.stdout = ""
  reported : failure.ReportedIn after.1.stderr
  untouched : failure.place < 5 → after.2 = around.files
  others : around.fileSystem.UnchangedBut names around.files after.2
  unchanged : (∀ path result, options.output = some path → Result options around result →
      around.fileSystem.HasRoom around.files path (options.render result).toUTF8) →
    around.fileSystem.Unchanged around.files after.2

/-! ## Command lines -/

section Lines

variable {words : List String} {verbose : Bool} {names : String → Prop} {path cause : String}

theorem run_of_project (around : Surroundings σ)
    (hwords : Request.ofWords words = .ok (.project options verbose)) :
    run around words =
      (respondProject options verbose around).carryOut around.fileSystem around.files := by
  rw [run, respondTo, hwords]
  rfl

/-- A run without an output prints its result. -/
theorem run_of_result (hwords : Request.ofWords words = .ok (.project options verbose))
    (hresult : Result options around result) (hout : options.output = none) :
    (run around words).1.code = 0 ∧ (run around words).1.stdout = options.render result ++ "\n" ∧
      (run around words).2 = around.files := by
  have hrun := value_projectRun_eq_ok_iff_result.mpr ⟨result, hresult, rfl⟩
  obtain ⟨hcode, hstdout, hwritten⟩ := respondProject_of_ok verbose hrun hout
  rw [run_of_project around hwords]
  simp only [Response.carryOut, hwritten]
  exact ⟨hcode, hstdout, trivial⟩

/-- A run with an output writes its result, if the file system lets it. -/
theorem run_of_write_eq_ok (hwords : Request.ofWords words = .ok (.project options verbose))
    (hresult : Result options around result) (hout : options.output = some path)
    (hwrite : (around.write path (options.render result)).1 = .ok ()) :
    (run around words).1.code = 0 ∧ (run around words).1.stdout = "" ∧
      (run around words).2 = (around.write path (options.render result)).2 := by
  have hrun := value_projectRun_eq_ok_iff_result.mpr ⟨result, hresult, rfl⟩
  obtain ⟨hcode, hstdout, hwritten⟩ := respondProject_of_ok_of_output verbose hrun hout
  rw [run_of_project around hwords]
  unfold Surroundings.write at hwrite ⊢
  generalize hattempt : around.fileSystem.write around.files path _ = attempt at hwrite
  obtain ⟨_, after⟩ := attempt
  cases hwrite
  simp only [Response.carryOut, hwritten, hattempt]
  exact ⟨hcode, hstdout, trivial⟩

/-- Otherwise it reports that, and the files are what the attempt has left. -/
theorem run_of_write_eq_error (hwords : Request.ofWords words = .ok (.project options verbose))
    (hresult : Result options around result) (hout : options.output = some path)
    (hwrite : (around.write path (options.render result)).1 = .error cause) :
    (run around words).1.code = 1 ∧ (run around words).1.stdout = "" ∧
      (run around words).1.stderr.getLast? = some (Failure.outputUnwritable path cause).text ∧
      (run around words).2 = (around.write path (options.render result)).2 := by
  have hrun := value_projectRun_eq_ok_iff_result.mpr ⟨result, hresult, rfl⟩
  obtain ⟨-, -, hwritten⟩ := respondProject_of_ok_of_output verbose hrun hout
  rw [run_of_project around hwords]
  unfold Surroundings.write at hwrite ⊢
  generalize hattempt : around.fileSystem.write around.files path _ = attempt at hwrite
  obtain ⟨_, after⟩ := attempt
  cases hwrite
  simp only [Response.carryOut, hwritten, hattempt]
  exact ⟨rfl, rfl, List.getLast?_concat, trivial⟩

/-- A run without a result reports the first failure and touches no file. -/
theorem run_of_error {failure : Failure}
    (hwords : Request.ofWords words = .ok (.project options verbose))
    (hrun : (projectRun options around).value = .error failure) :
    (run around words).1.code = 1 ∧ (run around words).1.stdout = "" ∧
      (run around words).1.stderr.getLast? = some failure.text ∧ (run around words).2 = around.files := by
  obtain ⟨hcode, hstdout, hwritten⟩ := respondProject_of_error verbose hrun
  have hlast := getLast?_stderr_respondProject verbose hrun
  rw [run_of_project around hwords]
  simp only [Response.carryOut, hwritten]
  exact ⟨hcode, hstdout, hlast, trivial⟩

/-- A run whose result can be written puts it in one place. -/
theorem putsResult_run (hwords : Request.ofWords words = .ok (.project options verbose))
    (hfile : ∀ path, options.output = some path → around.fileSystem.Ordinary around.files path names)
    (hresult : Result options around result) (hwrite : CanWrite options around (options.render result)) :
    PutsResult options around names (options.render result) (run around words) := by
  cases hout : options.output with
  | none =>
      obtain ⟨hcode, hstdout, hafter⟩ := run_of_result hwords hresult hout
      refine ⟨hcode, fun _ => ⟨hstdout, hafter⟩, fun path hpath => ?_⟩
      cases hout.symm.trans hpath
  | some path =>
      obtain ⟨hcode, hstdout, hafter⟩ := run_of_write_eq_ok hwords hresult hout (hwrite path hout)
      have hwrote := (hfile path hout).wrote_write (hwrite path hout)
      refine ⟨hcode, fun hnone => ?_, fun other hother => ?_⟩
      · cases hout.symm.trans hnone
      · cases hout.symm.trans hother
        rw [hafter]
        exact ⟨hstdout, hwrote.content path (hfile path hout).named, hwrote⟩

/-- Any other run reports the first failure. -/
theorem leavesNoTrace_run (hwords : Request.ofWords words = .ok (.project options verbose))
    (hfile : ∀ path, options.output = some path → around.fileSystem.Ordinary around.files path names)
    (hfails : ¬∃ result, Result options around result ∧ CanWrite options around (options.render result)) :
    ∃ failure, First options around failure ∧
      LeavesNoTrace options around names failure (run around words) := by
  cases hrun : (projectRun options around).value with
  | error failure =>
      obtain ⟨hcode, hstdout, hlast, hafter⟩ := run_of_error hwords hrun
      have hunchanged : around.fileSystem.Unchanged around.files (run around words).2 := by
        rw [hafter]
        exact .refl _ _
      exact ⟨failure, first_of_value_projectRun hrun, hcode, hstdout, Failure.reportedIn hlast,
        fun _ => hafter, hunchanged.but names, fun _ => hunchanged⟩
  | ok rendered =>
      obtain ⟨result, hresult, rfl⟩ := value_projectRun_eq_ok_iff_result.mp hrun
      -- the result is there, so it is the output that cannot be written
      obtain ⟨path, hout, cause, hwrite⟩ : ∃ path, options.output = some path ∧
          ∃ cause, (around.write path (options.render result)).1 = .error cause := by
        by_contra hnone
        refine hfails ⟨result, hresult, fun path hout => ?_⟩
        cases hattempt : (around.write path (options.render result)).1 with
        | ok => rfl
        | error cause => exact absurd ⟨path, hout, cause, hattempt⟩ hnone
      obtain ⟨hcode, hstdout, hlast, hafter⟩ := run_of_write_eq_error hwords hresult hout hwrite
      refine ⟨_, first_of_write hresult hout hwrite, hcode, hstdout, Failure.reportedIn hlast,
        fun hplace => absurd hplace (Nat.lt_irrefl 5), ?_, fun hroom => ?_⟩
      · rw [hafter]
        exact (hfile path hout).unchangedBut_write _
      · rw [hafter]
        exact (hfile path hout).unchanged_write (hroom path result hout hresult) hwrite

/-- In a flat directory a run that fails changes nothing at all. -/
theorem unchanged_runIn {directory : Directory} {stdin : ByteArray} {logFilter : Option String}
    (hwords : Request.ofWords words = .ok (.project options verbose))
    (hcode : (runIn directory words stdin logFilter).1.code ≠ 0) :
    Directory.fileSystem.Unchanged directory (runIn directory words stdin logFilter).2 := by
  have hfile : ∀ path, options.output = some path → Directory.fileSystem.Ordinary directory path
      (Directory.SameFile (options.output.getD "")) := by
    intro path hout
    rw [hout]
    exact Directory.ordinary directory path
  obtain ⟨failure, -, htrace⟩ := leavesNoTrace_run hwords hfile <| by
    rintro ⟨result, hresult, hwrite⟩
    exact hcode (putsResult_run hwords hfile hresult hwrite).code
  exact htrace.unchanged fun path result _ _ => Directory.hasRoom directory path _

end Lines

/-- A command line with a fragment of each kind, `-s` before the words, whose output is its input. -/
def mixedWords : List String :=
  ["project", "-s", "b->c", "-i", "doc", "a", "--pretty", "--fragments-json", "[[\"x\"]]", "-o./doc",
    "--absent"]

/-- The options of that line. -/
def mixedOptions : ProjectOptions :=
  ⟨["a"], ["b->c"], some "[[\"x\"]]", some "doc", some "./doc", true, true⟩

/-- The text of a document with two flags. -/
def twoFlagsText : String := "\x7b\"a\":false,\"b\":true\x7d"

/-- A directory with that document and another file. -/
def twoFlags : Surroundings Directory :=
  .inDirectory [("doc", twoFlagsText.toUTF8), ("other", "[".toUTF8)] ByteArray.empty none

end JsonProjection.Command
