/-
# `JsonProjection.Proofs.Command.Project` -- a run of `project`, step by step.

A run of `project` gets its fragments together, compiles them, reads its input and applies the one to the other.
It succeeds exactly when each of its steps does (`value_projectRun_eq_ok_iff`), and its response shows whether it did
(`respondProject_of_ok`, `respondProject_of_error`).  Runs that read the standard input and print their result are
the ones that can be compared with the other ways in: for them there are only the arguments, the fragments and the
input text that can be refused (`ProjectOptions.plain`).
-/
import JsonProjection.Command.Run
import JsonProjection.Proofs.Projection.Entries

namespace JsonProjection.Command

open JsonProjection.Projection (compileSchema)

variable {σ : Type} {options : ProjectOptions} {around : Surroundings σ} {rendered : String}

section MapError

variable {ε ε' α : Type} (f : ε → ε')

@[simp] theorem mapError_ok (a : α) : (Except.ok a : Except ε α).mapError f = .ok a := rfl

@[simp] theorem mapError_error (e : ε) : (Except.error e : Except ε α).mapError f = .error (f e) := rfl

end MapError

/-! ## The fragments -/

section Fragments

variable {refusal : String → String} {list : List String}

/-- The fragments that the text of `--fragments-json` adds; without such a text there are none. -/
def ProjectOptions.Adds (options : ProjectOptions) (more : List String) : Prop :=
  match options.fragmentsJson with
  | none => more = []
  | some text => ∃ value, Json.ofText? text = some value ∧ Arguments.flatten [value] = .ok more

/-- **The fragments of a run**: the words, then those of `-s`, then those of `--fragments-json`. -/
def ProjectOptions.Lists (options : ProjectOptions) (list : List String) : Prop :=
  ∃ more, options.Adds more ∧ list = options.fragments ++ options.schemas ++ more

/-- The fragments of `--fragments-json` are flattened like any other argument. -/
theorem jsonFragments_eq {argument : String} {value : Json} (hvalue : Json.ofText? argument = some value) :
    jsonFragments refusal argument = (Arguments.flatten [value]).mapError .fragmentsJsonInvalid := by
  unfold jsonFragments
  rw [hvalue]
  cases value with
  | arr items =>
      rw [Arguments.flatten_arr]
      cases hitems : Arguments.flatten items <;> simp [hitems]
  | _ => rfl

theorem jsonFragments_of_none {argument : String} (h : Json.ofText? argument = none) :
    jsonFragments refusal argument = .error (.fragmentsJsonMalformed (refusal argument)) := by
  rw [jsonFragments, h]

theorem allFragments_eq_ok_iff : options.allFragments refusal = .ok list ↔ options.Lists list := by
  unfold ProjectOptions.allFragments ProjectOptions.Lists ProjectOptions.Adds
  cases options.fragmentsJson with
  | none => simp [eq_comm]
  | some text =>
      cases hvalue : Json.ofText? text with
      | none => simp [jsonFragments_of_none hvalue, hvalue, Except.map]
      | some value =>
          simp only [jsonFragments_eq hvalue, hvalue, Option.some.injEq, exists_eq_left']
          cases Arguments.flatten [value] <;> simp [Except.map, eq_comm]

theorem ProjectOptions.Lists.unique {other : List String} (h : options.Lists list)
    (hother : options.Lists other) : other = list := by
  have hall : options.allFragments id = .ok list := allFragments_eq_ok_iff.mpr h
  exact Except.ok.inj ((allFragments_eq_ok_iff.mpr hother).symm.trans hall)

end Fragments

/-! ## The input -/

section Input

variable {text : String} {source : Json}

/-- **The input is a text**: it can be read, and its bytes are UTF-8. -/
def Surroundings.Reads (around : Surroundings σ) (options : ProjectOptions) (text : String) : Prop :=
  ∃ bytes, around.inputBytes options = .ok bytes ∧ String.fromUTF8? bytes = some text

theorem readInput_eq_ok_iff : readInput options around = .ok text ↔ around.Reads options text := by
  unfold readInput Surroundings.Reads
  cases around.inputBytes options with
  | error cause => simp
  | ok bytes => cases htext : String.fromUTF8? bytes <;> simp [htext]

/-- What is made of an input that is a text. -/
theorem readSource_of_reads (h : around.Reads options text) :
    readSource options around =
      (Json.ofText? text).elim (.error (.inputMalformed (around.refusal text))) .ok := by
  rw [readSource, readInput_eq_ok_iff.mpr h]
  cases hsource : Json.ofText? text <;> simp [hsource]

theorem readSource_eq_ok_iff :
    readSource options around = .ok source ↔
      ∃ text, around.Reads options text ∧ Json.ofText? text = some source := by
  cases hread : readInput options around with
  | error failure =>
      have hnone : ∀ text, ¬around.Reads options text := by
        intro text h
        cases hread.symm.trans (readInput_eq_ok_iff.mpr h)
      simp [readSource, hread, hnone]
  | ok text =>
      have htext := readInput_eq_ok_iff.mp hread
      have hunique : ∀ other, around.Reads options other ↔ other = text := by
        intro other
        rw [← readInput_eq_ok_iff, hread, Except.ok.injEq, eq_comm]
      rw [readSource_of_reads htext]
      simp only [hunique, exists_eq_left]
      cases Json.ofText? text <;> simp

end Input

/-! ## The steps -/

/-- **A run of `project`** is the chain of its steps, each of which can end it. -/
theorem value_projectRun (options : ProjectOptions) (around : Surroundings σ) :
    (projectRun options around).value =
      (options.allFragments around.refusal).bind fun fragments =>
        ((Schema.compile fragments).value.mapError .schemaInvalid).bind fun schema =>
          (readSource options around).map fun source =>
            options.render (schema.apply options.mode source).value := by
  unfold projectRun
  cases options.allFragments around.refusal with
  | error failure => rfl
  | ok fragments =>
      cases hschema : (Schema.compile fragments).value with
      | error error => simp [hschema, Except.bind]
      | ok schema => cases readSource options around <;> simp [hschema, Except.bind, Except.map]

/-- **A run of `project` succeeds** when the arguments flatten, the fragments compile, and the input is there and is
JSON. -/
theorem value_projectRun_eq_ok_iff :
    (projectRun options around).value = .ok rendered ↔
      ∃ fragments schema source, options.Lists fragments ∧ compileSchema fragments = .ok schema ∧
        readSource options around = .ok source ∧
        options.render (schema.apply options.mode source).value = rendered := by
  have hlists : ∀ list, options.Lists list ↔ options.allFragments around.refusal = .ok list :=
    fun _ => allFragments_eq_ok_iff.symm
  simp only [value_projectRun, hlists]
  cases options.allFragments around.refusal with
  | error failure => simp [Except.bind]
  | ok fragments =>
      simp only [Projection.compileSchema_eq_ok_iff]
      cases hschema : (Schema.compile fragments).value with
      | error error => simp [hschema, Except.bind]
      | ok schema => cases readSource options around <;> simp [hschema, Except.bind, Except.map]

/-! ## The response -/

/-- What succeeded is printed, if no file is named. -/
theorem respondProject_of_ok (verbose : Bool) (hrun : (projectRun options around).value = .ok rendered)
    (hout : options.output = none) :
    (respondProject options verbose around).code = 0 ∧
      (respondProject options verbose around).stdout = rendered ++ "\n" ∧
      (respondProject options verbose around).written = none := by
  unfold respondProject
  simp only [hrun, hout, and_self]

/-- What succeeded is written, if a file is named. -/
theorem respondProject_of_ok_of_output (verbose : Bool) {path : String}
    (hrun : (projectRun options around).value = .ok rendered) (hout : options.output = some path) :
    (respondProject options verbose around).code = 0 ∧
      (respondProject options verbose around).stdout = "" ∧
      (respondProject options verbose around).written = some (path, rendered) := by
  unfold respondProject
  simp only [hrun, hout, and_self]

/-- What failed leaves nothing behind but its message. -/
theorem respondProject_of_error (verbose : Bool) {failure : Failure}
    (hrun : (projectRun options around).value = .error failure) :
    (respondProject options verbose around).code = 1 ∧
      (respondProject options verbose around).stdout = "" ∧
      (respondProject options verbose around).written = none := by
  unfold respondProject
  simp only [hrun, Response.failed, and_self]

/-- The message comes last. -/
theorem getLast?_stderr_respondProject (verbose : Bool) {failure : Failure}
    (hrun : (projectRun options around).value = .error failure) :
    (respondProject options verbose around).stderr.getLast? = some failure.text := by
  unfold respondProject
  simp only [hrun, Response.failed, List.getLast?_concat]

/-! ## From the standard input to the standard output -/

/-- The options of a run that reads the standard input and prints its result as compact text. -/
def ProjectOptions.plain (mode : Mode) (fragments : List String) (fragmentsJson : Option String) :
    ProjectOptions :=
  ⟨fragments, [], fragmentsJson, none, none, decide (mode = .absent), false⟩

section Plain

variable {mode : Mode} {fragments all : List String} {fragmentsJson : Option String} {text out : String}

@[simp] theorem mode_plain : (ProjectOptions.plain mode fragments fragmentsJson).mode = mode := by
  cases mode <;> rfl

/-- What was encoded is read. -/
theorem fromUTF8?_toUTF8 (text : String) : String.fromUTF8? text.toUTF8 = some text := by
  unfold String.fromUTF8?
  rw [String.toUTF8_eq_toByteArray, dif_pos text.isValidUTF8]
  rfl

theorem readSource_plain_eq_ok_iff (hstdin : around.stdin = .ok text.toUTF8) {source : Json} :
    readSource (.plain mode fragments fragmentsJson) around = .ok source ↔
      Json.ofText? text = some source := by
  have hreads : around.Reads (.plain mode fragments fragmentsJson) text :=
    ⟨text.toUTF8, hstdin, fromUTF8?_toUTF8 text⟩
  rw [readSource_of_reads hreads]
  cases Json.ofText? text <;> simp

/-- **Such a run projects the input text** through all its fragments. -/
theorem value_projectRun_plain_eq_ok_iff (hstdin : around.stdin = .ok text.toUTF8) :
    (projectRun (.plain mode fragments fragmentsJson) around).value = .ok out ↔
      ∃ all, (ProjectOptions.plain mode fragments fragmentsJson).Lists all ∧
        Projection.projectText mode text all = .ok out := by
  have hprint : ∀ result : Json,
      (ProjectOptions.plain mode fragments fragmentsJson).render result = result.compact := fun _ => rfl
  simp only [value_projectRun_eq_ok_iff, readSource_plain_eq_ok_iff hstdin, mode_plain, hprint,
    Projection.projectText_eq_ok_iff, exists_and_left]

variable {words : List String} {verbose : Bool} (directory : Directory) (logFilter : Option String)

/-- A command line whose fragments project the input prints the output. -/
theorem runIn_of_projectText
    (hwords : Request.ofWords words = .ok (.project (.plain mode fragments fragmentsJson) verbose))
    (hall : (ProjectOptions.plain mode fragments fragmentsJson).Lists all)
    (htext : Projection.projectText mode text all = .ok out) :
    let run := runIn directory words text.toUTF8 logFilter
    run.1.code = 0 ∧ run.1.stdout = out ++ "\n" ∧ run.2 = directory := by
  have hstdin : (Surroundings.inDirectory directory text.toUTF8 logFilter).stdin = .ok text.toUTF8 := rfl
  have hrun := (value_projectRun_plain_eq_ok_iff hstdin).mpr ⟨all, hall, htext⟩
  obtain ⟨hcode, hstdout, hwritten⟩ := respondProject_of_ok verbose hrun rfl
  simp only [runIn, run, respondTo, hwords, respond, Response.carryOut, hwritten]
  exact ⟨hcode, hstdout, rfl⟩

/-- A command line whose fragments are refused, or do not project the input, prints nothing. -/
theorem runIn_of_not_projectText
    (hwords : Request.ofWords words = .ok (.project (.plain mode fragments fragmentsJson) verbose))
    (h : ∀ all out, (ProjectOptions.plain mode fragments fragmentsJson).Lists all →
      Projection.projectText mode text all ≠ .ok out) :
    let run := runIn directory words text.toUTF8 logFilter
    run.1.code = 1 ∧ run.1.stdout = "" ∧ run.2 = directory := by
  have hstdin : (Surroundings.inDirectory directory text.toUTF8 logFilter).stdin = .ok text.toUTF8 := rfl
  cases hrun : (projectRun (.plain mode fragments fragmentsJson)
      (.inDirectory directory text.toUTF8 logFilter)).value with
  | ok out =>
      obtain ⟨all, hall, htext⟩ := (value_projectRun_plain_eq_ok_iff hstdin).mp hrun
      exact absurd htext (h all out hall)
  | error failure =>
      obtain ⟨hcode, hstdout, hwritten⟩ := respondProject_of_error verbose hrun
      simp only [runIn, run, respondTo, hwords, respond, Response.carryOut, hwritten]
      exact ⟨hcode, hstdout, rfl⟩

end Plain

end JsonProjection.Command
