/-
# `JsonProjection.Command.Run` -- what a command line does.

A run is a function of the request and of what surrounds it: the files, the standard input, and the wish for log
records.  First it is worked out what there is to do, a `Response`: the exit code, what is printed, and at most one
file to write.  Then the file is written, and if that fails the response is one to this failure (`carryOut`).
The standard output and the standard error take whatever is printed.
`project` fails before it prints anything; the failures are tried in the order in which the constructors of
`Failure` stand.  `check` prints the canonical text of each fragment until one is refused.
-/
import JsonProjection.Command.Directory
import JsonProjection.Command.Options
import JsonProjection.Log.Filter
import JsonProjection.Projection.Entry

namespace JsonProjection.Command

open JsonProjection.Log (Event Filter Logged)

/-! ## Failures -/

/-- **Why a command fails.**  A `cause` is what the JSON reader or the operating system tells. -/
inductive Failure where
  /-- the text of `--fragments-json` is no JSON -/
  | fragmentsJsonMalformed (cause : String)
  /-- the value of `--fragments-json` does not flatten -/
  | fragmentsJsonInvalid (error : ArgumentError)
  /-- a fragment of `project` does not compile -/
  | schemaInvalid (error : SyntaxError)
  /-- the input cannot be read, or is no text; without a path it is the standard input -/
  | inputUnreadable (path : Option String) (cause : String)
  /-- the input is no JSON -/
  | inputMalformed (cause : String)
  /-- the output cannot be written -/
  | outputUnwritable (path cause : String)
  /-- a fragment of `check` does not compile -/
  | fragmentInvalid (fragment : String) (error : SyntaxError)
  deriving DecidableEq

namespace Failure

/-- What was being done. -/
def context : Failure → String
  | .fragmentsJsonMalformed _ => "--fragments-json is not valid JSON"
  | .fragmentsJsonInvalid _ => "Invalid --fragments-json"
  | .schemaInvalid _ => "Failed to compile schema"
  | .inputUnreadable (some path) _ => "Failed to read file: " ++ path
  | .inputUnreadable none _ => "Failed to read from stdin"
  | .inputMalformed _ => "Failed to parse input JSON"
  | .outputUnwritable path _ => "Failed to write file: " ++ path
  | .fragmentInvalid fragment _ => "Invalid schema: " ++ fragment

/-- Why it failed. -/
def cause : Failure → String
  | .fragmentsJsonMalformed cause => cause
  | .fragmentsJsonInvalid error => error.message
  | .schemaInvalid error => error.message
  | .inputUnreadable _ cause => cause
  | .inputMalformed cause => cause
  | .outputUnwritable _ cause => cause
  | .fragmentInvalid _ error => error.message

/-- A cause as an indented paragraph, its first line apart. -/
def indented (cs : List Char) : List Char :=
  cs.flatMap fun c => if c = '\n' then ['\n', ' ', ' ', ' ', ' '] else [c]

/-- **The text of a failure**: what was being done, and below it the cause. -/
def text (failure : Failure) : String :=
  "Error: " ++ failure.context ++ "\n\nCaused by:\n    " ++
    String.ofList (indented failure.cause.toList)

end Failure

/-! ## Surroundings and responses -/

/-- **What surrounds a run.** -/
structure Surroundings (σ : Type) where
  fileSystem : FileSystem σ
  files : σ
  /-- the bytes of the standard input, if they can be read -/
  stdin : Except String ByteArray
  /-- what the JSON reader tells about a text that it refuses -/
  refusal : String → String
  /-- the text that says which log records are wanted, if there is one -/
  logFilter : Option String

/-- **What a run does.** -/
structure Response where
  code : Nat
  stdout : String
  /-- the texts on the standard error, each to be ended by a newline -/
  stderr : List String
  /-- the path and the content of the file that is to be written -/
  written : Option (String × String)
  deriving DecidableEq

/-- The response to a failure, after some records. -/
def Response.failed (records : List String) (failure : Failure) : Response :=
  ⟨1, "", records ++ [failure.text], none⟩

variable {σ : Type}

/-! ## `project` -/

/-- The fragments of `--fragments-json`: an array lists arguments, any other value is one argument. -/
def jsonFragments (refusal : String → String) (text : String) : Except Failure (List String) :=
  match Json.ofText? text with
  | none => .error (.fragmentsJsonMalformed (refusal text))
  | some value =>
    let arguments :=
      match value with
      | .arr items => items
      | other => [other]
    match Arguments.flatten arguments with
    | .error error => .error (.fragmentsJsonInvalid error)
    | .ok fragments => .ok fragments

/-- **All fragments of `project`**: the words, then those of `-s`, then those of `--fragments-json`. -/
def ProjectOptions.allFragments (options : ProjectOptions) (refusal : String → String) :
    Except Failure (List String) :=
  match options.fragmentsJson with
  | none => .ok (options.fragments ++ options.schemas)
  | some text =>
    (jsonFragments refusal text).map fun more => options.fragments ++ options.schemas ++ more

/-- The mode that the options ask for. -/
def ProjectOptions.mode (options : ProjectOptions) : Mode :=
  if options.absent then .absent else .strict

/-- A value in the layout that the options ask for. -/
def ProjectOptions.render (options : ProjectOptions) (json : Json) : String :=
  if options.pretty then json.pretty else json.compact

/-- The bytes of the input. -/
def Surroundings.inputBytes (around : Surroundings σ) (options : ProjectOptions) :
    Except String ByteArray :=
  match options.input with
  | some path => around.fileSystem.read around.files path
  | none => around.stdin

/-- Why bytes that are no UTF-8 are refused. -/
def notUnicode : String := "stream did not contain valid UTF-8"

/-- The input text. -/
def readInput (options : ProjectOptions) (around : Surroundings σ) : Except Failure String :=
  match around.inputBytes options with
  | .error cause => .error (.inputUnreadable options.input cause)
  | .ok bytes =>
    match String.fromUTF8? bytes with
    | some text => .ok text
    | none => .error (.inputUnreadable options.input notUnicode)

/-- The input document. -/
def readSource (options : ProjectOptions) (around : Surroundings σ) : Except Failure Json :=
  match readInput options around with
  | .error failure => .error failure
  | .ok text =>
    match Json.ofText? text with
    | some source => .ok source
    | none => .error (.inputMalformed (around.refusal text))

/-- **The rendered result of `project`**, or the first failure. -/
def projectRun (options : ProjectOptions) (around : Surroundings σ) :
    Logged (Except Failure String) :=
  match options.allFragments around.refusal with
  | .error failure => pure (.error failure)
  | .ok fragments => do
    Logged.report (.fragmentsGiven fragments.length)
    match ← Schema.compile fragments with
    | .error error => pure (.error (.schemaInvalid error))
    | .ok schema =>
      match readSource options around with
      | .error failure => pure (.error failure)
      | .ok source => do
        let result ← schema.apply options.mode source
        pure (.ok (options.render result))

/-! ## `check` -/

/-- **The lines of `check`**: the canonical text of each fragment, up to the first that is refused. -/
def checkRun : List String → Logged (List String × Option Failure)
  | [] => pure ([], none)
  | fragment :: rest =>
    match Tree.compile fragment with
    | .error error => pure ([], some (.fragmentInvalid fragment error))
    | .ok tree => do
      Logged.report (.fragmentCompiled fragment tree)
      let (lines, failure) ← checkRun rest
      pure (tree.text :: lines, failure)

/-! ## Responses -/

/-- The wanted log records: the given filter, else everything down to the debug level if the command line
is verbose, else warnings and errors. -/
def Surroundings.filter (around : Surroundings σ) (verbose : Bool) : Filter :=
  match around.logFilter with
  | some text => (Filter.read text).1
  | none => .ofLevel (if verbose then .debug else .warn)

/-- What stands on the standard error before any failure: what is wrong with the given filter, and the
records that are written. -/
def Surroundings.report (around : Surroundings σ) (verbose : Bool) (events : List Event) :
    List String :=
  let warnings := (around.logFilter.map fun text => (Filter.read text).2).getD []
  warnings.map Log.Warning.message ++ (around.filter verbose).lines events

/-- The response to `project`. -/
def respondProject (options : ProjectOptions) (verbose : Bool) (around : Surroundings σ) : Response :=
  let run := projectRun options around
  let records := around.report verbose run.events
  match run.value with
  | .error failure => .failed records failure
  | .ok rendered =>
    match options.output with
    | none => ⟨0, rendered ++ "\n", records, none⟩
    | some path => ⟨0, "", records, some (path, rendered)⟩

/-- The response to `check`. -/
def respondCheck (fragments : List String) (verbose : Bool) (around : Surroundings σ) : Response :=
  let run := checkRun fragments
  let records := around.report verbose run.events
  let stdout := String.join (run.value.1.map (· ++ "\n"))
  match run.value.2 with
  | none => ⟨0, stdout, records, none⟩
  | some failure => ⟨1, stdout, records ++ [failure.text], none⟩

/-- What `--version` prints. -/
def versionText : String := "yank 0.1.0"

/-- How a command line looks. -/
def usageText : String :=
  "Usage: yank [-v] project [FRAGMENTS]... [-s SCHEMA]... [--fragments-json JSON] [-i INPUT] [-o OUTPUT] [--absent] [--pretty]\n" ++
    "       yank [-v] check FRAGMENTS..."

/-- **The response to a request.** -/
def respond (request : Request) (around : Surroundings σ) : Response :=
  match request with
  | .project options verbose => respondProject options verbose around
  | .check fragments verbose => respondCheck fragments verbose around
  | .version => ⟨0, versionText ++ "\n", [], none⟩
  | .help => ⟨0, usageText ++ "\n", [], none⟩

/-- **The response to a command line**; one that is refused ends with code 2. -/
def respondTo (words : List String) (around : Surroundings σ) : Response :=
  match Request.ofWords words with
  | .ok request => respond request around
  | .error _ => ⟨2, "", [usageText], none⟩

/-! ## Runs -/

/-- **A response carried out**: its file is written, and if that fails the response is one to this failure.  The
files afterwards are those that the attempt leaves. -/
def Response.carryOut (response : Response) (fileSystem : FileSystem σ) (files : σ) : Response × σ :=
  match response.written with
  | none => (response, files)
  | some (path, text) =>
    match fileSystem.write files path text.toUTF8 with
    | (.ok _, after) => (response, after)
    | (.error cause, after) => (.failed response.stderr (.outputUnwritable path cause), after)

/-- **A command line run in some surroundings**: the response, and the files afterwards. -/
def run (around : Surroundings σ) (words : List String) : Response × σ :=
  (respondTo words around).carryOut around.fileSystem around.files

/-- A directory around a run.  The standard input can be read, and the wording of the JSON reader is left open. -/
def Surroundings.inDirectory (directory : Directory) (stdin : ByteArray)
    (logFilter : Option String) : Surroundings Directory where
  fileSystem := Directory.fileSystem
  files := directory
  stdin := .ok stdin
  refusal _ := "malformed JSON"
  logFilter := logFilter

/-- **A command line run in a directory**: the response, and the directory afterwards. -/
def runIn (directory : Directory) (words : List String) (stdin : ByteArray)
    (logFilter : Option String) : Response × Directory :=
  run (.inDirectory directory stdin logFilter) words

end JsonProjection.Command
