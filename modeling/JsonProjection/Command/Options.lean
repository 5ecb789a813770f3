/-
# `JsonProjection.Command.Options` -- the words of a command line.

A command line names a command, its options and its fragments, in any order.  `Request.ofWords` reads the
words one after the other and stops at the first that has no place; asking for the version or for help
ends the reading at once.  After `--` every word is a fragment.
-/
namespace JsonProjection.Command

/-! ## Requests -/

/-- The options of `project`. -/
structure ProjectOptions where
  /-- the fragments that stand as words of their own -/
  fragments : List String
  /-- the fragments of `-s` -/
  schemas : List String
  /-- the argument that `--fragments-json` gives as JSON text -/
  fragmentsJson : Option String
  input : Option String
  output : Option String
  absent : Bool
  pretty : Bool
  deriving DecidableEq

/-- What a command line asks for. -/
inductive Request where
  | project (options : ProjectOptions) (verbose : Bool)
  | check (fragments : List String) (verbose : Bool)
  | version
  | help
  deriving DecidableEq

/-- Why a command line is refused. -/
inductive UsageError where
  /-- a word that is no option and no command -/
  | unknown (word : String)
  /-- an option that stands twice -/
  | repeated (option : String)
  /-- an option without its value -/
  | missingValue (option : String)
  /-- a value for an option that takes none -/
  | unexpectedValue (option : String)
  /-- no command -/
  | missingCommand
  /-- no fragment where at least one is needed -/
  | missingFragments
  deriving DecidableEq

/-! ## Options -/

/-- The two commands. -/
inductive Kind where
  | project
  | check
  deriving DecidableEq

/-- Options that take no value. -/
inductive Flag where
  | verbose
  | help
  | absent
  | pretty
  deriving DecidableEq

/-- Options that take a value. -/
inductive Setting where
  | schema
  | fragmentsJson
  | input
  | output
  deriving DecidableEq

/-- The long name of a setting. -/
def Setting.name : Setting → String
  | .schema => "schema"
  | .fragmentsJson => "fragments-json"
  | .input => "input"
  | .output => "output"

/-- An option. -/
inductive Opt where
  | flag (flag : Flag)
  | setting (setting : Setting)
  deriving DecidableEq

/-- The option of a long name. -/
def Opt.ofLong? (kind : Kind) (name : String) : Option Opt :=
  if name = "verbose" then some (.flag .verbose)
  else if name = "help" then some (.flag .help)
  else
    match kind with
    | .check => none
    | .project =>
      if name = "absent" then some (.flag .absent)
      else if name = "pretty" then some (.flag .pretty)
      else if name = "schema" then some (.setting .schema)
      else if name = "fragments-json" then some (.setting .fragmentsJson)
      else if name = "input" then some (.setting .input)
      else if name = "output" then some (.setting .output)
      else none

/-- The option of a letter. -/
def Opt.ofLetter? (kind : Kind) (letter : Char) : Option Opt :=
  if letter = 'v' then some (.flag .verbose)
  else if letter = 'h' then some (.flag .help)
  else
    match kind with
    | .check => none
    | .project =>
      if letter = 's' then some (.setting .schema)
      else if letter = 'i' then some (.setting .input)
      else if letter = 'o' then some (.setting .output)
      else none

/-! ## Words -/

/-- What a word is, by its first characters. -/
inductive Word where
  /-- `--` alone -/
  | separator
  /-- `--name` or `--name=value` -/
  | long (name : String) (value : Option String)
  /-- `-` and letters -/
  | letters (letters : List Char)
  /-- anything else, a lone `-` among it -/
  | plain (word : String)
  deriving DecidableEq

/-- The name and the value of a long option, parted at the first equals sign. -/
def Word.ofLong (cs : List Char) : Word :=
  let name := String.ofList (cs.takeWhile (· ≠ '='))
  match cs.dropWhile (· ≠ '=') with
  | [] => .long name none
  | _ :: value => .long name (some (String.ofList value))

/-- **What a word is.** -/
def Word.ofString (word : String) : Word :=
  match word.toList with
  | ['-', '-'] => .separator
  | '-' :: '-' :: rest => .ofLong rest
  | ['-'] => .plain word
  | '-' :: cluster => .letters cluster
  | _ => .plain word

/-- Whether a word may be the value of the option before it: it must not look like an option. -/
def isDetachedValue (word : String) : Bool :=
  match Word.ofString word with
  | .plain _ => true
  | _ => false

/-! ## The words of a command -/

/-- What the words of a command have said so far. -/
structure Draft where
  /-- the fragments, newest first -/
  fragments : List String
  /-- the fragments of `-s`, newest first -/
  schemas : List String
  fragmentsJson : Option String
  input : Option String
  output : Option String
  absent : Bool
  pretty : Bool
  verbose : Bool
  deriving DecidableEq

/-- How the reading of a command's words can end early: in an error, or with the wish for help. -/
inductive Stop where
  | error (error : UsageError)
  | help
  deriving DecidableEq

namespace Draft

/-- Nothing has been said. -/
def empty : Draft := ⟨[], [], none, none, none, false, false, false⟩

/-- A further fragment. -/
def addFragment (draft : Draft) (fragment : String) : Draft :=
  { draft with fragments := fragment :: draft.fragments }

/-- A flag; none may stand twice. -/
def setFlag (draft : Draft) : Flag → Except Stop Draft
  | .verbose =>
    if draft.verbose then .error (.error (.repeated "verbose"))
    else .ok { draft with verbose := true }
  | .help => .error .help
  | .absent =>
    if draft.absent then .error (.error (.repeated "absent"))
    else .ok { draft with absent := true }
  | .pretty =>
    if draft.pretty then .error (.error (.repeated "pretty"))
    else .ok { draft with pretty := true }

/-- A setting; only `schema` may stand more than once. -/
def setValue (draft : Draft) (setting : Setting) (value : String) : Except Stop Draft :=
  match setting with
  | .schema => .ok { draft with schemas := value :: draft.schemas }
  | .fragmentsJson =>
    if draft.fragmentsJson.isSome then .error (.error (.repeated setting.name))
    else .ok { draft with fragmentsJson := some value }
  | .input =>
    if draft.input.isSome then .error (.error (.repeated setting.name))
    else .ok { draft with input := some value }
  | .output =>
    if draft.output.isSome then .error (.error (.repeated setting.name))
    else .ok { draft with output := some value }

/-- A long option with what stands after its equals sign; the setting that still waits for its value, if
there is one. -/
def takeLong (draft : Draft) (kind : Kind) (name : String) (value : Option String) :
    Except Stop (Draft × Option Setting) :=
  match Opt.ofLong? kind name with
  | none => .error (.error (.unknown ("--" ++ name)))
  | some (.flag flag) =>
    match value with
    | some _ => .error (.error (.unexpectedValue ("--" ++ name)))
    | none => (draft.setFlag flag).map fun draft => (draft, none)
  | some (.setting setting) =>
    match value with
    | some value => (draft.setValue setting value).map fun draft => (draft, none)
    | none => .ok (draft, some setting)

/-- The letters of one word: flags, and at the end perhaps a setting, whose value is the rest of the word
without a first equals sign, or the next word if nothing is left. -/
def takeLetters (draft : Draft) (kind : Kind) : List Char → Except Stop (Draft × Option Setting)
  | [] => .ok (draft, none)
  | letter :: rest =>
    match Opt.ofLetter? kind letter with
    | none => .error (.error (.unknown ("-" ++ String.singleton letter)))
    | some (.flag flag) =>
      match draft.setFlag flag with
      | .error stop => .error stop
      | .ok draft => draft.takeLetters kind rest
    | some (.setting setting) =>
      match rest with
      | [] => .ok (draft, some setting)
      | '=' :: value => (draft.setValue setting (String.ofList value)).map fun draft => (draft, none)
      | value => (draft.setValue setting (String.ofList value)).map fun draft => (draft, none)

/-- One word, which is no value of a setting before it. -/
def takeWord (draft : Draft) (kind : Kind) (word : String) : Except Stop (Draft × Option Setting) :=
  match Word.ofString word with
  | .long name value => draft.takeLong kind name value
  | .letters letters => draft.takeLetters kind letters
  | _ => .ok (draft.addFragment word, none)

/-- **The words of a command**; `waiting` is the setting whose value must come next. -/
def takeWords (kind : Kind) : Draft → Option Setting → List String → Except Stop Draft
  | draft, none, [] => .ok draft
  | _, some setting, [] => .error (.error (.missingValue setting.name))
  | draft, some setting, word :: rest =>
    if isDetachedValue word then
      match draft.setValue setting word with
      | .error stop => .error stop
      | .ok draft => takeWords kind draft none rest
    else .error (.error (.missingValue setting.name))
  | draft, none, word :: rest =>
    -- everything after the separator is a fragment, whatever it looks like
    if word = "--" then .ok { draft with fragments := rest.reverse ++ draft.fragments }
    else
      match draft.takeWord kind word with
      | .error stop => .error stop
      | .ok (draft, waiting) => takeWords kind draft waiting rest

/-- The options of `project` that a draft holds. -/
def projectOptions (draft : Draft) : ProjectOptions where
  fragments := draft.fragments.reverse
  schemas := draft.schemas.reverse
  fragmentsJson := draft.fragmentsJson
  input := draft.input
  output := draft.output
  absent := draft.absent
  pretty := draft.pretty

end Draft

/-! ## Whole command lines -/

/-- The command of a name. -/
def Kind.ofName? (name : String) : Option Kind :=
  if name = "project" then some .project
  else if name = "check" then some .check
  else none

/-- The request of a command and the words after it. -/
def Request.ofCommand (kind : Kind) (verbose : Bool) (words : List String) :
    Except UsageError Request :=
  match Draft.takeWords kind .empty none words with
  | .error .help => .ok .help
  | .error (.error error) => .error error
  | .ok draft =>
    match kind with
    | .project => .ok (.project draft.projectOptions (verbose || draft.verbose))
    | .check =>
      if draft.fragments.isEmpty then .error .missingFragments
      else .ok (.check draft.fragments.reverse (verbose || draft.verbose))

/-- The letters of a word before the command: only flags, and the wish for the version. -/
def takeGlobalLetters (verbose : Bool) : List Char → Except UsageError (Bool ⊕ Request)
  | [] => .ok (.inl verbose)
  | letter :: rest =>
    if letter = 'v' then
      if verbose then .error (.repeated "verbose") else takeGlobalLetters true rest
    else if letter = 'V' then .ok (.inr .version)
    else if letter = 'h' then .ok (.inr .help)
    else .error (.unknown ("-" ++ String.singleton letter))

/-- A long option before the command. -/
def takeGlobalLong (verbose : Bool) (name : String) (value : Option String) :
    Except UsageError (Bool ⊕ Request) :=
  let known := name = "verbose" ∨ name = "version" ∨ name = "help"
  if ¬ known then .error (.unknown ("--" ++ name))
  else if value.isSome then .error (.unexpectedValue ("--" ++ name))
  else if name = "version" then .ok (.inr .version)
  else if name = "help" then .ok (.inr .help)
  else if verbose then .error (.repeated "verbose")
  else .ok (.inl true)

/-- The words after `help`: the names of commands to explain. -/
def helpTopics : List String → Except UsageError Request
  | [] => .ok .help
  | [name] =>
    if (Kind.ofName? name).isSome ∨ name = "help" then .ok .help else .error (.unknown name)
  | name :: _ => .error (.unknown name)

/-- The words of a command line, from the first word that has not been read. -/
def Request.ofWordsFrom (verbose : Bool) : List String → Except UsageError Request
  | [] => .error .missingCommand
  | word :: rest =>
    let continueWith : Except UsageError (Bool ⊕ Request) → Except UsageError Request
      | .error error => .error error
      | .ok (.inr request) => .ok request
      | .ok (.inl verbose) => Request.ofWordsFrom verbose rest
    match Word.ofString word with
    | .separator => .error (.unknown word)
    | .long name value => continueWith (takeGlobalLong verbose name value)
    | .letters letters => continueWith (takeGlobalLetters verbose letters)
    | .plain name =>
      match Kind.ofName? name with
      | some kind => Request.ofCommand kind verbose rest
      | none => if name = "help" then helpTopics rest else .error (.unknown name)

/-- **The request of a command line.** -/
def Request.ofWords (words : List String) : Except UsageError Request :=
  Request.ofWordsFrom false words

end JsonProjection.Command
