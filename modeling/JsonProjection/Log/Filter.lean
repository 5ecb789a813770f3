/-
# `JsonProjection.Log.Filter` -- which records are written.

A filter is a list of directives, each a beginning of targets and the least urgent level that it lets
through, and perhaps a pattern for the messages.  The directive with the longest matching beginning
decides; a target that no directive matches is not written, and neither is a message in which the pattern
does not occur.

A filter is given as a text: directives separated by commas, each a level, a target, or a target and a
level with an equals sign between them, and after a slash the pattern.  What is malformed is left out, and
warned of.
-/
import JsonProjection.Assoc
import JsonProjection.Log.Event
import JsonProjection.Pattern.Meaning
import JsonProjection.Text.Split

namespace JsonProjection.Log

/-- **Directives**: under a target, the least urgent level that is written; `none` writes nothing.  The
directive without a target is for all targets.  A target that is given again keeps its place and takes the
last level. -/
abbrev Directives := List (Option (List Char) × Option Level)

/-- **A filter.** -/
structure Filter where
  directives : Directives
  /-- what must occur in the message -/
  pattern : Option Pattern
  deriving DecidableEq

/-! ## Reading a filter -/

/-- A level as it is written in a filter, in any case; `off` is no level. -/
def levelOfText? (text : List Char) : Option (Option Level) :=
  let name := String.ofList (text.map Char.toUpper)
  if name = "OFF" then some none
  else (Level.all.find? fun level => level.name = name).map some

/-- A text without the whitespace at its ends. -/
def trimmed (cs : List Char) : List Char :=
  ((cs.dropWhile Text.isWhitespace).reverse.dropWhile Text.isWhitespace).reverse

/-- What is wrong with the text of a filter. -/
inductive Warning where
  /-- a part that is no level, no target and no pair of both -/
  | malformed (text : List Char)
  /-- more than one slash -/
  | manySlashes (text : String)
  /-- a pattern that is refused -/
  | pattern (text : List Char) (error : PatternError)
  deriving DecidableEq

/-- The wording of the warning. -/
def Warning.message : Warning → String
  | .malformed text => "warning: invalid logging spec '" ++ String.ofList text ++ "', ignoring it"
  | .manySlashes text =>
    "warning: invalid logging spec '" ++ text ++ "' (too many '/'s), ignoring it"
  | .pattern text error =>
    "warning: invalid regex filter - " ++ error.message text ++ ", ignoring it"

/-- One directive: its target, if it has one, and its level. -/
def readDirective (text : List Char) : Except Warning (Option (List Char) × Option Level) :=
  match Text.splitAt '=' text with
  | [name] =>
    match levelOfText? name with
    | some level => .ok (none, level)
    | none => .ok (some name, some .trace)
  | [target, levelText] =>
    -- an equals sign with nothing after it limits nothing
    if trimmed levelText = [] then .ok (some target, some .trace)
    else
      match levelOfText? (trimmed levelText) with
      | some level => .ok (some target, level)
      | none => .error (.malformed (trimmed levelText))
  | _ => .error (.malformed text)

/-- The directives of the parts of a text, added to those before them, and what is wrong with the
others. -/
def readDirectives (directives : Directives) : List (List Char) → Directives × List Warning
  | [] => (directives, [])
  | part :: parts =>
    if part.isEmpty then readDirectives directives parts
    else
      match readDirective part with
      | .ok (target, level) => readDirectives (Assoc.set target level directives) parts
      | .error warning =>
        let (directives, warnings) := readDirectives directives parts
        (directives, warning :: warnings)

namespace Filter

/-- The filter that writes everything down to a level. -/
def ofLevel (level : Level) : Filter := ⟨[(none, some level)], none⟩

/-- The filter of directives and a pattern; without a directive only errors are written. -/
def ofDirectives (directives : Directives) (pattern : Option Pattern) : Filter :=
  if directives.isEmpty then ⟨(ofLevel .error).directives, pattern⟩ else ⟨directives, pattern⟩

/-- **The filter of a text**, and what is wrong with the text. -/
def read (text : String) : Filter × List Warning :=
  let ofChars (chars : List Char) : Directives × List Warning :=
    readDirectives [] ((Text.splitAt ',' chars).map trimmed)
  match Text.splitAt '/' text.toList with
  | [chars] =>
    let (directives, warnings) := ofChars chars
    (ofDirectives directives none, warnings)
  | [chars, pattern] =>
    let (directives, warnings) := ofChars chars
    match Pattern.ofChars pattern with
    | .ok pattern => (ofDirectives directives (some pattern), warnings)
    | .error error => (ofDirectives directives none, warnings ++ [.pattern pattern error])
  | _ => (ofDirectives [] none, [.manySlashes text])

/-! ## Filtering -/

/-- Whether a target begins as a directive says. -/
def appliesTo (target : List Char) (beginning : Option (List Char)) : Bool :=
  (beginning.getD []).isPrefixOf target

/-- **The level for a target**: of the directives that apply the longest decides, and of those as long the
last; where none applies nothing is written. -/
def levelFor (filter : Filter) (target : List Char) : Option Level :=
  let applying := filter.directives.filter fun directive => appliesTo target directive.1
  let length (directive : Option (List Char) × Option Level) : Nat := (directive.1.getD []).length
  let deciding := applying.foldl
    (fun best directive =>
      match best with
      | some other => if length other ≤ length directive then some directive else some other
      | none => some directive)
    none
  deciding.bind Prod.snd

/-- **Whether the record of an event is written.** -/
def admits (filter : Filter) (event : Event) : Bool :=
  (filter.levelFor event.target.toList).any (fun least => event.level.rank ≤ least.rank) &&
    filter.pattern.all fun pattern => pattern.occursIn event.message.toList

/-- The lines of the events that are written. -/
def lines (filter : Filter) (events : List Event) : List String :=
  (events.filter (admits filter)).map Event.line

end Filter

end JsonProjection.Log
