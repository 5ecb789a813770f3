/-
# `JsonProjection.Log.Event` -- what is worth a log record.

An event is a fact about a run.  Its level, its target (the name under which a reader of the log may ask
for it) and its wording are functions of the event.
-/
import JsonProjection.Projection.Mode
import JsonProjection.Fragment.Writer
import JsonProjection.Text.Displayed

namespace JsonProjection.Log

/-- The level of a record, the most urgent first. -/
inductive Level where
  | error
  | warn
  | info
  | debug
  | trace
  deriving DecidableEq

namespace Level

/-- The place of a level in the order of urgency. -/
def rank : Level → Nat
  | .error => 1
  | .warn => 2
  | .info => 3
  | .debug => 4
  | .trace => 5

/-- The name of a level in a record. -/
def name : Level → String
  | .error => "ERROR"
  | .warn => "WARN"
  | .info => "INFO"
  | .debug => "DEBUG"
  | .trace => "TRACE"

/-- All levels. -/
def all : List Level := [.error, .warn, .info, .debug, .trace]

end Level

/-- **Events.** -/
inductive Event where
  /-- the command line names so many fragments -/
  | fragmentsGiven (count : Nat)
  /-- a fragment has been compiled -/
  | fragmentCompiled (fragment : String) (tree : Tree)
  /-- all fragments of a schema have been compiled -/
  | schemaCompiled (count : Nat)
  /-- a source is about to be projected through so many fragments -/
  | projecting (count : Nat) (mode : Mode)
  /-- the source does not own a property that was to be copied -/
  | notFound (name : String)
  /-- a property that was to be descended into is missing or no object -/
  | notEntered (name : String)
  deriving DecidableEq

namespace Event

/-- The level of the record. -/
def level : Event → Level
  | .fragmentsGiven _ => .debug
  | .fragmentCompiled _ _ => .trace
  | .schemaCompiled _ => .debug
  | .projecting _ _ => .debug
  | .notFound _ => .trace
  | .notEntered _ => .trace

/-- The target of the record. -/
def target : Event → String
  | .fragmentsGiven _ => "yank"
  | .fragmentCompiled _ _ => "yank_core::schema"
  | .schemaCompiled _ => "yank_core::projector"
  | .projecting _ _ => "yank_core::projector"
  | .notFound _ => "yank_core::projector"
  | .notEntered _ => "yank_core::projector"

/-- The wording of the record. -/
def message : Event → String
  | .fragmentsGiven count => toString count ++ " fragment(s) from command line"
  | .fragmentCompiled fragment tree =>
    "compiled schema fragment " ++ Text.displayed fragment ++ " -> " ++ tree.text
  | .schemaCompiled count => "compiled " ++ toString count ++ " schema fragment(s)"
  | .projecting count mode =>
    "projecting through " ++ toString count ++ " fragment(s) in " ++ mode.name ++ " mode"
  | .notFound name => "'" ++ name ++ "' not found"
  | .notEntered name => "'" ++ name ++ "' cannot be entered"

/-- The record as one line. -/
def line (event : Event) : String :=
  "[" ++ event.level.name ++ " " ++ event.target ++ "] " ++ event.message

end Event

end JsonProjection.Log
