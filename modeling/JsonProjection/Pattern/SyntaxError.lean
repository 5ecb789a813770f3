/-
# `JsonProjection.Pattern.SyntaxError` -- why the text of a pattern is refused, and where.

A refusal names a cause and the part of the text it is about, at times also an earlier part that it is in
conflict with.  The message shows the text and marks these parts in a line of their own.  A text of several
lines is shown with the numbers of its lines, and a part that goes over the end of a line is described in
words.

Properties of characters beyond ASCII are not known here: what asks for them is refused too.
-/
import JsonProjection.Text.Split

namespace JsonProjection

namespace Pattern

/-- **A part of a text**, by the numbers of characters before its beginning and before its end. -/
structure Span where
  start : Nat
  stop : Nat
  deriving DecidableEq

/-- The part without characters at a place. -/
def Span.place (n : Nat) : Span := ⟨n, n⟩

/-- The character at a place. -/
def Span.char (n : Nat) : Span := ⟨n, n + 1⟩

end Pattern

open Pattern (Span)

/-- Why the text of a pattern is refused. -/
inductive PatternError.Cause where
  | backreference
  | boundaryNameUnknown
  | boundaryNameUnclosed
  | boundaryOrCountCutShort
  | caseUnknown
  | classEscape
  | classRange
  | classRangeEnd
  | classUnclosed
  | countEmpty
  | countOrder
  | countUnclosed
  | decimalTooLarge
  | escapeCutShort
  | escapeUnknown
  | flagCutShort
  | flagDangling
  | flagNegatedTwice
  | flagRepeated
  | flagUnknown
  | groupNameCutShort
  | groupNameEmpty
  | groupNameInvalid
  | groupNameRepeated
  | groupUnclosed
  | groupUnopened
  | hexDigit
  | hexEmpty
  | hexInvalid
  | lookAround
  | nestingTooDeep (limit : Nat)
  | nothingToRepeat
  | propertyInvalid
  | propertyUnknown
  | propertyValueUnknown
  | shorthandUnknown
  | unicodeNotAllowed
  | utf8Invalid
  deriving DecidableEq

/-- **Why a pattern is refused.** -/
inductive PatternError where
  /-- something is wrong with a part of the text, perhaps beside an earlier part -/
  | text (cause : PatternError.Cause) (span : Span) (earlier : Option Span)
  /-- the pattern is too large -/
  | size
  /-- the ends of words are asked for by the rules of Unicode -/
  | wordEdge
  deriving DecidableEq

namespace PatternError

/-- How many bytes the states of a pattern may take. -/
def maxSize : Nat := 10485760

/-- The cause in words. -/
def Cause.detail : Cause → String
  | .backreference => "backreferences are not supported"
  | .boundaryNameUnknown =>
    "unrecognized special word boundary assertion, valid choices are: start, end, start-half or end-half"
  | .boundaryNameUnclosed =>
    "special word boundary assertion is either unclosed or contains an invalid character"
  | .boundaryOrCountCutShort =>
    "found either the beginning of a special word boundary or a bounded repetition on a \\b with an " ++
      "opening brace, but no closing brace"
  | .caseUnknown =>
    "Unicode-aware case insensitivity matching is not available " ++
      "(make sure the unicode-case feature is enabled)"
  | .classEscape => "invalid escape sequence found in character class"
  | .classRange => "invalid character class range, the start must be <= the end"
  | .classRangeEnd => "invalid range boundary, must be a literal"
  | .classUnclosed => "unclosed character class"
  | .countEmpty => "repetition quantifier expects a valid decimal"
  | .countOrder => "invalid repetition count range, the start must be <= the end"
  | .countUnclosed => "unclosed counted repetition"
  | .decimalTooLarge => "decimal literal invalid"
  | .escapeCutShort => "incomplete escape sequence, reached end of pattern prematurely"
  | .escapeUnknown => "unrecognized escape sequence"
  | .flagCutShort => "expected flag but got end of regex"
  | .flagDangling => "dangling flag negation operator"
  | .flagNegatedTwice => "flag negation operator repeated"
  | .flagRepeated => "duplicate flag"
  | .flagUnknown => "unrecognized flag"
  | .groupNameCutShort => "unclosed capture group name"
  | .groupNameEmpty => "empty capture group name"
  | .groupNameInvalid => "invalid capture group character"
  | .groupNameRepeated => "duplicate capture group name"
  | .groupUnclosed => "unclosed group"
  | .groupUnopened => "unopened group"
  | .hexDigit => "invalid hexadecimal digit"
  | .hexEmpty => "hexadecimal literal empty"
  | .hexInvalid => "hexadecimal literal is not a Unicode scalar value"
  | .lookAround => "look-around, including look-ahead and look-behind, is not supported"
  | .nestingTooDeep limit =>
    "exceeded the maximum number of nested parentheses/brackets (" ++ toString limit ++ ")"
  | .nothingToRepeat => "repetition operator missing expression"
  | .propertyInvalid => "invalid Unicode character class"
  | .propertyUnknown => "Unicode property not found"
  | .propertyValueUnknown => "Unicode property value not found"
  | .shorthandUnknown =>
    "Unicode-aware Perl class not found (make sure the unicode-perl feature is enabled)"
  | .unicodeNotAllowed => "Unicode not allowed here"
  | .utf8Invalid => "pattern can match invalid UTF-8"

/-! ## Showing the text -/

/-- The lines of a text, without the ends of lines; after the last end of a line a line begins only if
something stands there. -/
def textLines (text : List Char) : List (List Char) :=
  let pieces := Text.splitAt '\n' text
  let ended := pieces.dropLast.map fun line => if line.getLast? = some '\r' then line.dropLast else line
  ended ++ pieces.getLast?.toList.filter (fun line => !line.isEmpty)

/-- A place by its line and by its column in the line, both counted from one. -/
structure Position where
  line : Nat
  column : Nat
  deriving DecidableEq

/-- The position of the place that `n` characters precede. -/
def Position.of (text : List Char) (n : Nat) : Position :=
  let before := text.take n
  ⟨before.count '\n' + 1, (before.reverse.takeWhile (· ≠ '\n')).length + 1⟩

/-- The marks of parts of one line, which are given in order by their columns; `column` is the next to be
written.  A part without characters is marked by one. -/
def marksFrom (column : Nat) : List (Nat × Nat) → List Char
  | [] => []
  | (start, stop) :: parts =>
    let length := max 1 (stop - start)
    List.replicate (start - column) ' ' ++ List.replicate length '^' ++
      marksFrom (max column start + length) parts

/-- The line of marks below a line of the text, if a part lies in it. -/
def marks? (text : List Char) (spans : List Span) (line : Nat) : Option (List Char) :=
  let parts := spans.filterMap fun span =>
    let start := Position.of text span.start
    let stop := Position.of text span.stop
    if start.line = line ∧ stop.line = line then some (start.column, stop.column) else none
  if parts.isEmpty then none else some (marksFrom 1 parts)

/-- A part that goes over the end of a line, in words. -/
def overLines? (text : List Char) (span : Span) : Option String :=
  let start := Position.of text span.start
  let stop := Position.of text span.stop
  if start.line = stop.line then none
  else
    some ("on line " ++ toString start.line ++ " (column " ++ toString start.column ++
      ") through line " ++ toString stop.line ++ " (column " ++ toString (stop.column - 1) ++ ")\n")

/-- The lines of the text, each followed by its marks, where `lead` gives what stands before a line. -/
def shown (text : List Char) (spans : List Span) (lead : Nat → String) : String :=
  let indent := String.ofList ((lead 1).toList.map fun _ => ' ')
  String.join ((textLines text).zipIdx.map fun (line, i) =>
    lead (i + 1) ++ String.ofList line ++ "\n" ++
      match marks? text spans (i + 1) with
      | some marks => indent ++ String.ofList marks ++ "\n"
      | none => "")

/-- The message about parts of the text. -/
def textMessage (text : List Char) (spans : List Span) (detail : String) : String :=
  let ends := text.count '\n'
  if ends = 0 then
    "regex parse error:\n" ++ shown text spans (fun _ => "    ") ++ "error: " ++ detail
  else
    let width := (toString (ends + 1)).length
    let lead (n : Nat) : String :=
      String.ofList (List.replicate (width - (toString n).length) ' ') ++ toString n ++ ": "
    let divider := String.ofList (List.replicate 79 '~') ++ "\n"
    "regex parse error:\n" ++ divider ++ shown text spans lead ++ divider ++
      String.join (spans.filterMap (overLines? text)) ++ "error: " ++ detail

/-- **The message** about the text of a pattern. -/
def message (error : PatternError) (text : List Char) : String :=
  match error with
  | .text cause span none => textMessage text [span] cause.detail
  | .text cause span (some earlier) => textMessage text [earlier, span] cause.detail
  | .size => "Compiled regex exceeds size limit of " ++ toString maxSize ++ " bytes."
  | .wordEdge => "error building NFA"

end PatternError

namespace Pattern

/-- A refusal because of one part of the text. -/
def refuse {α : Type} (cause : PatternError.Cause) (span : Span) : Except PatternError α :=
  .error (.text cause span none)

/-- A refusal because of a part that is in conflict with an earlier one. -/
def refuseAfter {α : Type} (cause : PatternError.Cause) (span earlier : Span) : Except PatternError α :=
  .error (.text cause span (some earlier))

end Pattern

end JsonProjection
