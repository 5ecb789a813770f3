/-
# `JsonProjection.Fragment.SyntaxError` -- why a fragment is refused, and where.

An error is a cause and a place.  The causes say what the reader wanted and, where it matters, what it met
instead; the place is the number of bytes before the offending token, or the length of the whole text if
the text ended too soon.  The wording is in `Cause.detail` and `SyntaxError.message` alone.
-/
namespace JsonProjection

/-- The deepest nesting of non-empty blocks that a fragment may have. -/
def maxNesting : Nat := 128

/-- Why a fragment is refused; `found` is the first character of the offending token, `none` at the
end of the text. -/
inductive SyntaxError.Cause where
  /-- a name must start here -/
  | expectedName (found : Option Char)
  /-- an entry is complete and neither goes on nor ends here -/
  | expectedSeparator (found : Char)
  /-- a colon is followed by something other than a block -/
  | expectedBlock (found : Option Char)
  /-- a key is renamed twice -/
  | repeatedArrow
  /-- the text ends inside a block -/
  | unclosedBlock
  /-- a right brace closes nothing -/
  | unmatchedBrace
  /-- a block that is not empty would lie deeper than `maxNesting` -/
  | nestedTooDeeply
  deriving DecidableEq

/-- **A syntax error**: the cause, and the number of bytes before the place. -/
structure SyntaxError where
  offset : Nat
  cause : SyntaxError.Cause
  deriving DecidableEq

namespace SyntaxError

/-- What was met, in words. -/
def foundText : Option Char → String
  | some c => "found '" ++ String.singleton c ++ "'"
  | none => "found end of schema"

/-- The cause in words. -/
def Cause.detail : Cause → String
  | .expectedName found => "expected property name, " ++ foundText found
  | .expectedSeparator found => "expected ',' or end of entry, " ++ foundText (some found)
  | .expectedBlock found => "expected '\x7b' after ':', " ++ foundText found
  | .repeatedArrow => "only one '->' is allowed per key"
  | .unclosedBlock => "unclosed '\x7b'"
  | .unmatchedBrace => "unmatched '\x7d'"
  | .nestedTooDeeply => "schema nested too deeply"

/-- The cause in words. -/
def detail (error : SyntaxError) : String := error.cause.detail

/-- The whole message. -/
def message (error : SyntaxError) : String :=
  "Schema syntax error at offset " ++ toString error.offset ++ ": " ++ error.detail

end SyntaxError

end JsonProjection
