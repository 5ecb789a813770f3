/-
# `JsonProjection.Pattern.Escape` -- what a backslash introduces.

An escape is a character, a shorthand of a set, a property or a condition on a place.  Punctuation marks of
ASCII stand for themselves, apart from the angle brackets, which are conditions; a letter that means
nothing is refused, so is a digit.
-/
import JsonProjection.Pattern.Cursor
import JsonProjection.Pattern.Expression
import JsonProjection.Text.Hexadecimal

namespace JsonProjection.Pattern

namespace Escape

/-! ## Single characters -/

/-- The control character that a letter stands for. -/
def control? (c : Char) : Option Char :=
  if c = 'a' then some '\x07'
  else if c = 'f' then some '\x0c'
  else if c = 'n' then some '\n'
  else if c = 'r' then some '\r'
  else if c = 't' then some '\t'
  else if c = 'v' then some '\x0b'
  else none

/-- The condition that a character stands for. -/
def anchor? (c : Char) : Option Anchor :=
  if c = 'A' then some .start
  else if c = 'z' then some .stop
  else if c = 'b' then some (.word .either)
  else if c = 'B' then some (.word .neither)
  else if c = '<' then some (.word .start)
  else if c = '>' then some (.word .stop)
  else none

/-- The set that a letter stands for; the capital letter stands for the complement. -/
def shorthand? (c : Char) : Option (Bool × CharSet) :=
  if c = 'd' then some (false, .digits)
  else if c = 'D' then some (true, .digits)
  else if c = 's' then some (false, .space)
  else if c = 'S' then some (true, .space)
  else if c = 'w' then some (false, .word)
  else if c = 'W' then some (true, .word)
  else none

/-- Whether an escaped character stands for itself. -/
def isPunctuation (c : Char) : Bool := c.toNat < 128 && !c.isAlphanum

/-- The meaning of an escape of one character. -/
def ofChar (span : Span) (c : Char) : Except PatternError Expression :=
  match shorthand? c, anchor? c, control? c with
  | some (negated, set), _, _ => .ok (.atom (.shorthand span negated set))
  | _, some anchor, _ => .ok (.anchor span anchor)
  | _, _, some char => .ok (.atom (.literal ⟨span, char, false⟩))
  | _, _, _ =>
    if isPunctuation c then .ok (.atom (.literal ⟨span, c, false⟩)) else refuse .escapeUnknown span

/-! ## Characters by number -/

/-- The digits that follow a letter: two after `x`, four after `u`, eight after `U`. -/
def digitCount (letter : Char) : Nat :=
  if letter = 'x' then 2 else if letter = 'u' then 4 else 8

/-- So many digits, and a gap after each. -/
def readDigits (verbose : Bool) : Nat → Cursor → Except PatternError (List Char × Cursor)
  | 0, cursor => .ok ([], cursor)
  | count + 1, cursor =>
    match cursor.rest with
    | [] => refuse .escapeCutShort cursor.here
    | c :: _ =>
      if (Text.hexValue? c).isSome then do
        let (digits, cursor) ← readDigits verbose count (cursor.advance verbose)
        return (c :: digits, cursor)
      else refuse .hexDigit cursor.char

/-- The character of a number whose digits stand at `span`. -/
def charOfDigits (span : Span) (digits : List Char) : Except PatternError Char :=
  match Text.ofCodePoint? (Text.ofHexDigits 0 digits) with
  | some char => .ok char
  | none => refuse .hexInvalid span

/-- A character by its number, in braces or with a fixed count of digits; the letter comes next, and the
backslash stands at `start`. -/
def readNumber (verbose : Bool) (start : Nat) (letter : Char) (cursor : Cursor) :
    Except PatternError (Expression × Cursor) := do
  let cursor := cursor.advance verbose
  if cursor.atEnd then refuse .escapeCutShort cursor.here
  else if cursor.isAt '{' then
    let brace := cursor.place
    let (digits, cursor) := (cursor.advance verbose).takeWhile verbose fun c => (Text.hexValue? c).isSome
    if cursor.atEnd then refuse .escapeCutShort (cursor.since brace)
    else if !cursor.isAt '}' then refuse .hexDigit cursor.char
    else
      let inner : Span := ⟨brace + 1, cursor.place⟩
      let cursor := cursor.advance verbose
      if digits.isEmpty then refuse .hexEmpty (cursor.since brace)
      else
        let char ← charOfDigits inner (digits.map Prod.snd)
        return (.atom (.literal ⟨cursor.since start, char, false⟩), cursor)
  else
    let first := cursor.place
    let (digits, cursor) ← readDigits verbose (digitCount letter) cursor
    let char ← charOfDigits (cursor.since first) digits
    return (.atom (.literal ⟨cursor.since start, char, letter = 'x'⟩), cursor)

/-! ## Properties and names of conditions -/

/-- The name of a property: one character, or what stands in braces; the letter comes next. -/
def readProperty (verbose : Bool) (start : Nat) (cursor : Cursor) :
    Except PatternError (Expression × Cursor) :=
  let cursor := cursor.advance verbose
  match cursor.rest with
  | [] => refuse .escapeCutShort cursor.here
  | '\\' :: _ => refuse .propertyInvalid cursor.char
  | '{' :: _ =>
    let (name, cursor) := (cursor.advance verbose).takeWhile verbose (· ≠ '}')
    if cursor.atEnd then refuse .escapeCutShort cursor.here
    else
      let cursor := cursor.next
      .ok (.atom (.property (cursor.since start) (name.map Prod.snd)), cursor)
  | c :: _ =>
    let cursor := cursor.advance verbose
    .ok (.atom (.property (cursor.since start) [c]), cursor)

/-- The condition with a name. -/
def wordEdge? (name : String) : Option WordEdge :=
  if name = "start" then some .start
  else if name = "end" then some .stop
  else if name = "start-half" then some .startHalf
  else if name = "end-half" then some .stopHalf
  else none

/-- What follows `\b`: a name in braces makes it a condition of its own; braces with anything else are left
to be a count. -/
def readEdge (verbose : Bool) (start : Nat) (cursor : Cursor) : Except PatternError (Expression × Cursor) :=
  let plain : Except PatternError (Expression × Cursor) :=
    .ok (.anchor (cursor.since start) (.word .either), cursor)
  if !cursor.isAt '{' then plain
  else
    let isNameChar (c : Char) : Bool := c.isAlpha || c = '-'
    let opened := cursor.advance verbose
    if opened.atEnd then refuse .boundaryOrCountCutShort (opened.since start)
    else if !opened.rest.head?.any isNameChar then plain
    else
      let (name, closing) := opened.takeWhile verbose isNameChar
      if !closing.isAt '}' then refuse .boundaryNameUnclosed (closing.since cursor.place)
      else
        match wordEdge? (String.ofList (name.map Prod.snd)) with
        | some edge => .ok (.anchor (closing.next.since start) (.word edge), closing.next)
        | none => refuse .boundaryNameUnknown ⟨opened.place, closing.place⟩

/-! ## All escapes -/

/-- **An escape**; the backslash comes next. -/
def read (verbose : Bool) (cursor : Cursor) : Except PatternError (Expression × Cursor) :=
  let start := cursor.place
  let cursor := cursor.next
  match cursor.rest with
  | [] => refuse .escapeCutShort (cursor.since start)
  | c :: _ =>
    if c.isDigit then refuse .backreference ⟨start, cursor.place + 1⟩
    else if c = 'x' ∨ c = 'u' ∨ c = 'U' then readNumber verbose start c cursor
    else if c = 'p' ∨ c = 'P' then readProperty verbose start cursor
    else if c = 'b' then readEdge verbose start cursor.next
    else (ofChar (cursor.next.since start) c).map fun expression => (expression, cursor.next)

end Escape

end JsonProjection.Pattern
