/-
# `JsonProjection.Pattern.Meaning` -- the pattern that a text describes.

What a part means depends on the flags before it: flags hold to the end of their group, in later branches
too.  Parts are taken from the left, and the first that has no meaning is the reason to refuse the text.

No properties of characters are known beyond ASCII.  While `unicode` is set, as it is at the beginning, that
refuses shorthands, properties, and letters in either case.  While it is not set, bytes are matched, the
shorthands and letters are those of ASCII, and what could match a part of a character is refused: the dot
and complements.

What has a meaning is still refused if it is too large, or asks for the ends of words by the rules of Unicode.
-/
import JsonProjection.Pattern.Reader
import JsonProjection.Pattern.Size

namespace JsonProjection.Pattern

/-! ## Flags -/

/-- **The flags at a place.** -/
structure Flags where
  ignoreCase : Bool
  multiLine : Bool
  dotAll : Bool
  unicode : Bool
  returns : Bool
  deriving DecidableEq

namespace Flags

/-- The flags at the beginning of a text. -/
def initial : Flags := ⟨false, false, false, true, false⟩

/-- One flag is set or unset. -/
def set (flags : Flags) (flag : Flag) (value : Bool) : Flags :=
  match flag with
  | .ignoreCase => { flags with ignoreCase := value }
  | .multiLine => { flags with multiLine := value }
  | .dotAll => { flags with dotAll := value }
  | .unicode => { flags with unicode := value }
  | .returns => { flags with returns := value }
  | .swapGreed => flags
  | .verbose => flags

/-- All changes. -/
def setAll (flags : Flags) (changes : FlagChanges) : Flags :=
  changes.foldl (fun flags change => flags.set change.1 change.2) flags

/-- Whether letters in either case are asked for by the rules of Unicode. -/
def foldsUnicode (flags : Flags) : Bool := flags.unicode && flags.ignoreCase

/-- The characters of a range. -/
def range (flags : Flags) (first last : Char) : CharSet :=
  if flags.ignoreCase then .foldedRange first last else .range first last

/-- The complement of a set, or the set; a complement among bytes has parts of characters. -/
def complement (flags : Flags) (span : Span) (negated : Bool) (set : CharSet) :
    Except PatternError CharSet :=
  if !negated then .ok set
  else if flags.unicode then .ok (.compl set)
  else refuse .utf8Invalid span

end Flags

/-! ## Atoms -/

/-- Whether a literal means a byte that is no character. -/
def Literal.isRawByte (flags : Flags) (literal : Literal) : Bool :=
  !flags.unicode && literal.isByte && 128 ≤ literal.char.toNat

/-- The name of a property as it is compared: without a leading `is`, blanks, underscores, minus signs and
characters beyond ASCII, in small letters. -/
def propertyName (name : List Char) : List Char :=
  let small := name.map Char.toLower
  let bare := if small.take 2 = ['i', 's'] then small.drop 2 else small
  bare.filter fun c => !(c = ' ' || c = '_' || c = '-') && c.toNat < 128

/-- The names that are looked for among the values of a property, and not among properties. -/
def isValueName (name : List Char) : Bool :=
  let name := propertyName name
  name = ['c', 'f'] || name = ['s', 'c'] || name = ['l', 'c']

/-- The set of a shorthand or a property. -/
def Atom.set (flags : Flags) : Atom → Except PatternError CharSet
  | .literal l =>
    if l.isRawByte flags then refuse .utf8Invalid l.span else .ok (flags.range l.char l.char)
  | .shorthand span negated set =>
    if flags.unicode then refuse .shorthandUnknown span else flags.complement span negated set
  | .property span name =>
    if !flags.unicode then refuse .unicodeNotAllowed span
    else if isValueName name then refuse .propertyValueUnknown span
    else refuse .propertyUnknown span

/-! ## Classes -/

/-- One end of a range in a class, or a character in it; among bytes it must be one of ASCII. -/
def Literal.inClass (flags : Flags) (literal : Literal) : Except PatternError Char :=
  if literal.isRawByte flags then refuse .utf8Invalid literal.span
  else if !flags.unicode && 128 ≤ literal.char.toNat then refuse .unicodeNotAllowed literal.span
  else .ok literal.char

namespace ClassExpression

mutual

/-- Whether a part of a class lists characters itself, and not in brackets inside of it. -/
def listsChars : ClassExpression → Bool
  | .atom (.literal _) => true
  | .range _ _ _ => true
  | .union _ items => anyListsChars items
  | _ => false

/-- Whether one of the parts lists characters itself. -/
def anyListsChars : List ClassExpression → Bool
  | [] => false
  | item :: items => item.listsChars || anyListsChars items

end

/-- A part whose letters are to stand for either case; by the rules of Unicode that cannot be done unless
there are none. -/
def fold (flags : Flags) (part : ClassExpression) : Except PatternError Unit :=
  if flags.foldsUnicode && part.listsChars then refuse .caseUnknown part.span else .ok ()

mutual

/-- **The set of characters** of a class or of a part of it. -/
def set (flags : Flags) : ClassExpression → Except PatternError CharSet
  | .empty _ => .ok .empty
  | .atom (.literal l) => do
    let c ← l.inClass flags
    return flags.range c c
  | .atom a => a.set flags
  | .range _ first last => do
    let first ← first.inClass flags
    let last ← last.inClass flags
    return flags.range first last
  | .named span negated ranges =>
    if flags.foldsUnicode then refuse .caseUnknown span
    else
      flags.complement span negated
        (ranges.foldr (fun range set => .union (flags.range range.1 range.2) set) .empty)
  | .union _ items => setOfAll flags items
  | .operation _ op left right => do
    let a ← left.set flags
    let b ← right.set flags
    right.fold flags
    left.fold flags
    match op with
    | .intersection => return .inter a b
    | .difference => return .diff a b
    | .symmetricDifference => return .union (.diff a b) (.diff b a)
  | .bracketed span negated content => do
    let set ← content.set flags
    if flags.foldsUnicode && content.listsChars then refuse .caseUnknown span
    else flags.complement span negated set

/-- The set of all characters in one of the parts. -/
def setOfAll (flags : Flags) : List ClassExpression → Except PatternError CharSet
  | [] => .ok .empty
  | item :: items => do
    let a ← item.set flags
    let b ← setOfAll flags items
    return .union a b

end

end ClassExpression

/-! ## Patterns -/

/-- The pattern of an atom; by the rules of Unicode a character has no other case that is known. -/
def Atom.pattern (flags : Flags) : Atom → Except PatternError Pattern
  | .literal l =>
    if flags.foldsUnicode then refuse .caseUnknown l.span
    else (Atom.set flags (.literal l)).map .one
  | other => (other.set flags).map .one

/-- The set of the dot. -/
def Flags.dot (flags : Flags) (span : Span) : Except PatternError CharSet :=
  if !flags.unicode then refuse .utf8Invalid span
  else if flags.dotAll then .ok (.compl .empty)
  else if flags.returns then .ok (.compl (.union (.single '\n') (.single '\r')))
  else .ok (.compl (.single '\n'))

/-- The condition of an anchor. -/
def Flags.assertion (flags : Flags) : Anchor → Assertion
  | .lineStart => if flags.multiLine then .lineStart flags.returns else .start
  | .lineStop => if flags.multiLine then .lineStop flags.returns else .stop
  | .start => .start
  | .stop => .stop
  | .word edge => .word edge flags.unicode

namespace Expression

mutual

/-- **The pattern of a part**, and the flags after it. -/
def pattern (flags : Flags) : Expression → Except PatternError (Pattern × Flags)
  | .empty _ => .ok (.empty, flags)
  | .flags _ changes => .ok (.empty, flags.setAll changes)
  | .atom a => do
    return (← a.pattern flags, flags)
  | .dot span => do
    return (.one (← flags.dot span), flags)
  | .anchor _ a => .ok (.assert (flags.assertion a), flags)
  | .charClass content => do
    return (.one (← content.set flags), flags)
  | .repetition _ item least most => do
    let (p, flags) ← item.pattern flags
    return (if most = some 0 then .empty else .repeated p least most, flags)
  | .group _ remembered changes content => do
    let (p, _) ← content.pattern (flags.setAll changes)
    return (if remembered then .group p else p, flags)
  | .alternation _ branches => do
    let (ps, flags) ← patterns flags branches
    return (choice ps, flags)
  | .concat _ items => do
    let (ps, flags) ← patterns flags items
    return (sequence ps, flags)

/-- The patterns of the parts, one after the other, and the flags after them. -/
def patterns (flags : Flags) : List Expression → Except PatternError (List Pattern × Flags)
  | [] => .ok ([], flags)
  | item :: items => do
    let (p, flags) ← item.pattern flags
    let (ps, flags) ← patterns flags items
    return (p :: ps, flags)

end

end Expression

/-- **The pattern of a text.** -/
def ofChars (text : List Char) : Except PatternError Pattern := do
  let expression ← Expression.read text
  let (pattern, _) ← expression.pattern .initial
  if pattern.isTooLarge then .error .size
  else if pattern.asksUnicode then .error .wordEdge
  else return pattern

end JsonProjection.Pattern
