/-
# `JsonProjection.Pattern.Basic` -- regular expressions and where they occur.

A pattern is a regular expression with assertions.  Whether an assertion holds depends on the characters
on both sides of a place, so a pattern is not asked which texts it matches but what it does at a place:
`isEmptyAt` says whether it matches nothing there, and `after` gives the patterns that remain when it takes
the next character.  `occursIn` follows the remaining patterns through a text, one character at a time.

The classes of characters know ASCII only; the texts that are searched hold nothing else.  For the ends of
words a pattern may ask by the rules of Unicode; such a pattern means the same in these texts, but
`asksUnicode` tells it apart.
-/
namespace JsonProjection

/-! ## Sets of characters -/

/-- **A set of characters.** -/
inductive CharSet where
  | empty
  | range (first last : Char)
  | union (a b : CharSet)
  | inter (a b : CharSet)
  | compl (a : CharSet)
  deriving DecidableEq

namespace CharSet

/-- Whether a character is in the set. -/
def contains (c : Char) : CharSet → Bool
  | .empty => false
  | .range first last => first ≤ c && c ≤ last
  | .union a b => a.contains c || b.contains c
  | .inter a b => a.contains c && b.contains c
  | .compl a => !a.contains c

/-- The set of one character. -/
def single (c : Char) : CharSet := .range c c

/-- The decimal digits. -/
def digits : CharSet := .range '0' '9'

/-- The characters of a word: letters, digits and the underscore. -/
def word : CharSet := .union digits (.union (.range 'A' 'Z') (.union (.range 'a' 'z') (single '_')))

/-- The blanks, among them every end of line. -/
def space : CharSet := .union (.range '\t' '\r') (single ' ')

/-- The characters of the first set that are not in the second. -/
def diff (a b : CharSet) : CharSet := .inter a (.compl b)

/-- The letters of a range in the other case: those between `first` and `last`, shifted. -/
def shifted (first last lower upper : Char) (shift : Nat → Nat) : CharSet :=
  let low := if first ≤ lower then lower else first
  let high := if last ≤ upper then last else upper
  if low ≤ high then .range (Char.ofNat (shift low.toNat)) (Char.ofNat (shift high.toNat)) else .empty

/-- The range together with its letters in the other case. -/
def foldedRange (first last : Char) : CharSet :=
  .union (.range first last)
    (.union (shifted first last 'a' 'z' (· - 32)) (shifted first last 'A' 'Z' (· + 32)))

end CharSet

/-! ## Patterns -/

/-- A relation of a place to the words around it. -/
inductive WordEdge where
  /-- a word starts or ends here -/
  | either
  /-- no word starts or ends here -/
  | neither
  /-- a word starts here -/
  | start
  /-- a word ends here -/
  | stop
  /-- no word reaches here from the left -/
  | startHalf
  /-- no word goes on to the right -/
  | stopHalf
  deriving DecidableEq

/-- A condition on a place in a text. -/
inductive Assertion where
  /-- the text starts here -/
  | start
  /-- the text ends here -/
  | stop
  /-- a line starts here; with `returns` also a carriage return ends a line -/
  | lineStart (returns : Bool)
  /-- a line ends here -/
  | lineStop (returns : Bool)
  /-- words start or end here, by the rules of Unicode or of ASCII -/
  | word (edge : WordEdge) (unicode : Bool)
  deriving DecidableEq

/-- Whether a place has a character of a word on that side. -/
def WordEdge.isWord (side : Option Char) : Bool := side.any fun c => CharSet.word.contains c

/-- The relation holds between the two characters; `none` is the end of the text. -/
def WordEdge.holds (before next : Option Char) : WordEdge → Bool
  | .either => isWord before != isWord next
  | .neither => isWord before == isWord next
  | .start => !isWord before && isWord next
  | .stop => isWord before && !isWord next
  | .startHalf => !isWord before
  | .stopHalf => !isWord next

/-- **The condition holds** between the two characters; `none` is the end of the text. -/
def Assertion.holds (before next : Option Char) : Assertion → Bool
  | .start => before.isNone
  | .stop => next.isNone
  | .lineStart returns =>
    before.isNone || before = some '\n' || (returns && before = some '\r' && next ≠ some '\n')
  | .lineStop returns =>
    next.isNone || (next = some '\n' && !(returns && before = some '\r')) ||
      (returns && next = some '\r')
  | .word edge _ => edge.holds before next

/-- **Patterns.** -/
inductive Pattern where
  /-- nothing -/
  | empty
  /-- one character of a set -/
  | one (set : CharSet)
  /-- nothing, at a place of a kind -/
  | assert (assertion : Assertion)
  /-- one pattern after the other -/
  | seq (p q : Pattern)
  /-- one of two patterns -/
  | alt (p q : Pattern)
  /-- a pattern whose place in a text is remembered, which matters only to its size -/
  | group (p : Pattern)
  /-- a pattern repeated, at least `least` times and, if `most` is given, at most so often -/
  | repeated (p : Pattern) (least : Nat) (most : Option Nat)
  deriving DecidableEq

namespace Pattern

/-- One pattern after the other, where nothing before a pattern is left out. -/
def andThen (p q : Pattern) : Pattern :=
  match p with
  | .empty => q
  | _ => .seq p q

/-- One pattern after the other, for all patterns of a list. -/
def sequence : List Pattern → Pattern
  | [] => .empty
  | [p] => p
  | p :: ps => .seq p (sequence ps)

/-- One of the patterns of a list, which has at least one. -/
def choice : List Pattern → Pattern
  | [] => .one .empty
  | [p] => p
  | p :: ps => .alt p (choice ps)

/-- Whether the pattern asks for the ends of words by the rules of Unicode. -/
def asksUnicode : Pattern → Bool
  | .assert (.word _ unicode) => unicode
  | .seq p q => p.asksUnicode || q.asksUnicode
  | .alt p q => p.asksUnicode || q.asksUnicode
  | .group p => p.asksUnicode
  | .repeated p _ _ => p.asksUnicode
  | _ => false

/-- Whether the pattern matches nothing at a place. -/
def isEmptyAt (before next : Option Char) : Pattern → Bool
  | .empty => true
  | .one _ => false
  | .assert assertion => assertion.holds before next
  | .seq p q => p.isEmptyAt before next && q.isEmptyAt before next
  | .alt p q => p.isEmptyAt before next || q.isEmptyAt before next
  | .group p => p.isEmptyAt before next
  | .repeated p least _ => least = 0 || p.isEmptyAt before next

/-- **What remains** of the pattern after it has taken the character `c`: any of these patterns. -/
def after (before : Option Char) (c : Char) : Pattern → List Pattern
  | .empty => []
  | .one set => if set.contains c then [.empty] else []
  | .assert _ => []
  | .seq p q =>
    (p.after before c).map (·.andThen q) ++
      if p.isEmptyAt before (some c) then q.after before c else []
  | .alt p q => p.after before c ++ q.after before c
  | .group p => p.after before c
  | .repeated p least most =>
    if most = some 0 then []
    else
      -- where a round can be empty, all rounds that must still come can be spent here
      let least := if p.isEmptyAt before (some c) then 0 else least - 1
      (p.after before c).map (·.andThen (.repeated p least (most.map (· - 1))))

/-- Whether the pattern occurs in the rest of a text, or one of the `live` patterns, which have begun
before, ends in it. -/
def occursFrom (pattern : Pattern) (before : Option Char) (live : List Pattern) : List Char → Bool
  | [] => (pattern :: live).any (isEmptyAt before none)
  | c :: cs =>
    (pattern :: live).any (isEmptyAt before (some c)) ||
      pattern.occursFrom (some c) ((pattern :: live).flatMap (after before c)).eraseDups cs

/-- **The pattern occurs** somewhere in the text. -/
def occursIn (pattern : Pattern) (text : List Char) : Bool := pattern.occursFrom none [] text

end Pattern

end JsonProjection
