/-
# `JsonProjection.Pattern.Size` -- how large a pattern is.

A pattern is as large as the automaton that finds it in a text of UTF-8, with a round of its own for every
repetition that has a bound.  The automaton exists twice, once for each direction in which a text may be
read; groups are remembered in the forward direction alone, and characters beyond ASCII take more states in
the other.

A state takes thirty-two bytes, an edge of a set eight, and a way of a fork four.
-/
import JsonProjection.Pattern.Basic
import JsonProjection.Pattern.SyntaxError

namespace JsonProjection

namespace CharSet

/-- The characters of ASCII in the set, in order. -/
def asciiChars (set : CharSet) : List Char :=
  ((List.range 128).map Char.ofNat).filter fun c => set.contains c

/-- The number of ranges that the characters of ASCII in the set make up. -/
def asciiRuns (set : CharSet) : Nat :=
  (set.asciiChars.filter fun c => c = '\x00' || !set.contains (Char.ofNat (c.toNat - 1))).length

/-- The bytes that one character of the set takes.  A set that goes beyond ASCII is counted as if it had
all characters there. -/
def size (backward : Bool) (set : CharSet) : Nat :=
  match set with
  | .range first last =>
    if first = last then 32 * first.utf8Size else general
  | _ => general
where
  /-- The bytes of a set that is not given by a single character. -/
  general : Nat :=
    if set.contains '\u0080' then
      if backward then 928 + 36 * set.asciiRuns else 408 + 8 * set.asciiRuns
    else if set.asciiChars.length = 1 then 32
    else 64 + 8 * set.asciiRuns

end CharSet

namespace Pattern

/-- Whether the pattern can take a character. -/
def takes : Pattern → Bool
  | .empty => false
  | .one _ => true
  | .assert _ => false
  | .seq p q => p.takes || q.takes
  | .alt p q => p.takes || q.takes
  | .group p => p.takes
  | .repeated p _ _ => p.takes

/-- Whether the pattern is a choice. -/
def isChoice : Pattern → Bool
  | .alt _ _ => true
  | _ => false

/-- The bytes of a repetition, where a round takes `round` bytes. -/
def repeatedSize (round least : Nat) (most : Option Nat) : Nat :=
  match most with
  | none => max 1 least * round + 40
  | some most =>
    if least = most then least * round
    else if least = 0 ∧ most = 1 then round + 72
    else (if least = 0 then 32 else least * round) + 32 + (most - least) * (round + 40)

/-- **The bytes of a pattern**; what takes no character is not repeated more than once. -/
def size (backward : Bool) : Pattern → Nat
  | .empty => 32
  | .one set => set.size backward
  | .assert _ => 32
  | .seq p q => p.size backward + q.size backward
  | .alt p q => p.size backward + q.size backward + if q.isChoice then 4 else 72
  | .group p => if backward then p.size backward else p.size backward + 64
  | .repeated p least most =>
    if p.takes then repeatedSize (p.size backward) least most
    else repeatedSize (p.size backward) (min least 1) (some (min 1 (most.getD 1)))

/-- **Whether the pattern is too large** in one of the two directions.  The search for its beginning takes 112
bytes and its end 32; forward it takes another 64 to remember the whole. -/
def isTooLarge (pattern : Pattern) : Bool :=
  PatternError.maxSize < 208 + pattern.size false || PatternError.maxSize < 144 + pattern.size true

end Pattern

end JsonProjection
