/-
# `JsonProjection.Text.Whitespace` -- the Unicode property White_Space as a table.

Fragments ignore every character with the Unicode property White_Space, of which the standard lists
twenty-five.  The table is the standard's own list of ranges.  `Char.isWhitespace` knows only the blanks
of ASCII, and of those it leaves out U+000B.
-/
namespace JsonProjection.Text

/-- The code points with the property White_Space, as closed ranges in increasing order. -/
def whitespaceRanges : List (Nat × Nat) :=
  [(0x9, 0xD), (0x20, 0x20), (0x85, 0x85), (0xA0, 0xA0), (0x1680, 0x1680), (0x2000, 0x200A),
    (0x2028, 0x2029), (0x202F, 0x202F), (0x205F, 0x205F), (0x3000, 0x3000)]

/-- **Unicode whitespace**: the code point lies in one of the ranges. -/
def isWhitespace (c : Char) : Bool :=
  whitespaceRanges.any fun r => r.1 ≤ c.toNat && c.toNat ≤ r.2

/-- The blanks of a JSON text: space, tab, line feed and carriage return, and no others. -/
def isBlank (c : Char) : Bool :=
  c = ' ' || c = '\t' || c = '\n' || c = '\r'

/-- The number of bytes of a text in UTF-8. -/
def utf8Length : List Char → Nat
  | [] => 0
  | c :: cs => c.utf8Size + utf8Length cs

@[simp] theorem utf8Length_nil : utf8Length [] = 0 := rfl

@[simp] theorem utf8Length_cons (c : Char) (cs : List Char) :
    utf8Length (c :: cs) = c.utf8Size + utf8Length cs := rfl

@[simp] theorem utf8Length_append (cs ds : List Char) :
    utf8Length (cs ++ ds) = utf8Length cs + utf8Length ds := by
  induction cs with
  | nil => simp
  | cons c cs ih => simp [ih, Nat.add_assoc]

end JsonProjection.Text
