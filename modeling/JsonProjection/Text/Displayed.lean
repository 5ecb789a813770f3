/-
# `JsonProjection.Text.Displayed` -- a fragment inside a log record.

A record is one line, so the fragment is put in double quotes and its whitespace is made visible: tab, line
feed and carriage return by a letter, every other whitespace character but the space by its code point in
hexadecimal.  A quote or a backslash is escaped by a backslash.
-/
import JsonProjection.Text.Whitespace

namespace JsonProjection.Text

/-- One character of a displayed text. -/
def displayChar (c : Char) : List Char :=
  if c = '\t' then ['\\', 't']
  else if c = '\n' then ['\\', 'n']
  else if c = '\r' then ['\\', 'r']
  else if c = '"' ∨ c = '\\' then ['\\', c]
  else if c ≠ ' ' ∧ isWhitespace c = true then
    ['\\', 'u', '{'] ++ Nat.toDigits 16 c.toNat ++ ['}']
  else [c]

/-- **A text in double quotes**, with its whitespace made visible. -/
def displayed (text : String) : String :=
  String.ofList ('"' :: (text.toList.flatMap displayChar ++ ['"']))

end JsonProjection.Text
