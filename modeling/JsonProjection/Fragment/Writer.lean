/-
# `JsonProjection.Fragment.Writer` -- selection trees written as fragments.

`Tree.tokens` writes a tree entry by entry, an empty block as an empty pair of braces.  The canonical text
`Tree.text` leaves the empty blocks out, because they select no more than a leaf does.
-/
import JsonProjection.Fragment.Token
import JsonProjection.Selection.Tree

namespace JsonProjection

open JsonProjection.Fragment (Token)

/-- A name as tokens. -/
def Fragment.nameTokens (name : String) : List Token := name.toList.map Token.plain

/-- A key as tokens. -/
def Key.tokens (key : Key) : List Token :=
  match key.renamed with
  | none => Fragment.nameTokens key.name
  | some renamed => Fragment.nameTokens key.name ++ .arrow :: Fragment.nameTokens renamed

namespace Tree

/-- The comma between two entries: none before the end. -/
def separator (rest : Tree) : List Token := if rest.isEmpty then [] else [.comma]

/-- **The tree as written**: entry after entry, blocks in braces, an empty block as an empty pair. -/
def tokens : Tree → List Token
  | .nil => []
  | .leaf key rest => key.tokens ++ (rest.separator ++ rest.tokens)
  | .nested key block rest =>
    key.tokens ++ .colon :: .opening :: (block.tokens ++ .closing :: (rest.separator ++ rest.tokens))

/-- **The canonical text**: the tree as written, its empty blocks left out. -/
def text (tree : Tree) : String := Token.text tree.trim.tokens

end Tree

end JsonProjection
