/-
# `JsonProjection.Selection.Tree` -- selection trees.

A tree lists entries in declaration order.  An entry is a leaf, which copies a property, or holds a block,
the tree to apply inside the property.  The type is a list of entries with the blocks spelt out, so that
one induction follows both the entries and the blocks; `entries` is the list itself.

A key that is declared again keeps its place and takes the later selection (`insert`).  The same type
serves a fragment as written, which may declare a key twice or hold an empty block: `resolved` is the tree
that such a fragment means, its entries inserted one after the other, an empty block counting as a leaf.
`trim` makes the empty blocks of any tree leaves and changes nothing else.
-/
import JsonProjection.Assoc
import JsonProjection.Selection.Key

namespace JsonProjection

/-- **Selection trees**: entries in declaration order. -/
inductive Tree where
  /-- no entries -/
  | nil
  /-- copy the property of `key`, then go on with `rest` -/
  | leaf (key : Key) (rest : Tree)
  /-- descend into the property of `key` with `block`, then go on with `rest` -/
  | nested (key : Key) (block : Tree) (rest : Tree)
  deriving DecidableEq

/-- What an entry asks for: the property as it is, or what a tree selects inside it. -/
inductive Selection where
  | leaf
  | nested (block : Tree)
  deriving DecidableEq

namespace Tree

/-! ## Entries -/

/-- An entry put before a tree. -/
def cons (key : Key) (selection : Selection) (rest : Tree) : Tree :=
  match selection with
  | .leaf => .leaf key rest
  | .nested block => .nested key block rest

/-- The entries as a list: the view through which the operations are described. -/
def entries : Tree → List (Key × Selection)
  | .nil => []
  | .leaf key rest => (key, .leaf) :: rest.entries
  | .nested key block rest => (key, .nested block) :: rest.entries

/-- The tree with the given entries. -/
def ofEntries : List (Key × Selection) → Tree
  | [] => .nil
  | (key, selection) :: rest => cons key selection (ofEntries rest)

@[simp] theorem entries_nil : Tree.nil.entries = [] := rfl

@[simp] theorem entries_cons (key : Key) (selection : Selection) (rest : Tree) :
    (cons key selection rest).entries = (key, selection) :: rest.entries := by
  cases selection <;> rfl

@[simp] theorem ofEntries_entries (tree : Tree) : ofEntries tree.entries = tree := by
  induction tree with
  | nil => rfl
  | leaf key rest ih => simp only [entries, ofEntries, ih, cons]
  | nested key block rest _ ih => simp only [entries, ofEntries, ih, cons]

@[simp] theorem entries_ofEntries (l : List (Key × Selection)) : (ofEntries l).entries = l := by
  induction l with
  | nil => rfl
  | cons p l ih => simp only [ofEntries, entries_cons, ih]

/-- A tree is its list of entries. -/
theorem entries_injective {t u : Tree} (h : t.entries = u.entries) : t = u := by
  rw [← ofEntries_entries t, h, ofEntries_entries]

/-- The number of entries on the top level. -/
def size (tree : Tree) : Nat := tree.entries.length

/-- Whether there is no entry. -/
def isEmpty : Tree → Bool
  | .nil => true
  | .leaf .. => false
  | .nested .. => false

theorem isEmpty_iff (tree : Tree) : tree.isEmpty = true ↔ tree = .nil := by
  cases tree <;> simp [isEmpty]

/-! ## Insertion -/

/-- **Insertion.** A new entry goes to the end; a key that is already there keeps its place and takes the
new selection. -/
def insert (key : Key) (selection : Selection) : Tree → Tree
  | .nil => cons key selection .nil
  | .leaf key' rest =>
    if key' = key then cons key' selection rest else .leaf key' (insert key selection rest)
  | .nested key' block rest =>
    if key' = key then cons key' selection rest else .nested key' block (insert key selection rest)

/-- Insertion is writing into the association list of the entries. -/
theorem entries_insert (key : Key) (selection : Selection) (tree : Tree) :
    (tree.insert key selection).entries = Assoc.set key selection tree.entries := by
  induction tree with
  | nil => simp only [insert, entries_cons, entries_nil, Assoc.set]
  | leaf key' rest ih =>
      by_cases h : key' = key
      · simp only [insert, h, if_true, entries_cons, entries, Assoc.set]
      · simp only [insert, h, if_false, entries, Assoc.set, ih]
  | nested key' block rest _ ih =>
      by_cases h : key' = key
      · simp only [insert, h, if_true, entries_cons, entries, Assoc.set]
      · simp only [insert, h, if_false, entries, Assoc.set, ih]

/-- **The entries of a list inserted in order.** -/
def insertAll (tree : Tree) (l : List (Key × Selection)) : Tree :=
  l.foldl (fun acc entry => acc.insert entry.1 entry.2) tree

/-- The entries of `other` inserted one after the other. -/
def merge (tree other : Tree) : Tree := tree.insertAll other.entries

/-! ## Readings of a tree as written -/

/-- A block as a selection: an empty block asks for the property as it is. -/
def toSelection (block : Tree) : Selection :=
  if block.isEmpty then .leaf else .nested block

/-- The entries of a tree as written, inserted into `acc`. -/
def resolveInto : Tree → Tree → Tree
  | acc, .nil => acc
  | acc, .leaf key rest => resolveInto (acc.insert key .leaf) rest
  | acc, .nested key block rest =>
    resolveInto (acc.insert key (resolveInto .nil block).toSelection) rest

/-- **The tree that a fragment means**: its entries inserted in the order in which they are written. -/
def resolved (tree : Tree) : Tree := resolveInto .nil tree

/-- The tree with every empty block made a leaf, on every level. -/
def trim : Tree → Tree
  | .nil => .nil
  | .leaf key rest => .leaf key rest.trim
  | .nested key block rest =>
    if block.isEmpty then .leaf key rest.trim else .nested key block.trim rest.trim

end Tree

end JsonProjection
