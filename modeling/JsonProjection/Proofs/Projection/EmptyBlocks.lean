/-
# `JsonProjection.Proofs.Projection.EmptyBlocks` -- printing a tree keeps what it selects.

A tree that is built by hand may hold empty blocks; a compiled one does not.  The canonical text of the
hand-built tree leaves them out, so the text does not compile to the tree itself but to its trimmed form.
The two select the same.  An empty block is met in three places, where a property is copied, where a block is
entered, and where a shape is filled with `null`, and in each of them it counts as a leaf; the induction on
the tree goes through `fill` first, because entering a block takes the filling of the block along.
-/
import JsonProjection.Proofs.Fragment.Canonical
import JsonProjection.Projection.Basic

namespace JsonProjection.Tree

open JsonProjection.Json (Object)

/-! ## Projection -/

/-- **Filling** makes no difference between an empty block and a leaf. -/
theorem fill_trim (tree : Tree) (acc : Object) : tree.trim.fill acc = tree.fill acc := by
  induction tree generalizing acc with
  | nil => rfl
  | leaf key rest ih => exact ih (Assoc.ensure key.output .null acc)
  | nested key block rest ihb ihr =>
      rw [trim, fill]
      by_cases he : block.isEmpty = true
      · rw [if_pos he, if_pos he]
        exact ihr (Assoc.ensure key.output .null acc)
      · have hblock : block.trim.fill = block.fill := funext ihb
        rw [if_neg he, if_neg he, fill, isEmpty_trim, if_neg he, hblock]
        exact ihr (Projection.fillMember key.output block.fill acc)

/-- **Projection** makes no difference between an empty block and a leaf, in what it writes and in what it
logs. -/
theorem project_trim (mode : Mode) (tree : Tree) (source : Json) (acc : Object) :
    tree.trim.project mode source acc = tree.project mode source acc := by
  induction tree generalizing source acc with
  | nil => rfl
  | leaf key rest ih => simp only [trim, project, ih]
  | nested key block rest ihb ihr =>
      rw [trim]
      by_cases he : block.isEmpty = true
      · simp only [if_pos he, project, ihr]
      · have hdescend : block.trim.project mode = block.project mode :=
          funext fun source => funext fun acc => ihb source acc
        have hfill : block.trim.fill = block.fill := funext block.fill_trim
        simp only [if_neg he, project, isEmpty_trim, hdescend, hfill, ihr]

/-! ## The canonical text -/

theorem text_trim {tree : Tree} (h : tree.trim.NoEmptyBlocks) : tree.trim.text = tree.text := by
  rw [text, text, trim_eq_self h]

/-- **Printing keeps the meaning.** A tree that is built by insertion, has an entry, is well named and does not
nest too deep is printed as a text that compiles to the tree with its empty blocks made leaves; and from
every source and accumulator, in both modes, the compiled tree gives the same accumulator and the same log
as the tree that was built. -/
theorem compile_text_of_built (tree : Tree) (hb : tree.Built) (hne : tree ≠ .nil)
    (hnames : tree.WellNamed) (hnesting : tree.nesting ≤ maxNesting) :
    compile tree.text = .ok tree.trim ∧
      ∀ mode source acc, tree.trim.project mode source acc = tree.project mode source acc := by
  have hfits : tree.Fits 0 := ⟨hnames, (Nat.zero_add _).symm ▸ hnesting⟩
  -- the trimmed tree is what the tree means when it is read, so it is canonical
  have hcanonical : tree.trim.Canonical := by
    rw [← resolved_eq_trim hb.distinctKeys]
    exact hfits.canonical_resolved hne
  refine ⟨?_, fun mode source acc => project_trim mode tree source acc⟩
  rw [← text_trim hcanonical.noEmptyBlocks]
  exact hcanonical.compile_text

/-- A tree built by hand with an empty block on two levels, and a key that is first inserted as a leaf. -/
def handBuilt : Tree :=
  let inside := (Tree.nil.insert ⟨"x", none⟩ (.nested .nil)).insert ⟨"y-", some "-z"⟩ .leaf
  ((Tree.nil.insert ⟨"a", none⟩ .leaf).insert ⟨"b", none⟩ (.nested .nil)).insert ⟨"a", none⟩
    (.nested inside)

/-- The canonical text of the tree is `a:{x,y-->-z},b`, and what it compiles to selects the same. -/
theorem compile_text_of_built_handBuilt :
    (handBuilt.Built ∧ handBuilt ≠ .nil ∧ handBuilt.WellNamed ∧ handBuilt.nesting ≤ maxNesting) ∧
      handBuilt.text = "a:\x7bx,y-->-z\x7d,b" ∧
      compile handBuilt.text = .ok handBuilt.trim ∧ handBuilt.trim ≠ handBuilt ∧
      handBuilt.trim.project .absent .null [] = handBuilt.project .absent .null [] := by
  have hinside : Built ((Tree.nil.insert ⟨"x", none⟩ (.nested .nil)).insert ⟨"y-", some "-z"⟩ .leaf) :=
    .insertLeaf _ (.insertNested _ .nil .nil)
  have hb : handBuilt.Built :=
    .insertNested _ (.insertNested _ (.insertLeaf _ .nil) .nil) hinside
  have hne : handBuilt ≠ .nil := by decide
  have hnames : handBuilt.WellNamed := by decide
  have hnesting : handBuilt.nesting ≤ maxNesting := by decide
  obtain ⟨hcompile, hproject⟩ := compile_text_of_built handBuilt hb hne hnames hnesting
  exact ⟨⟨hb, hne, hnames, hnesting⟩, by decide, hcompile, by decide, hproject .absent .null []⟩

end JsonProjection.Tree
