/-
# `JsonProjection.Proofs.Selection.Level` -- the levels of a tree.

The entries of a tree are one level; every block inside the tree, however deep, is a level of its own.  A
condition on the entries of one level (no output name twice, every name made of name characters, at least
one entry) is asked of the whole tree by `EveryLevel`, and `nesting` says how deep the levels lie.

Both are defined along the tree and used through the list of entries: `inBlocks_iff` and `nesting_le_iff`
read them off the blocks that the entries hold, and `blockInduction` is the induction that goes with this
view, a statement about a tree that may assume itself of the blocks of its entries.
-/
import JsonProjection.Selection.Tree

namespace JsonProjection.Tree

/-! ## Conditions on every level -/

/-- The condition holds of every block of the tree, and of the blocks inside the blocks. -/
def InBlocks (P : Tree → Prop) : Tree → Prop
  | .nil => True
  | .leaf _ rest => rest.InBlocks P
  | .nested _ block rest => (P block ∧ block.InBlocks P) ∧ rest.InBlocks P

/-- **On every level**: the condition holds of the tree, of its blocks, and of the blocks inside them. -/
def EveryLevel (P : Tree → Prop) (tree : Tree) : Prop := P tree ∧ tree.InBlocks P

variable {P Q : Tree → Prop}

instance decidableInBlocks [DecidablePred P] : (tree : Tree) → Decidable (tree.InBlocks P)
  | .nil => .isTrue trivial
  | .leaf _ rest => decidableInBlocks rest
  | .nested _ block rest =>
    @instDecidableAnd _ _ (@instDecidableAnd _ _ _ (decidableInBlocks block)) (decidableInBlocks rest)

instance [DecidablePred P] (tree : Tree) : Decidable (tree.EveryLevel P) :=
  inferInstanceAs (Decidable (_ ∧ _))

@[simp] theorem inBlocks_nil : Tree.nil.InBlocks P := trivial

@[simp] theorem inBlocks_leaf (key : Key) (rest : Tree) :
    (Tree.leaf key rest).InBlocks P ↔ rest.InBlocks P := Iff.rfl

@[simp] theorem inBlocks_nested (key : Key) (block rest : Tree) :
    (Tree.nested key block rest).InBlocks P ↔ block.EveryLevel P ∧ rest.InBlocks P := Iff.rfl

/-- A condition on the blocks is a condition on every level of the blocks that the entries hold. -/
theorem inBlocks_iff {tree : Tree} :
    tree.InBlocks P ↔
      ∀ key block, (key, Selection.nested block) ∈ tree.entries → block.EveryLevel P := by
  induction tree with
  | nil => simp
  | leaf key rest ih => simp [entries, ih]
  | nested key block rest _ ih =>
      rw [inBlocks_nested, ih]
      constructor
      · rintro ⟨hb, hr⟩ key' block' hm
        rcases List.mem_cons.mp hm with he | hm
        · cases he
          exact hb
        · exact hr key' block' hm
      · intro h
        exact ⟨h key block List.mem_cons_self,
          fun key' block' hm => h key' block' (List.mem_cons_of_mem _ hm)⟩

/-- **Induction over blocks**: a statement about a tree may assume itself of the blocks of its entries. -/
theorem blockInduction
    (step : ∀ tree, (∀ key block, (key, Selection.nested block) ∈ tree.entries → P block) → P tree)
    (tree : Tree) : P tree := by
  refine step tree ?_
  induction tree with
  | nil => simp
  | leaf key rest ih =>
      intro key' block' hm
      rcases List.mem_cons.mp hm with he | hm
      · cases he
      · exact ih key' block' hm
  | nested key block rest ihb ihr =>
      intro key' block' hm
      rcases List.mem_cons.mp hm with he | hm
      · cases he
        exact step block ihb
      · exact ihr key' block' hm

/-! ## Depth -/

/-- **The nesting of a tree**: how many blocks lie inside one another, empty blocks not counted. -/
def nesting : Tree → Nat
  | .nil => 0
  | .leaf _ rest => rest.nesting
  | .nested _ block rest => max (if block.isEmpty then 0 else block.nesting + 1) rest.nesting

/-- A bound on the nesting is a bound on the nesting of every block that is not empty. -/
theorem nesting_le_iff {tree : Tree} {n : Nat} :
    tree.nesting ≤ n ↔
      ∀ key block, (key, Selection.nested block) ∈ tree.entries → block ≠ .nil →
        block.nesting + 1 ≤ n := by
  induction tree with
  | nil => simp [nesting]
  | leaf key rest ih => simp [nesting, entries, ih]
  | nested key block rest _ ih =>
      rw [nesting, Nat.max_le, ih]
      constructor
      · rintro ⟨hb, hr⟩ key' block' hm hne
        rcases List.mem_cons.mp hm with he | hm
        · cases he
          rwa [if_neg (mt (isEmpty_iff block).mp hne)] at hb
        · exact hr key' block' hm hne
      · intro h
        refine ⟨?_, fun key' block' hm => h key' block' (List.mem_cons_of_mem _ hm)⟩
        split
        case isTrue => exact Nat.zero_le n
        case isFalse he => exact h key block List.mem_cons_self (mt (isEmpty_iff block).mpr he)

end JsonProjection.Tree
