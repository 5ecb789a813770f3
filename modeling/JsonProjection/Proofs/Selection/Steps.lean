/-
# `JsonProjection.Proofs.Selection.Steps` -- a tree as a list of steps.

An entry with an empty block does what an entry without a block does.  `steps` is the list of the entries in
which this is settled: a step holds a key and, if there is anything to select inside the property, a block, and
a block (`Block`) has an entry by its type.  What is said of a tree step by step needs no case for the empty
block.

`asks` picks out of the steps those that write under one output name, and `BlockAt` follows blocks inside
blocks, along a path of output names.
-/
import JsonProjection.Proofs.Selection.Level

namespace JsonProjection

/-- **A block**: a tree with an entry. -/
structure Block where
  tree : Tree
  ne_nil : tree ≠ .nil

/-- **A step**: the key of an entry, and its block if there is one that is not empty. -/
structure Step where
  key : Key
  block? : Option Block

namespace Tree

/-! ## Steps -/

/-- The tree as a block, if it has an entry. -/
def toBlock? : Tree → Option Block
  | .nil => none
  | .leaf key rest => some ⟨.leaf key rest, Tree.noConfusion⟩
  | .nested key block rest => some ⟨.nested key block rest, Tree.noConfusion⟩

theorem toBlock?_of_ne_nil {tree : Tree} (h : tree ≠ .nil) : tree.toBlock? = some ⟨tree, h⟩ := by
  cases tree with
  | nil => exact absurd rfl h
  | leaf => rfl
  | nested => rfl

theorem eq_of_toBlock?_eq_some {tree : Tree} {block : Block} (h : tree.toBlock? = some block) :
    tree = block.tree := by
  cases tree <;> cases h <;> rfl

/-- **The steps of a tree**, in declaration order. -/
def steps : Tree → List Step
  | .nil => []
  | .leaf key rest => ⟨key, none⟩ :: rest.steps
  | .nested key block rest => ⟨key, block.toBlock?⟩ :: rest.steps

theorem steps_eq_nil_iff {tree : Tree} : tree.steps = [] ↔ tree = .nil := by
  cases tree <;> simp [steps]

/-- The step of an entry. -/
def stepOf (entry : Key × Selection) : Step :=
  match entry.2 with
  | .leaf => ⟨entry.1, none⟩
  | .nested block => ⟨entry.1, block.toBlock?⟩

@[simp] theorem key_stepOf (entry : Key × Selection) : (stepOf entry).key = entry.1 := by
  unfold stepOf
  split <;> rfl

/-- Every entry is a step. -/
theorem steps_eq_map (tree : Tree) : tree.steps = tree.entries.map stepOf := by
  induction tree with
  | nil => rfl
  | leaf key rest ih | nested key block rest _ ih => exact congrArg (List.cons _) ih

theorem map_key_steps (tree : Tree) : tree.steps.map Step.key = Assoc.keys tree.entries := by
  rw [steps_eq_map, List.map_map, Assoc.keys]
  exact List.map_congr_left fun entry _ => key_stepOf entry

theorem key_mem_of_mem_steps {tree : Tree} {step : Step} (h : step ∈ tree.steps) :
    step.key ∈ Assoc.keys tree.entries := by
  rw [← map_key_steps]
  exact List.mem_map.mpr ⟨step, h, rfl⟩

/-- The steps with a block are the entries with that block. -/
theorem mem_steps_iff {tree : Tree} {key : Key} {block : Block} :
    ⟨key, some block⟩ ∈ tree.steps ↔ (key, Selection.nested block.tree) ∈ tree.entries := by
  induction tree with
  | nil => simp [steps]
  | leaf key' rest ih => simp [steps, entries, ih]
  | nested key' block' rest _ ih =>
      have hblock : some block = block'.toBlock? ↔ block.tree = block' := by
        constructor
        · exact fun h => (eq_of_toBlock?_eq_some h.symm).symm
        · rintro rfl
          exact (toBlock?_of_ne_nil block.ne_nil).symm
      simp [steps, entries, ih, hblock]

/-- The block of a step nests less deep than the tree. -/
theorem nesting_lt_of_mem_steps {tree : Tree} {step : Step} {block : Block} (h : step ∈ tree.steps)
    (hb : step.block? = some block) : block.tree.nesting < tree.nesting := by
  obtain ⟨key, _⟩ := step
  cases hb
  exact nesting_le_iff.mp (Nat.le_refl tree.nesting) key block.tree (mem_steps_iff.mp h) block.ne_nil

/-! ## What is asked for under a name -/

/-- What the steps that write under a name select, in declaration order: a block, or the property as it
is. -/
def asks (name : String) (tree : Tree) : List (Option Block) :=
  (tree.steps.filter fun step => step.key.output = name).map Step.block?

/-- What is asked for under a name is what a step that writes there asks for. -/
theorem mem_asks_iff {name : String} {tree : Tree} {asked : Option Block} :
    asked ∈ tree.asks name ↔
      ∃ step ∈ tree.steps, step.key.output = name ∧ step.block? = asked := by
  simp only [asks, List.mem_map, List.mem_filter, decide_eq_true_eq, and_assoc]

/-- A block of the tree is asked for under its output name. -/
theorem some_mem_asks {tree : Tree} {key : Key} {block : Block}
    (h : (key, Selection.nested block.tree) ∈ tree.entries) : some block ∈ tree.asks key.output :=
  mem_asks_iff.mpr ⟨_, mem_steps_iff.mpr h, rfl, rfl⟩

/-- **The blocks at a path** of output names: a tree with an entry lies at the path without names, and what lies
in a block of an entry lies behind the output name of the entry. -/
inductive BlockAt : Tree → List String → Block → Prop
  | here (block : Block) : BlockAt block.tree [] block
  | inside {tree : Tree} {key : Key} {block inner : Block} {path : List String} :
      (key, .nested block.tree) ∈ tree.entries → BlockAt block.tree path inner →
      BlockAt tree (key.output :: path) inner

theorem BlockAt.ne_nil {tree : Tree} {path : List String} {block : Block} (h : tree.BlockAt path block) :
    tree ≠ .nil := by
  cases h with
  | here => exact block.ne_nil
  | inside he _ =>
      rintro rfl
      cases he

end Tree

end JsonProjection
