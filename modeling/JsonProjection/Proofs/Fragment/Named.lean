/-
# `JsonProjection.Proofs.Fragment.Named` -- trees that can be written.

A tree can be written as a fragment when all its names are names (`WellNamed`) and its blocks do not lie too
deep inside one another.  `Fits` puts the two together for a tree that stands inside a number of blocks; it
is what the reader keeps of every block that it is about to close.

Trees grow at their end while they are read, so what matters of `WellNamed`, `nesting` and `tokens` is how
they go over one more entry after the others.
-/
import JsonProjection.Fragment.SyntaxError
import JsonProjection.Proofs.Fragment.Legible
import JsonProjection.Proofs.Selection.Level

namespace JsonProjection

open JsonProjection.Fragment (IsName Legible Token nameTokens)

/-! ## Names of keys -/

/-- The names of the key are names. -/
def Key.WellNamed (key : Key) : Prop :=
  IsName key.name ∧ ∀ renamed ∈ key.renamed, IsName renamed

instance (key : Key) : Decidable key.WellNamed := inferInstanceAs (Decidable (_ ∧ _))

theorem Fragment.legible_nameTokens {name : String} (h : IsName name) :
    Legible (nameTokens name) := by
  intro c hc
  obtain ⟨d, hd, he⟩ := List.mem_map.mp hc
  cases he
  exact h.2 c hd

theorem Key.WellNamed.legible_tokens {key : Key} (h : key.WellNamed) : Legible key.tokens := by
  obtain ⟨name, renamed⟩ := key
  cases renamed with
  | none => exact Fragment.legible_nameTokens h.1
  | some renamed =>
      refine (Fragment.legible_nameTokens h.1).append fun c hc => ?_
      rcases List.mem_cons.mp hc with hc | hc
      · cases hc
      · exact Fragment.legible_nameTokens (h.2 renamed rfl) c hc

namespace Tree

/-! ## Names of trees -/

/-- **Well named**: on every level, the names of every key are names. -/
def WellNamed (tree : Tree) : Prop :=
  tree.EveryLevel fun level => ∀ key ∈ Assoc.keys level.entries, key.WellNamed

instance (tree : Tree) : Decidable tree.WellNamed := inferInstanceAs (Decidable (tree.EveryLevel _))

@[simp] theorem wellNamed_nil : Tree.nil.WellNamed := ⟨fun _ hk => (nomatch hk), trivial⟩

@[simp] theorem wellNamed_leaf (key : Key) (rest : Tree) :
    (Tree.leaf key rest).WellNamed ↔ key.WellNamed ∧ rest.WellNamed := by
  simp only [WellNamed, EveryLevel, entries, Assoc.keys_cons, List.forall_mem_cons, inBlocks_leaf,
    and_assoc]

@[simp] theorem wellNamed_nested (key : Key) (block rest : Tree) :
    (Tree.nested key block rest).WellNamed ↔
      key.WellNamed ∧ block.WellNamed ∧ rest.WellNamed := by
  simp only [WellNamed, EveryLevel, entries, Assoc.keys_cons, List.forall_mem_cons, inBlocks_nested]
  constructor
  · rintro ⟨⟨hk, hr⟩, hb, hi⟩
    exact ⟨hk, hb, hr, hi⟩
  · rintro ⟨hk, hb, hr, hi⟩
    exact ⟨⟨hk, hr⟩, hb, hi⟩

theorem legible_separator (rest : Tree) : Legible rest.separator := by
  unfold separator
  split
  · exact fun _ hc => nomatch hc
  · intro c hc
    cases List.mem_singleton.mp hc

/-- **A well-named tree is written in legible tokens.** -/
theorem WellNamed.legible_tokens {tree : Tree} (h : tree.WellNamed) : Legible tree.tokens := by
  induction tree with
  | nil => exact fun _ hc => nomatch hc
  | leaf key rest ih =>
      obtain ⟨hk, hr⟩ := (wellNamed_leaf key rest).mp h
      exact hk.legible_tokens.append (rest.legible_separator.append (ih hr))
  | nested key block rest ihb ihr =>
      obtain ⟨hk, hb, hr⟩ := (wellNamed_nested key block rest).mp h
      have hrest : Legible (rest.separator ++ rest.tokens) := rest.legible_separator.append (ihr hr)
      refine hk.legible_tokens.append fun c hc => ?_
      simp only [List.mem_cons, List.mem_append, reduceCtorEq, false_or] at hc
      rcases hc with hc | hc
      · exact ihb hb c hc
      · exact hrest c (List.mem_append.mpr hc)

/-! ## One more entry -/

theorem wellNamed_ofEntries_append (l m : List (Key × Selection)) :
    (ofEntries (l ++ m)).WellNamed ↔ (ofEntries l).WellNamed ∧ (ofEntries m).WellNamed := by
  induction l with
  | nil => simp [ofEntries]
  | cons entry l ih =>
      obtain ⟨key, selection⟩ := entry
      cases selection <;> simp [ofEntries, cons, ih, and_assoc]

theorem nesting_ofEntries_append (l m : List (Key × Selection)) :
    (ofEntries (l ++ m)).nesting = max (ofEntries l).nesting (ofEntries m).nesting := by
  induction l with
  | nil => simp [ofEntries, nesting]
  | cons entry l ih =>
      obtain ⟨key, selection⟩ := entry
      cases selection <;> simp [ofEntries, cons, nesting, ih, Nat.max_assoc]

/-- The tokens of a tree before a further entry: a comma stands between the two. -/
def tokensBefore (tree : Tree) : List Token :=
  if tree.isEmpty then [] else tree.tokens ++ [.comma]

@[simp] theorem tokensBefore_nil : Tree.nil.tokensBefore = [] := rfl

theorem comma_tokensBefore (tree : Tree) :
    Token.comma :: tree.tokensBefore = tree.separator ++ tree.tokens ++ [.comma] := by
  cases tree <;> rfl

theorem tokensBefore_leaf (key : Key) (rest : Tree) :
    (Tree.leaf key rest).tokensBefore = key.tokens ++ .comma :: rest.tokensBefore := by
  rw [comma_tokensBefore]
  simp only [tokensBefore, isEmpty, tokens, List.append_assoc]
  rfl

theorem tokensBefore_nested (key : Key) (block rest : Tree) :
    (Tree.nested key block rest).tokensBefore =
      key.tokens ++
        .colon :: .opening :: (block.tokens ++ .closing :: .comma :: rest.tokensBefore) := by
  rw [comma_tokensBefore]
  simp only [tokensBefore, isEmpty, tokens, List.append_assoc, List.cons_append]
  rfl

theorem isEmpty_cons (key : Key) (selection : Selection) (rest : Tree) :
    (cons key selection rest).isEmpty = false := by
  cases selection <;> rfl

theorem isEmpty_ofEntries_append_singleton (l : List (Key × Selection))
    (entry : Key × Selection) : (ofEntries (l ++ [entry])).isEmpty = false := by
  cases l <;> exact isEmpty_cons _ _ _

/-- **A further entry** is written after the others, behind a comma. -/
theorem tokens_ofEntries_append_singleton (l : List (Key × Selection)) (entry : Key × Selection) :
    (ofEntries (l ++ [entry])).tokens =
      (ofEntries l).tokensBefore ++ (ofEntries [entry]).tokens := by
  induction l with
  | nil => rfl
  | cons first l ih =>
      obtain ⟨key, selection⟩ := first
      have hsep : (ofEntries (l ++ [entry])).separator = [.comma] := by
        rw [separator, isEmpty_ofEntries_append_singleton]
        rfl
      cases selection with
      | leaf =>
          rw [List.cons_append, ofEntries, ofEntries, cons, cons, tokens, tokensBefore_leaf, hsep,
            ih]
          simp only [List.append_assoc, List.cons_append, List.nil_append]
      | nested block =>
          rw [List.cons_append, ofEntries, ofEntries, cons, cons, tokens, tokensBefore_nested, hsep,
            ih]
          simp only [List.append_assoc, List.cons_append, List.nil_append]

/-! ## Trees inside blocks -/

/-- **A tree that can be written inside `depth` blocks.** -/
structure Fits (depth : Nat) (tree : Tree) : Prop where
  wellNamed : tree.WellNamed
  nesting_le : depth + tree.nesting ≤ maxNesting

end Tree

end JsonProjection
