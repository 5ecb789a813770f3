/-
# `JsonProjection.Proofs.Fragment.Canonical` -- the canonical text of a compiled tree.

What the compiler returns is in one form (`Canonical`): no key twice on a level, no empty block, names that
are names, blocks that do not lie too deep.  Such a tree has nothing to trim and nothing to resolve, and its
canonical text spells its tokens; so the text compiles, and compiles to the tree itself.
-/
import JsonProjection.Proofs.Fragment.Grammar
import JsonProjection.Proofs.Selection.Trimmed

namespace JsonProjection.Tree

open JsonProjection.Fragment (Token)

/-! ## Canonical trees -/

/-- **Canonical trees**: those that the compiler returns. -/
structure Canonical (tree : Tree) : Prop where
  /-- there is an entry -/
  ne_nil : tree ≠ .nil
  /-- on every level no key is declared twice -/
  distinctKeys : tree.DistinctKeys
  /-- on every level all names are names -/
  wellNamed : tree.WellNamed
  /-- every block has an entry -/
  noEmptyBlocks : tree.NoEmptyBlocks
  /-- the blocks lie at most `maxNesting` deep -/
  nesting_le : tree.nesting ≤ maxNesting

theorem WellNamed.resolved {tree : Tree} (h : tree.WellNamed) : tree.resolved.WellNamed :=
  ⟨fun key hk => h.1 key (mem_keys_resolved hk),
    inBlocks_resolved (fun _ _ hlevel key hk => hlevel key (mem_keys_resolved hk)) h.2⟩

/-- The meaning of a tree that can be written is canonical. -/
theorem Fits.canonical_resolved {written : Tree} (hne : written ≠ .nil) (hf : written.Fits 0) :
    written.resolved.Canonical where
  ne_nil := resolved_ne_nil hne
  distinctKeys := distinctKeys_resolved written
  wellNamed := hf.wellNamed.resolved
  noEmptyBlocks := noEmptyBlocks_resolved written
  nesting_le := by
    have hmeaning := nesting_resolved_le written
    have hwritten := hf.nesting_le
    omega

/-! ## The canonical text -/

/-- The text of a tree that can be written is read as the tree. -/
theorem read_text_tokens {tree : Tree} (hne : tree ≠ .nil) (hf : tree.Fits 0) :
    Fragment.read (Token.text tree.tokens).toList = .ok tree := by
  rw [Fragment.read_eq_ok_iff, Token.text, String.toList_ofList]
  exact ⟨hne, hf, hf.wellNamed.legible_tokens.withoutWhitespace_chars⟩

/-- **Canonical trees are fixed by print and compile.** -/
theorem Canonical.compile_text {tree : Tree} (h : tree.Canonical) :
    compile tree.text = .ok tree := by
  have hfits : tree.Fits 0 := ⟨h.wellNamed, (Nat.zero_add _).symm ▸ h.nesting_le⟩
  rw [compile, text, trim_eq_self h.noEmptyBlocks, read_text_tokens h.ne_nil hfits]
  exact congrArg Except.ok (resolved_eq_self h.distinctKeys h.noEmptyBlocks)

/-- **The canonical round trip**: a tree that the compiler returns is canonical, and its canonical text
compiles to it again, entry for entry. -/
theorem canonical_of_compile (fragment : String) (tree : Tree) (h : compile fragment = .ok tree) :
    tree.Canonical ∧ compile tree.text = .ok tree := by
  obtain ⟨written, hread, rfl⟩ := compile_eq_ok_iff_read.mp h
  obtain ⟨hne, hfits, -⟩ := Fragment.read_eq_ok_iff.mp hread
  have hcanonical := hfits.canonical_resolved hne
  exact ⟨hcanonical, hcanonical.compile_text⟩

/-- Hyphens on both sides of an arrow, a block inside a block, and keys that differ only in being renamed. -/
def hyphens : Tree :=
  .nested ⟨"a-", some "-b"⟩
    (.nested ⟨"c", none⟩ (.leaf ⟨"x", none⟩ .nil) <|
      .leaf ⟨"d", none⟩ <|
        .leaf ⟨"c", some "c"⟩ .nil) <|
    .leaf ⟨"--", none⟩ .nil

/-- A fragment that declares keys twice on two levels, with whitespace inside a name and an empty block. -/
theorem canonical_of_compile_hyphens :
    compile " a-->-b, - -, a-->-b : { c, d:{ }, c->c, c:{x} }" = .ok hyphens ∧
      hyphens.Canonical ∧ hyphens.text = "a-->-b:{c:{x},d,c->c},--" ∧
      compile "a-->-b:{c:{x},d,c->c},--" = .ok hyphens := by
  have h : compile " a-->-b, - -, a-->-b : { c, d:{ }, c->c, c:{x} }" = .ok hyphens := rfl
  have htext : hyphens.text = "a-->-b:{c:{x},d,c->c},--" := by decide
  obtain ⟨hcanonical, hround⟩ := canonical_of_compile _ hyphens h
  exact ⟨h, hcanonical, htext, htext ▸ hround⟩

end JsonProjection.Tree
