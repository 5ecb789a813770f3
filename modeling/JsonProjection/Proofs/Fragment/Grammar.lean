/-
# `JsonProjection.Proofs.Fragment.Grammar` -- which texts are fragments, and what they mean.

The grammar of fragments is

    fragment := entry (',' entry)*
    entry    := name ('->' name)? (':' '{' fragment? '}')?
    name     := one or more letters, digits, '_' and '-'

and a list of entries in this sense is a tree as written: a leaf is an entry without a block, and a block
may be empty.  `Tree.tokens` writes such a list.  The reader is a machine that knows nothing of this; the
two agree (`read_eq_ok_iff`).  Soundness is that the state of the reader remembers the text, completeness
that a tree that can be written is read from its tokens.
-/
import JsonProjection.Proofs.Fragment.Consumed
import JsonProjection.Proofs.Fragment.Written
import JsonProjection.Proofs.Selection.Resolved

namespace JsonProjection

open JsonProjection.Text (withoutWhitespace)

namespace Fragment

/-! ## The tree as written -/

/-- A text is read by a row of moves over its tokens to a state in which it may end. -/
theorem read_eq_ok_iff_reads {cs : List Char} {tree : Tree} :
    read cs = .ok tree ↔
      ∃ state entries, State.Reads .initial (tokensOf cs) state ∧
        state.complete = ⟨[], entries, .closed⟩ ∧ tree = Tree.ofEntries entries.reverse := by
  unfold read
  constructor
  · intro h
    split at h
    case h_1 => cases h
    case h_2 state hrun =>
      split at h
      case h_1 tree' hfinish =>
        cases h
        obtain ⟨entries, hc, htree⟩ := State.finish_eq_ok_iff.mp hfinish
        exact ⟨state, entries, State.run_eq_ok_iff.mp hrun, hc, htree⟩
      case h_2 => cases h
  · rintro ⟨state, entries, hreads, hc, htree⟩
    have hfinish : state.finish = .ok tree := State.finish_eq_ok_iff.mpr ⟨entries, hc, htree⟩
    rw [State.run_eq_ok_iff.mpr hreads]
    simp only [hfinish]

/-- **Reading is exact**: a text is read as a tree exactly when the tree has an entry, can be written, and
is written in the characters of the text that are no whitespace. -/
theorem read_eq_ok_iff {cs : List Char} {tree : Tree} :
    read cs = .ok tree ↔
      tree ≠ .nil ∧ tree.Fits 0 ∧ withoutWhitespace cs = tree.tokens.flatMap Token.chars := by
  rw [read_eq_ok_iff_reads]
  constructor
  · rintro ⟨state, entries, hreads, hc, rfl⟩
    obtain ⟨htokens, hne, hfits⟩ := hreads.tokens_tree hc
    refine ⟨hne, hfits, ?_⟩
    rw [htokens, flatMap_chars_tokensOf]
  · rintro ⟨hne, hfits, htext⟩
    obtain ⟨state, hreads, hc⟩ := State.reads_tokens hne [] hfits []
    rw [List.append_nil] at hc
    refine ⟨state, tree.entries.reverse, ?_, hc, ?_⟩
    · rw [tokensOf_eq_of_spelled hfits.wellNamed.legible_tokens htext]
      exact hreads
    · rw [List.reverse_reverse, Tree.ofEntries_entries]

end Fragment

/-! ## The meaning -/

namespace Tree

open JsonProjection.Fragment (Token)

theorem compile_eq_ok_iff_read {fragment : String} {tree : Tree} :
    compile fragment = .ok tree ↔
      ∃ written, Fragment.read fragment.toList = .ok written ∧ tree = written.resolved := by
  unfold compile
  cases Fragment.read fragment.toList with
  | error error => exact ⟨nofun, fun ⟨_, h, _⟩ => nomatch h⟩
  | ok written =>
      constructor
      · rintro ⟨⟩
        exact ⟨written, rfl, rfl⟩
      · rintro ⟨_, ⟨⟩, rfl⟩
        rfl

theorem compile_eq_error_iff_read {fragment : String} {error : SyntaxError} :
    compile fragment = .error error ↔ Fragment.read fragment.toList = .error error := by
  unfold compile
  cases Fragment.read fragment.toList with
  | error found => exact Iff.rfl
  | ok written => exact ⟨nofun, nofun⟩

/-- **The exact grammar.** A text compiles to a tree exactly when there is a list of entries, not empty,
that can be written as a fragment: all its names are names, and its blocks that are not empty lie at most
`maxNesting` deep; whose text is the given one, whitespace left out; and whose meanings, inserted in order,
make the tree, an absent or an empty block counting as a leaf. -/
theorem compile_eq_ok_iff (fragment : String) (tree : Tree) :
    compile fragment = .ok tree ↔
      ∃ written : Tree,
        (written ≠ .nil ∧ written.WellNamed) ∧
        written.nesting ≤ maxNesting ∧
        withoutWhitespace fragment.toList = written.tokens.flatMap Token.chars ∧
        tree = Tree.nil.insertAll written.meanings := by
  rw [compile_eq_ok_iff_read]
  constructor
  · rintro ⟨written, hread, rfl⟩
    obtain ⟨hne, hfits, htext⟩ := Fragment.read_eq_ok_iff.mp hread
    have hnesting := hfits.nesting_le
    rw [Nat.zero_add] at hnesting
    exact ⟨written, ⟨hne, hfits.wellNamed⟩, hnesting, htext, resolved_eq_insertAll written⟩
  · rintro ⟨written, ⟨hne, hnames⟩, hnesting, htext, rfl⟩
    have hfits : written.Fits 0 := ⟨hnames, (Nat.zero_add _).symm ▸ hnesting⟩
    exact ⟨written, Fragment.read_eq_ok_iff.mpr ⟨hne, hfits, htext⟩,
      (resolved_eq_insertAll written).symm⟩

end Tree

end JsonProjection
