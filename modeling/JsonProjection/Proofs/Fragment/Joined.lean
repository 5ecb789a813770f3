/-
# `JsonProjection.Proofs.Fragment.Joined` -- two fragments with a comma between them.

A comma at the end of a fragment ends its last entry, wherever the text before it may end: outside of all
blocks, so that what follows starts on the outermost level again.  Therefore two fragments with a comma between
them are one fragment, which writes the entries of the first and then those of the second
(`read_joined`); and it means the tree of the first with that of the second merged into it (`compile_joined`).
-/
import JsonProjection.Proofs.Fragment.Boundary
import JsonProjection.Proofs.Fragment.Grammar
import JsonProjection.Proofs.Selection.Appended

namespace JsonProjection

open JsonProjection.Fragment (Token)
open JsonProjection.Text (withoutWhitespace)

namespace Tree

/-- The tokens of a tree before a further one: a comma stands between the two. -/
theorem tokensBefore_of_ne_nil {tree : Tree} (h : tree ≠ .nil) :
    tree.tokensBefore = tree.tokens ++ [.comma] := if_neg (mt (isEmpty_iff tree).mp h)

/-- **The tokens of two trees** behind one another. -/
theorem tokens_append (tree : Tree) {other : Tree} (h : other ≠ .nil) :
    (tree.append other).tokens = tree.tokensBefore ++ other.tokens := by
  have hcomma : ∀ rest : Tree, (rest.append other).separator = [.comma] := fun rest =>
    if_neg (mt (isEmpty_iff _).mp (append_ne_nil h))
  induction tree with
  | nil => rw [nil_append, tokensBefore_nil, List.nil_append]
  | leaf key rest ih =>
      rw [leaf_append, tokens, hcomma, ih, tokensBefore_leaf]
      simp only [List.append_assoc, List.cons_append, List.nil_append]
  | nested key block rest _ ih =>
      rw [nested_append, tokens, hcomma, ih, tokensBefore_nested]
      simp only [List.append_assoc, List.cons_append, List.nil_append]

theorem Fits.appended {depth : Nat} {tree other : Tree} (h : tree.Fits depth)
    (ho : other.Fits depth) : (tree.append other).Fits depth := by
  rw [← ofEntries_entries tree] at h
  rw [← ofEntries_entries other] at ho
  exact h.append ho

end Tree

/-- **Reading two fragments with a comma between them**: the entries of the one, and then those of the other. -/
theorem Fragment.read_joined {cs ds : List Char} {tree other : Tree} (h : read cs = .ok tree)
    (ho : read ds = .ok other) : read (cs ++ ',' :: ds) = .ok (tree.append other) := by
  obtain ⟨hne, hfits, htext⟩ := read_eq_ok_iff.mp h
  obtain ⟨hone, hofits, hotext⟩ := read_eq_ok_iff.mp ho
  have hcomma : withoutWhitespace (',' :: ds) = ',' :: withoutWhitespace ds := rfl
  refine read_eq_ok_iff.mpr ⟨Tree.append_ne_nil hone, hfits.appended hofits, ?_⟩
  rw [Text.withoutWhitespace_append, hcomma, htext, hotext, Tree.tokens_append tree hone,
    Tree.tokensBefore_of_ne_nil hne]
  simp only [List.flatMap_append, List.append_assoc]
  rfl

/-- A compiled tree declares no key twice. -/
theorem Tree.nodup_keys_of_compile {fragment : String} {tree : Tree}
    (h : compile fragment = .ok tree) : (Assoc.keys tree.entries).Nodup := by
  obtain ⟨written, -, rfl⟩ := compile_eq_ok_iff_read.mp h
  exact nodup_keys_resolved written

/-- **Compiling two fragments with a comma between them** merges the second tree into the first. -/
theorem Tree.compile_joined {fragment more : String} {tree other : Tree}
    (h : compile fragment = .ok tree) (ho : compile more = .ok other) :
    compile (fragment ++ "," ++ more) = .ok (tree.merge other) := by
  obtain ⟨written, hread, rfl⟩ := compile_eq_ok_iff_read.mp h
  obtain ⟨written', hread', rfl⟩ := compile_eq_ok_iff_read.mp ho
  have htext : (fragment ++ "," ++ more).toList = fragment.toList ++ ',' :: more.toList := by
    rw [String.toList_append, String.toList_append, List.append_assoc]
    rfl
  refine compile_eq_ok_iff_read.mpr ⟨written.append written', ?_, (resolved_append _ _).symm⟩
  rw [htext]
  exact Fragment.read_joined hread hread'

end JsonProjection
