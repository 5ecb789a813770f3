/-
# `JsonProjection.Proofs.Projection.Appended` -- two trees one after the other are one tree.

A tree is applied entry by entry to one accumulator, so applying one tree and then another is applying the
entries of both, one behind the other (`projectInto_append`), whatever names they write.  Two fragments with a
comma between them are read as the entries of both as well.  So it does not matter whether fragments are given
one by one or joined by commas (`project_joined`), as long as no key stands in both: a key that is repeated in one
fragment keeps its place and takes the later selection, while two fragments are applied one after the other, each
with its own.
-/
import JsonProjection.Proofs.Fragment.Joined
import JsonProjection.Proofs.Projection.Entries
import JsonProjection.Proofs.Projection.OneSource

namespace JsonProjection

open JsonProjection.Json (Object)
open JsonProjection.Projection

/-! ## Trees side by side -/

/-- **Two trees one after the other** are the one behind the other. -/
theorem Tree.projectInto_append (mode : Mode) (tree other : Tree) (source : Json) (acc : Object) :
    (tree.append other).projectInto mode source acc =
      other.projectInto mode source (tree.projectInto mode source acc) := by
  rw [projectInto_eq_applyAll, projectInto_eq_applyAll, projectInto_eq_applyAll, steps_append]
  exact List.foldl_append

/-- A schema of two trees gives what a schema of the one behind the other gives. -/
theorem Schema.value_apply_append (mode : Mode) (tree other : Tree) (source : Json) :
    (apply ⟨[tree, other]⟩ mode source).value = (apply ⟨[tree.append other]⟩ mode source).value := by
  show result mode (other.projectInto mode source (tree.projectInto mode source [])) =
    result mode ((tree.append other).projectInto mode source [])
  rw [Tree.projectInto_append]

namespace Projection

/-- **Fragments with a comma between them.**  Two fragments that compile, and of which no key stands in both on
the outermost level, project every source to the same value as the one fragment that has a comma between them, in
both modes, the order of members included. -/
theorem project_joined {fragment more : String} {tree other : Tree}
    (h : Tree.compile fragment = .ok tree) (ho : Tree.compile more = .ok other)
    (hdisjoint : ∀ key ∈ Assoc.keys tree.entries, key ∉ Assoc.keys other.entries) (mode : Mode)
    (source : Json) :
    ∃ value, project mode source [fragment, more] = .ok value ∧
      project mode source [fragment ++ "," ++ more] = .ok value := by
  have hmerged : tree.merge other = tree.append other :=
    Tree.merge_eq_append (Tree.nodup_keys_of_compile h) (Tree.nodup_keys_of_compile ho) hdisjoint
  have hboth : compileSchema [fragment, more] = .ok ⟨[tree, other]⟩ := by
    rw [compileSchema_eq_ok_iff, Schema.value_compile_eq_ok_iff]
    simp only [List.map_cons, List.map_nil, h, ho]
  have hone : compileSchema [fragment ++ "," ++ more] = .ok ⟨[tree.append other]⟩ := by
    rw [compileSchema_eq_ok_iff, Schema.value_compile_eq_ok_iff]
    simp only [List.map_cons, List.map_nil, Tree.compile_joined h ho, hmerged]
  refine ⟨(Schema.apply ⟨[tree, other]⟩ mode source).value, ?_, ?_⟩
  · rw [project, hboth]
    rfl
  · rw [project, hone, Schema.value_apply_append]
    rfl

/-- An order with a note, of which the note and a part of the customer go to the same place. -/
def orderNoted : Json :=
  .obj [("note", .null), ("customer", .obj [("name", .str "Ann"), ("tags", .obj [])])]

/-- A note under another name. -/
def noteTree : Tree := .leaf ⟨"note", some "who"⟩ .nil

/-- A block under that name, and the note under its own. -/
def customerTree : Tree :=
  .nested ⟨"customer", some "who"⟩ (.leaf ⟨"tags", none⟩ <| .leaf ⟨"name", none⟩ .nil) <|
    .leaf ⟨"note", none⟩ .nil

/-- The second fragment writes over what the first one wrote, in its place. -/
theorem project_joined_noted :
    let value : Json := .obj [("who", .obj [("name", .str "Ann")]), ("note", .null)]
    (Tree.compile "note->who" = .ok noteTree ∧
        Tree.compile "customer->who:{tags,name},note" = .ok customerTree ∧
        ∀ key ∈ Assoc.keys noteTree.entries, key ∉ Assoc.keys customerTree.entries) ∧
      project .strict orderNoted ["note->who", "customer->who:{tags,name},note"] = .ok value ∧
      project .strict orderNoted ["note->who,customer->who:{tags,name},note"] = .ok value := by
  intro value
  have hnote : Tree.compile "note->who" = .ok noteTree := rfl
  have hcustomer : Tree.compile "customer->who:{tags,name},note" = .ok customerTree := rfl
  have hdisjoint : ∀ key ∈ Assoc.keys noteTree.entries, key ∉ Assoc.keys customerTree.entries := by
    decide
  have hvalue : project .strict orderNoted ["note->who", "customer->who:{tags,name},note"] =
      .ok value := rfl
  obtain ⟨found, htwo, hone⟩ := project_joined hnote hcustomer hdisjoint .strict orderNoted
  cases htwo.symm.trans hvalue
  exact ⟨⟨hnote, hcustomer, hdisjoint⟩, hvalue, hone⟩

end Projection

end JsonProjection
