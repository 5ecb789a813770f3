/-
# `JsonProjection.Proofs.Projection.Filling` -- filling is descending into an object that owns nothing.

Absent mode has two recursions.  Where the property of a block is an object, `project` descends into it; where it
is none, `fill` writes the shape of the block.  Each keeps the values that stand in the accumulator, goes on inside
the objects that stand there, and puts the names that are missing at the end.  They are written apart from each
other, and they agree: a source that owns nothing that the entries of a tree name is projected as the tree is filled
(`projectInto_absent_of_unowned`), whatever else it owns, and for every accumulator.

So it makes no difference to a block whether its property is missing or is an object with nothing of the block in
it, where the output name is free or holds an object.  Where it holds another value the two differ: filling keeps
that value, and descending replaces it.

As filling puts something only where nothing stands, a relation between the places of two objects holds between an
object and the same object filled as soon as it allows that (`AllowsFilling`).
-/
import JsonProjection.Proofs.Projection.Frame

namespace JsonProjection

open JsonProjection.Json (Object)
open JsonProjection.Projection

/-! ## Relations that allow filling -/

/-- **A relation of places that allows filling**: it may be followed from place to place and into objects, and where
nothing stands it allows a marker, and whatever it allows to be made of an empty object. -/
structure Json.AllowsFilling (P : Option Json → Option Json → Prop) : Prop where
  refl : ∀ place, P place place
  trans : ∀ {first second third}, P first second → P second third → P first third
  obj : ∀ {members members' : Object},
    (∀ name, P (Assoc.get? name members) (Assoc.get? name members')) →
    P (some (.obj members)) (some (.obj members'))
  marker : P none (some .null)
  made : ∀ {place}, P (some (.obj [])) place → P none place

namespace Json.AllowsFilling

variable {P : Option Json → Option Json → Prop} (h : Json.AllowsFilling P)
include h

theorem ensure (name : String) (acc : Object) :
    P (some (.obj acc)) (some (.obj (Assoc.ensure name .null acc))) := by
  refine h.obj fun name' => ?_
  by_cases hn : name = name'
  · subst hn
    rw [Assoc.get?_ensure_self]
    cases Assoc.get? name acc with
    | none => exact h.marker
    | some found => exact h.refl _
  · rw [Assoc.get?_ensure_of_ne hn]
    exact h.refl _

theorem fillMember_self {fill : Object → Object}
    (hf : ∀ inside, P (some (.obj inside)) (some (.obj (fill inside)))) (name : String) (acc : Object) :
    P (Assoc.get? name acc) (Assoc.get? name (fillMember name fill acc)) := by
  rw [get?_fillMember_self]
  cases Assoc.get? name acc with
  | none => exact h.made (hf [])
  | some value =>
      cases value with
      | obj child => exact hf child
      | _ => exact h.refl _

theorem fillMember {fill : Object → Object}
    (hf : ∀ inside, P (some (.obj inside)) (some (.obj (fill inside)))) (name : String) (acc : Object) :
    P (some (.obj acc)) (some (.obj (Projection.fillMember name fill acc))) := by
  refine h.obj fun name' => ?_
  by_cases hn : name = name'
  · subst hn
    exact h.fillMember_self hf name acc
  · rw [get?_fillMember_of_ne hn]
    exact h.refl _

/-- **Filling is allowed.** -/
theorem fill (tree : Tree) (acc : Object) : P (some (.obj acc)) (some (.obj (tree.fill acc))) := by
  induction tree generalizing acc with
  | nil => exact h.refl _
  | leaf key rest ih => exact h.trans (h.ensure key.output acc) (ih _)
  | nested key block rest ihb ihr =>
      rw [Tree.fill]
      split
      · exact h.trans (h.ensure key.output acc) (ihr _)
      · exact h.trans (h.fillMember ihb key.output acc) (ihr _)

end Json.AllowsFilling

namespace Tree

/-! ## Sources that own nothing of a tree -/

/-- **Nothing of a tree is owned** by a source: no property that an entry of its outermost level names. -/
def Unowned (tree : Tree) (source : Json) : Prop :=
  ∀ key ∈ Assoc.keys tree.entries, source.property? key.name = none

theorem unowned_leaf_iff {key : Key} {rest : Tree} {source : Json} :
    (Tree.leaf key rest).Unowned source ↔ source.property? key.name = none ∧ rest.Unowned source :=
  List.forall_mem_cons

theorem unowned_nested_iff {key : Key} {block rest : Tree} {source : Json} :
    (Tree.nested key block rest).Unowned source ↔
      source.property? key.name = none ∧ rest.Unowned source :=
  List.forall_mem_cons

/-- **Filling is absent mode without a match**: where nothing of the tree is owned, absent mode fills the shape. -/
theorem projectInto_absent_of_unowned {tree : Tree} {source : Json} (h : tree.Unowned source) (acc : Object) :
    tree.projectInto .absent source acc = tree.fill acc := by
  induction tree generalizing acc with
  | nil => rfl
  | leaf key rest ih =>
      obtain ⟨hkey, hrest⟩ := unowned_leaf_iff.mp h
      rw [projectInto_leaf, value_copyProperty, hkey]
      exact ih hrest _
  | nested key block rest _ ih =>
      obtain ⟨hkey, hrest⟩ := unowned_nested_iff.mp h
      by_cases he : block = .nil
      · subst he
        rw [projectInto_nested_nil, projectInto_leaf, value_copyProperty, hkey]
        exact ih hrest _
      · -- nothing is entered, so the block is filled by the same function on both sides
        have hno : ∀ members, source.property? key.name ≠ some (.obj members) := by simp [hkey]
        rw [projectInto_nested .absent key he, value_enterProperty_of_no_object hno, fill,
          if_neg (mt (isEmpty_iff block).mp he)]
        exact ih hrest _

/-! ## One block -/

section Block

variable {key : Key} {block : Tree} {source : Json} {acc : Object}

/-- A block whose property is no object is filled. -/
theorem projectInto_absent_of_no_object (hne : block ≠ .nil)
    (h : ∀ members, source.property? key.name ≠ some (.obj members)) (acc : Object) :
    (Tree.nested key block .nil).projectInto .absent source acc = fillMember key.output block.fill acc := by
  rw [projectInto_nested .absent key hne, value_enterProperty_of_no_object h]
  rfl

/-- So is a block whose property is an object that owns nothing of it, unless it overwrites a value that is no
object. -/
theorem projectInto_absent_of_unowned_object (hne : block ≠ .nil) {members : Object}
    (h : source.property? key.name = some (.obj members)) (hunowned : block.Unowned (.obj members))
    (hplace : ∀ value, Assoc.get? key.output acc = some value → ∃ child, value = .obj child) :
    (Tree.nested key block .nil).projectInto .absent source acc = fillMember key.output block.fill acc := by
  have hdescend : ∀ child, (block.project .absent (.obj members) child).value = block.fill child :=
    fun child => projectInto_absent_of_unowned hunowned child
  rw [projectInto_nested .absent key hne]
  cases hget : Assoc.get? key.output acc with
  | none =>
      have hno : ∀ child, Assoc.get? key.output acc ≠ some (.obj child) := by simp [hget]
      rw [value_enterProperty_of_no_child h hno, hdescend]
      simp only [fillMember, hget]
      rfl
  | some value =>
      obtain ⟨child, rfl⟩ := hplace value hget
      rw [value_enterProperty_of_child h hget, hdescend]
      simp only [fillMember, hget]
      rfl

end Block

/-- **Filling and descending agree.**  From every accumulator a tree is filled as it is projected in absent mode
from a source that owns nothing of its outermost level.  And a block that is not empty makes of an accumulator in
which its output name is free or holds an object the same, the order of members included, whether its property is
missing, is no object, or is an object that owns nothing of the block. -/
theorem projectInto_absent_fill (tree : Tree) :
    (∀ source, tree.Unowned source → ∀ acc, tree.projectInto .absent source acc = tree.fill acc) ∧
      (tree ≠ .nil → ∀ key lacking entered members acc,
        (∀ object, Json.property? key.name lacking ≠ some (.obj object)) →
        entered.property? key.name = some (.obj members) → tree.Unowned (.obj members) →
        (∀ value, Assoc.get? key.output acc = some value → ∃ child, value = .obj child) →
        (Tree.nested key tree .nil).projectInto .absent lacking acc =
          (Tree.nested key tree .nil).projectInto .absent entered acc) := by
  constructor
  · intro source hunowned acc
    exact projectInto_absent_of_unowned hunowned acc
  · intro hne key lacking entered members acc hlacking hentered hunowned hplace
    calc (Tree.nested key tree .nil).projectInto .absent lacking acc
        = fillMember key.output tree.fill acc := projectInto_absent_of_no_object hne hlacking acc
      _ = (Tree.nested key tree .nil).projectInto .absent entered acc :=
          (projectInto_absent_of_unowned_object hne hentered hunowned hplace).symm

/-- A leaf under a second name, a leaf, and a block with a block inside it. -/
def addressShape : Tree :=
  .leaf ⟨"street", some "line"⟩ <|
    .leaf ⟨"zip", none⟩ <|
      .nested ⟨"region", none⟩ (.nested ⟨"country", none⟩ (.leaf ⟨"code", none⟩ .nil) .nil) .nil

/-- An object stands under the output name, with a value, an object and the beginning of a block in it.  The source
with a text for an address and the source with an address that holds nothing of the shape, but for an output name
and for names inside the block, leave the same accumulator, and so does the shape filled into the object. -/
theorem projectInto_absent_fill_address :
    let key : Key := ⟨"address", some "a"⟩
    let lacking : Json := .obj [("address", .str "unknown")]
    let members : Object := [("line", .bool true), ("code", .null), ("country", .obj [("code", .bool true)])]
    let entered : Json := .obj [("id", .null), ("address", .obj members)]
    let child : Object := [("zip", .bool false), ("region", .obj [("name", .null)])]
    let filled : Object :=
      [("zip", .bool false), ("region", .obj [("name", .null), ("country", .obj [("code", .null)])]),
        ("line", .null)]
    (addressShape ≠ .nil ∧ addressShape.Unowned (.obj members) ∧
        (∀ object, Json.property? key.name lacking ≠ some (.obj object)) ∧
        entered.property? key.name = some (.obj members)) ∧
      addressShape.projectInto .absent (.obj members) child = filled ∧
      (Tree.nested key addressShape .nil).projectInto .absent lacking [("a", .obj child), ("b", .null)] =
        [("a", .obj filled), ("b", .null)] ∧
      (Tree.nested key addressShape .nil).projectInto .absent entered [("a", .obj child), ("b", .null)] =
        [("a", .obj filled), ("b", .null)] := by
  intro key lacking members entered child filled
  have hne : addressShape ≠ .nil := by decide
  have hunowned : addressShape.Unowned (.obj members) := by
    intro key hkey
    simp only [addressShape, entries, Assoc.keys_cons, Assoc.keys_nil, List.mem_cons, List.not_mem_nil,
      or_false] at hkey
    rcases hkey with rfl | rfl | rfl <;> rfl
  have hlacking : ∀ object, Json.property? key.name lacking ≠ some (.obj object) := by
    intro object hobject
    cases hobject
  have hentered : entered.property? key.name = some (.obj members) := rfl
  obtain ⟨hfill, hagree⟩ := projectInto_absent_fill addressShape
  have hruns := hagree hne key lacking entered members [("a", .obj child), ("b", .null)] hlacking hentered
    hunowned fun value hvalue => ⟨child, (Option.some.inj hvalue).symm⟩
  have hfilled : (Tree.nested key addressShape .nil).projectInto .absent lacking
      [("a", .obj child), ("b", .null)] = [("a", .obj filled), ("b", .null)] := rfl
  exact ⟨⟨hne, hunowned, hlacking, hentered⟩, hfill _ hunowned child, hfilled, hruns ▸ hfilled⟩

end Tree

end JsonProjection
