/-
# `JsonProjection.Proofs.Projection.Inherited` -- what a result inherits from its source.

What a projection writes are properties of the source, `null`, and objects that it builds itself, one member
after the other.  It goes down in the source and in the accumulator by the same names, so a property of the source
lands as deep as it was.  A condition on values, which may ask for less the deeper a value stands, therefore goes
over to the result if writing a member and pruning keep it (`Inherited`).

Only absent mode builds objects where the source has none.  They lie as deep as the blocks of the tree, and there
must be room for them: the condition must admit an empty object at each of these depths.
-/
import JsonProjection.Projection.Schema
import JsonProjection.Proofs.Projection.Frame
import JsonProjection.Proofs.Selection.Level

namespace JsonProjection

open JsonProjection.Json (Object childOf)
open JsonProjection.Log (Logged)
open JsonProjection.Projection

/-- **Inherited conditions** on values that stand inside `d` objects: they admit `null` wherever a member can
stand, and are kept by what is done to objects. -/
structure Json.Inherited (Q : Nat → Json → Prop) : Prop where
  null : ∀ {d acc}, Q d (.obj acc) → Q (d + 1) .null
  emptied : ∀ {d acc}, Q d (.obj acc) → Q d (.obj [])
  property : ∀ {d source name value}, Q d source → source.property? name = some value → Q (d + 1) value
  set : ∀ {d acc value}, Q d (.obj acc) → Q (d + 1) value →
    ∀ name, Q d (.obj (Assoc.set name value acc))
  prune : ∀ {d acc}, Q d (.obj acc) → Q d (.obj (Object.prune acc))

/-- **Room for the blocks** of a tree inside `d` objects: an empty object may stand as deep as they lie. -/
def Tree.RoomFor (Q : Nat → Json → Prop) (d : Nat) (tree : Tree) : Prop :=
  ∀ k ≤ tree.nesting, Q (d + k) (.obj [])

namespace Tree.RoomFor

variable {Q : Nat → Json → Prop} {d : Nat} {key : Key} {block rest : Tree}

theorem ofRest (h : (Tree.nested key block rest).RoomFor Q d) : rest.RoomFor Q d :=
  fun k hk => h k (Nat.le_trans hk (Nat.le_max_right _ _))

theorem ofBlock (h : (Tree.nested key block rest).RoomFor Q d) (he : block ≠ .nil) :
    block.RoomFor Q (d + 1) := by
  intro k hk
  have hnesting := Tree.nesting_le_iff.mp (Nat.le_refl (Tree.nested key block rest).nesting)
    key block List.mem_cons_self he
  have hle : k + 1 ≤ (Tree.nested key block rest).nesting := by omega
  rw [Nat.add_assoc, Nat.add_comm 1 k]
  exact h (k + 1) hle

/-- An entry writes an object one level deeper. -/
theorem empty (h : block.RoomFor Q d) : Q d (.obj []) := h 0 (Nat.zero_le _)

end Tree.RoomFor

namespace Json.Inherited

/-- A condition on objects that bears on their names and on each of their values is inherited, if what it asks of
the names is kept by writing and by leaving out. -/
theorem of_obj_iff {Q : Nat → Json → Prop} {C : Nat → List String → Prop}
    (hobj : ∀ {d members}, Q d (.obj members) ↔
      C d (Assoc.keys members) ∧ ∀ member ∈ members, Q (d + 1) member.2)
    (hnull : ∀ {d names}, C d names → Q (d + 1) .null)
    (hset : ∀ {d} {acc : Object}, C d (Assoc.keys acc) →
      ∀ name value, C d (Assoc.keys (Assoc.set name value acc)))
    (hsub : ∀ {d} {names kept : List String}, kept.Sublist names → C d names → C d kept) :
    Json.Inherited Q where
  null h := hnull (hobj.mp h).1
  emptied h := hobj.mpr ⟨hsub (List.nil_sublist _) (hobj.mp h).1, nofun⟩
  property := by
    intro d source name value hs hv
    cases source with
    | obj members => exact (hobj.mp hs).2 (name, value) (Assoc.mem_of_get?_eq_some hv)
    | _ => cases hv
  set := by
    intro d acc value ha hv name
    obtain ⟨hnames, hvalues⟩ := hobj.mp ha
    refine hobj.mpr ⟨hset hnames name value, fun member hm => ?_⟩
    rcases Assoc.mem_of_mem_set hm with rfl | hm
    · exact hv
    · exact hvalues member hm
  prune := by
    intro d acc ha
    obtain ⟨hnames, hvalues⟩ := hobj.mp ha
    have hkept : (Object.prune acc).Sublist acc := List.filter_sublist
    exact hobj.mpr ⟨hsub (hkept.map Prod.fst) hnames, fun member hm => hvalues member (hkept.subset hm)⟩

variable {Q : Nat → Json → Prop} (hQ : Json.Inherited Q)
include hQ

variable {d : Nat} {source : Json} {acc : Object} {mode : Mode}

/-! ## One entry -/

theorem ensure (ha : Q d (.obj acc)) {value : Json} (hv : Q (d + 1) value) (name : String) :
    Q d (.obj (Assoc.ensure name value acc)) := by
  by_cases hn : Assoc.get? name acc = none
  · have hm := (Assoc.get?_eq_none_iff name acc).mp hn
    rw [Assoc.ensure_of_not_mem hm, ← Assoc.set_of_not_mem hm]
    exact hQ.set ha hv name
  · obtain ⟨found, hf⟩ := Option.ne_none_iff_exists'.mp hn
    simpa only [Assoc.ensure, hf] using ha

/-- The object that may stand under a name, where an empty object may stand. -/
theorem childOf (ha : Q d (.obj acc)) (hroom : Q (d + 1) (.obj [])) (name : String) :
    Q (d + 1) (.obj (Json.childOf (Assoc.get? name acc))) := by
  cases hc : Assoc.get? name acc with
  | none => exact hroom
  | some value =>
      cases value with
      | obj members => exact hQ.property ha hc
      | _ => exact hroom

theorem fillMember {fill : Object → Object}
    (hf : ∀ {inside : Object}, Q (d + 1) (.obj inside) → Q (d + 1) (.obj (fill inside)))
    (hroom : Q (d + 1) (.obj [])) (ha : Q d (.obj acc)) (name : String) :
    Q d (.obj (fillMember name fill acc)) := by
  unfold Projection.fillMember
  split
  case h_1 child hc => exact hQ.set ha (hf (hQ.property ha hc)) name
  case h_2 => exact ha
  case h_3 => exact hQ.set ha (hf hroom) name

theorem copyProperty (hs : Q d source) (ha : Q d (.obj acc)) (mode : Mode) (key : Key) :
    Q d (.obj (copyProperty mode source key acc).value) := by
  rw [value_copyProperty]
  cases hv : source.property? key.name with
  | some value => exact hQ.set ha (hQ.property hs hv) key.output
  | none =>
      cases mode with
      | strict => exact ha
      | absent => exact hQ.ensure ha (hQ.null ha) key.output

theorem enterProperty {descend : Json → Object → Logged Object} {fill : Object → Object}
    (hd : ∀ {value : Json} {inside : Object}, Q (d + 1) value → Q (d + 1) (.obj inside) →
      Q (d + 1) (.obj (descend value inside).value))
    (hf : mode = .absent → ∀ {inside : Object}, Q (d + 1) (.obj inside) →
      Q (d + 1) (.obj (fill inside)))
    (hroom : mode = .absent → Q (d + 1) (.obj [])) (hs : Q d source) (ha : Q d (.obj acc)) (key : Key) :
    Q d (.obj (enterProperty mode source key descend fill acc).value) := by
  rcases Json.object_or_no_object (source.property? key.name) with ⟨members, ho⟩ | hno
  · -- where the source has an object there is room for one
    have hmembers := hQ.property hs ho
    have hchild := hd hmembers (hQ.childOf ha (hQ.emptied hmembers) key.output)
    -- what is written is what descending gives, or nothing
    rcases value_enterProperty_of_object ho rfl mode fill with hw | ⟨-, -, -, hw⟩
    · rw [hw]
      exact hQ.set ha hchild key.output
    · rw [hw]
      exact ha
  · rw [value_enterProperty_of_no_object hno]
    cases mode with
    | strict => exact ha
    | absent => exact hQ.fillMember (hf rfl) (hroom rfl) ha key.output

theorem settle (ha : Q d (.obj acc)) (mode : Mode) : Q d (.obj (settle mode acc)) := by
  cases mode with
  | strict => exact hQ.prune ha
  | absent => exact ha

/-! ## A whole tree -/

/-- Filling builds objects as deep as the blocks lie. -/
theorem fill (tree : Tree) (hroom : tree.RoomFor Q d) (ha : Q d (.obj acc)) :
    Q d (.obj (tree.fill acc)) := by
  induction tree generalizing d acc with
  | nil => exact ha
  | leaf key rest ih => exact ih hroom (hQ.ensure ha (hQ.null ha) key.output)
  | nested key block rest ihb ihr =>
      rw [Tree.fill]
      split
      case isTrue => exact ihr hroom.ofRest (hQ.ensure ha (hQ.null ha) key.output)
      case isFalse he =>
        have hblock := hroom.ofBlock (mt (Tree.isEmpty_iff block).mpr he)
        exact ihr hroom.ofRest (hQ.fillMember (ihb hblock) hblock.empty ha key.output)

/-- **A projection keeps an inherited condition**, if in absent mode there is room for the blocks. -/
theorem projectInto (tree : Tree) (hroom : mode = .absent → tree.RoomFor Q d) (hs : Q d source)
    (ha : Q d (.obj acc)) : Q d (.obj (tree.projectInto mode source acc)) := by
  induction tree generalizing d source acc with
  | nil => exact ha
  | leaf key rest ih =>
      rw [Tree.projectInto_leaf]
      exact ih hroom hs (hQ.settle (hQ.copyProperty hs ha mode key) mode)
  | nested key block rest ihb ihr =>
      have hrest : mode = .absent → rest.RoomFor Q d := fun hm => (hroom hm).ofRest
      by_cases he : block = .nil
      · subst he
        rw [Tree.projectInto_nested_nil, Tree.projectInto_leaf]
        exact ihr hrest hs (hQ.settle (hQ.copyProperty hs ha mode key) mode)
      · have hblock : mode = .absent → block.RoomFor Q (d + 1) := fun hm => (hroom hm).ofBlock he
        rw [Tree.projectInto_nested mode key he]
        have hentered := hQ.enterProperty (ihb hblock) (fun hm => hQ.fill block (hblock hm))
          (fun hm => (hblock hm).empty) hs ha key
        exact ihr hrest hs (hQ.settle hentered mode)

/-! ## A schema -/

theorem projectTrees {trees : List Tree}
    (hroom : mode = .absent → ∀ tree ∈ trees, tree.RoomFor Q d) (hs : Q d source)
    (ha : Q d (.obj acc)) : Q d (.obj (Schema.projectTrees mode source trees acc).value) := by
  induction trees generalizing acc with
  | nil => exact ha
  | cons tree rest ih =>
      have htree := hQ.projectInto tree (fun hm => hroom hm tree List.mem_cons_self) hs ha
      exact ih (fun hm other ho => hroom hm other (List.mem_cons_of_mem _ ho)) htree

/-- **The result of a schema has what its source has**, if an empty object and `null` have it and in absent mode
there is room for the blocks. -/
theorem apply {schema : Schema} (hroom : mode = .absent → ∀ tree ∈ schema.trees, tree.RoomFor Q 0)
    (hempty : Q 0 (.obj [])) (hnull : Q 0 .null) (hs : Q 0 source) :
    Q 0 (schema.apply mode source).value := by
  unfold Schema.apply
  split
  case isTrue => exact hs
  case isFalse =>
    have hresult := hQ.projectTrees hroom hs hempty
    show Q 0 (Schema.result mode (Schema.projectTrees mode source schema.trees []).value)
    unfold Schema.result
    split
    case h_1 => exact hresult
    case h_2 =>
      split
      · exact hnull
      · exact hresult

end Json.Inherited

end JsonProjection
