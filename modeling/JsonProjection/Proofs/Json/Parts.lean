/-
# `JsonProjection.Proofs.Json.Parts` -- what a value is made of.

A value holds values: the items of its arrays and the members of its objects, and what these hold in turn
(`Within`).  A path (`at?`) leads to parts inside objects only; what is said here of all parts is said of those
inside arrays too.

`Unambiguous` says that no object in the value names a member twice.  `height` counts the arrays and objects that
stand around each other: a value that holds nothing has height 0, and an array or object is one higher than the
highest of what it holds.
-/
import JsonProjection.Proofs.Json.Path

namespace JsonProjection.Json

/-- **Induction on values**: an array after its items, an object after its members. -/
theorem induct {motive : Json → Prop} (null : motive .null) (bool : ∀ b, motive (.bool b))
    (num : ∀ n, motive (.num n)) (str : ∀ s, motive (.str s))
    (arr : ∀ items, (∀ item ∈ items, motive item) → motive (.arr items))
    (obj : ∀ members, (∀ member ∈ members, motive member.2) → motive (.obj members))
    (value : Json) : motive value :=
  @Json.rec motive (fun items => ∀ item ∈ items, motive item)
    (fun members => ∀ member ∈ members, motive member.2) (fun member => motive member.2)
    null bool num str arr obj nofun
    (fun _ _ hitem hrest => List.forall_mem_cons.mpr ⟨hitem, hrest⟩) nofun
    (fun _ _ hmember hrest => List.forall_mem_cons.mpr ⟨hmember, hrest⟩) (fun _ _ hvalue => hvalue)
    value

/-! ## Parts -/

/-- **Parts**: the value itself, and the parts of what it holds. -/
inductive Within (part : Json) : Json → Prop
  | refl : Within part part
  | item {items : List Json} {item : Json} :
      item ∈ items → Within part item → Within part (.arr items)
  | member {members : Object} {member : String × Json} :
      member ∈ members → Within part member.2 → Within part (.obj members)

theorem within_arr_iff {part : Json} {items : List Json} :
    Within part (.arr items) ↔ part = .arr items ∨ ∃ item ∈ items, Within part item := by
  constructor
  · intro h
    cases h with
    | refl => exact .inl rfl
    | item hitem hpart => exact .inr ⟨_, hitem, hpart⟩
  · rintro (rfl | ⟨item, hitem, hpart⟩)
    · exact .refl
    · exact .item hitem hpart

theorem within_obj_iff {part : Json} {members : Object} :
    Within part (.obj members) ↔ part = .obj members ∨ ∃ member ∈ members, Within part member.2 := by
  constructor
  · intro h
    cases h with
    | refl => exact .inl rfl
    | member hmember hpart => exact .inr ⟨_, hmember, hpart⟩
  · rintro (rfl | ⟨member, hmember, hpart⟩)
    · exact .refl
    · exact .member hmember hpart

/-- What stands at a path is a part. -/
theorem within_of_at?_eq_some {path : List String} {value found : Json}
    (h : value.at? path = some found) : Within found value := by
  induction path generalizing value with
  | nil =>
      cases h
      exact .refl
  | cons name path ih =>
      obtain ⟨inner, hinner, hrest⟩ := Option.bind_eq_some_iff.mp h
      cases value with
      | obj members => exact .member (Assoc.mem_of_get?_eq_some hinner) (ih hrest)
      | _ => cases hinner

/-! ## Objects that name no member twice -/

/-- **Unambiguous**: no object in the value, inside arrays too, names a member twice. -/
def Unambiguous (value : Json) : Prop :=
  ∀ members, Within (.obj members) value → (Assoc.keys members).Nodup

theorem unambiguous_arr_iff {items : List Json} :
    (Json.arr items).Unambiguous ↔ ∀ item ∈ items, item.Unambiguous := by
  constructor
  · exact fun h item hitem members hm => h members (.item hitem hm)
  · intro h members hm
    rcases within_arr_iff.mp hm with he | ⟨item, hitem, hm⟩
    · cases he
    · exact h item hitem members hm

theorem unambiguous_obj_iff {members : Object} :
    (Json.obj members).Unambiguous ↔
      (Assoc.keys members).Nodup ∧ ∀ member ∈ members, member.2.Unambiguous := by
  constructor
  · exact fun h => ⟨h members .refl, fun member hmember inner hm => h inner (.member hmember hm)⟩
  · rintro ⟨hn, h⟩ inner hm
    rcases within_obj_iff.mp hm with he | ⟨member, hmember, hm⟩
    · cases he
      exact hn
    · exact h member hmember inner hm

theorem unambiguous_null : Json.null.Unambiguous := nofun

theorem unambiguous_emptyObject : (Json.obj []).Unambiguous :=
  unambiguous_obj_iff.mpr ⟨List.nodup_nil, nofun⟩

theorem Unambiguous.distinctNames {value : Json} (h : value.Unambiguous) : value.DistinctNames :=
  fun _ members hp => h members (within_of_at?_eq_some hp)

/-! ## Height -/

mutual

/-- **The height** of a value: how many arrays and objects stand around each other in it. -/
def height : Json → Nat
  | .arr items => itemsHeight items + 1
  | .obj members => membersHeight members + 1
  | _ => 0
termination_by structural value => value

/-- The greatest height of some items. -/
def itemsHeight : List Json → Nat
  | [] => 0
  | item :: rest => max item.height (itemsHeight rest)
termination_by structural items => items

/-- The greatest height of some members. -/
def membersHeight : List (String × Json) → Nat
  | [] => 0
  | (_, value) :: rest => max value.height (membersHeight rest)
termination_by structural members => members

end

theorem itemsHeight_le_iff {items : List Json} {n : Nat} :
    itemsHeight items ≤ n ↔ ∀ item ∈ items, item.height ≤ n := by
  induction items with
  | nil => simp [itemsHeight]
  | cons item rest ih => rw [itemsHeight, Nat.max_le, ih, List.forall_mem_cons]

theorem membersHeight_le_iff {members : Object} {n : Nat} :
    membersHeight members ≤ n ↔ ∀ member ∈ members, member.2.height ≤ n := by
  induction members with
  | nil => simp [membersHeight]
  | cons member rest ih => rw [membersHeight, Nat.max_le, ih, List.forall_mem_cons]

variable {depth limit : Nat}

/-- There is room for an array inside `depth` others if there is for its brackets and for each item. -/
theorem add_height_arr_le_iff {items : List Json} :
    depth + (Json.arr items).height ≤ limit ↔
      depth < limit ∧ ∀ item ∈ items, depth + 1 + item.height ≤ limit := by
  have hroom : depth + (itemsHeight items + 1) ≤ limit ↔
      depth < limit ∧ itemsHeight items ≤ limit - depth - 1 := by omega
  rw [height, hroom, itemsHeight_le_iff]
  refine and_congr_right fun hlt => forall_congr' fun item => imp_congr_right fun _ => ?_
  omega

theorem add_height_obj_le_iff {members : Object} :
    depth + (Json.obj members).height ≤ limit ↔
      depth < limit ∧ ∀ member ∈ members, depth + 1 + member.2.height ≤ limit := by
  have hroom : depth + (membersHeight members + 1) ≤ limit ↔
      depth < limit ∧ membersHeight members ≤ limit - depth - 1 := by omega
  rw [height, hroom, membersHeight_le_iff]
  refine and_congr_right fun hlt => forall_congr' fun member => imp_congr_right fun _ => ?_
  omega

end JsonProjection.Json
