/-
# `JsonProjection.Proofs.Json.Path` -- values by the names that lead to them.

A path is a list of property names; it leads from a value to the property of the first name, to the property
of the second name in that, and so on (`at?`).  Two documents can be compared path by path, without regard
to the order in which the members stand.

A JSON text cannot name a member twice in one object, but the type of values does not forbid it, and where it
happens a member may hide another that pruning brings to light.  `DistinctNames` says that it happens nowhere
that a path leads to, and is kept by writing and by pruning.
-/
import JsonProjection.Json.Basic

namespace JsonProjection.Json

/-! ## Paths -/

/-- **The value at a path** of property names, if every name on the way is owned. -/
def at? : List String → Json → Option Json
  | [], value => some value
  | name :: path, value => (value.property? name).bind (at? path)

/-- The members of the object that may stand somewhere; none where no object stands. -/
def childOf (property : Option Json) : Object := (property.bind members?).getD []

@[simp] theorem childOf_some_obj (members : Object) : childOf (some (.obj members)) = members := rfl

/-- An object stands in a place, or none does. -/
theorem object_or_no_object (property : Option Json) :
    (∃ members, property = some (.obj members)) ∨ ∀ members, property ≠ some (.obj members) := by
  by_cases h : ∃ members, property = some (.obj members)
  · exact .inl h
  · exact .inr fun members hm => h ⟨members, hm⟩

theorem childOf_of_no_object {property : Option Json}
    (h : ∀ members, property ≠ some (.obj members)) : childOf property = [] := by
  cases property with
  | none => rfl
  | some value =>
      cases value with
      | obj members => exact absurd rfl (h members)
      | _ => rfl

/-- A path of at least one name goes on inside an object, or nowhere. -/
theorem bind_at?_cons (property : Option Json) (name : String) (path : List String) :
    property.bind (at? (name :: path)) = (Assoc.get? name (childOf property)).bind (at? path) := by
  cases property with
  | none => rfl
  | some value => cases value <;> rfl

/-- A path goes on where another ends. -/
theorem bind_at?_append (property : Option Json) (path more : List String) :
    property.bind (at? (path ++ more)) = (property.bind (at? path)).bind (at? more) := by
  induction path generalizing property with
  | nil => cases property <;> rfl
  | cons name path ih => rw [bind_at?_cons, List.cons_append, bind_at?_cons, ih]

/-- Under a value that is no object there is only the value itself. -/
theorem eq_nil_of_at?_eq_some {value found : Json} (h : value.members? = none) {path : List String}
    (hp : value.at? path = some found) : path = [] ∧ value = found := by
  cases path with
  | nil => exact ⟨rfl, Option.some.inj hp⟩
  | cons name path => cases value <;> cases h <;> cases hp

/-! ## Distinct names -/

/-- **Distinct names**: no object that a path leads to names a member twice. -/
def DistinctNames (value : Json) : Prop :=
  ∀ path members, value.at? path = some (.obj members) → (Assoc.keys members).Nodup

theorem distinctNames_obj_iff {members : Object} :
    (Json.obj members).DistinctNames ↔
      (Assoc.keys members).Nodup ∧
        ∀ name value, Assoc.get? name members = some value → value.DistinctNames := by
  constructor
  · intro h
    refine ⟨h [] members rfl, fun name value hv path inside hp => h (name :: path) inside ?_⟩
    rw [at?, property?, hv, Option.bind_some, hp]
  · rintro ⟨hn, hv⟩ path inside hp
    cases path with
    | nil =>
        cases hp
        exact hn
    | cons name path =>
        obtain ⟨value, hvalue, hp⟩ := Option.bind_eq_some_iff.mp hp
        exact hv name value hvalue path inside hp

/-- A value that is no object names nothing; paths do not enter arrays. -/
theorem distinctNames_of_no_object {value : Json} (h : value.members? = none) :
    value.DistinctNames := by
  intro path members hp
  obtain ⟨-, rfl⟩ := eq_nil_of_at?_eq_some h hp
  cases h

theorem distinctNames_emptyObject : (Json.obj []).DistinctNames :=
  distinctNames_obj_iff.mpr ⟨List.nodup_nil, nofun⟩

theorem DistinctNames.property {source value : Json} (h : source.DistinctNames) {name : String}
    (hv : source.property? name = some value) : value.DistinctNames := by
  intro path members hp
  refine h (name :: path) members ?_
  rw [at?, hv, Option.bind_some, hp]

/-- The object that may stand at a place. -/
theorem distinctNames_childOf {place : Option Json} (h : ∀ value ∈ place, value.DistinctNames) :
    (Json.obj (childOf place)).DistinctNames := by
  cases place with
  | none => exact distinctNames_emptyObject
  | some value =>
      cases value with
      | obj members => exact h _ rfl
      | _ => exact distinctNames_emptyObject

/-- The object that may stand under a name. -/
theorem DistinctNames.childOf {acc : Object} (h : (Json.obj acc).DistinctNames) (name : String) :
    (Json.obj (childOf (Assoc.get? name acc))).DistinctNames :=
  distinctNames_childOf fun value hv => (distinctNames_obj_iff.mp h).2 name value hv

theorem DistinctNames.set {acc : Object} (h : (Json.obj acc).DistinctNames) {value : Json}
    (hv : value.DistinctNames) (name : String) :
    (Json.obj (Assoc.set name value acc)).DistinctNames := by
  obtain ⟨hn, hvalues⟩ := distinctNames_obj_iff.mp h
  refine distinctNames_obj_iff.mpr ⟨Assoc.nodup_keys_set hn name value, fun name' value' hv' => ?_⟩
  rw [Assoc.get?_set] at hv'
  split at hv'
  · cases hv'
    exact hv
  · exact hvalues name' value' hv'

/-- Where no name is repeated, pruning takes away the empty objects and changes nothing else. -/
theorem get?_prune {acc : Object} (h : (Assoc.keys acc).Nodup) (name : String) :
    Assoc.get? name acc.prune = (Assoc.get? name acc).filter fun value => !value.isEmptyObject :=
  Assoc.get?_filter (fun value : Json => !value.isEmptyObject) h name

theorem DistinctNames.prune {acc : Object} (h : (Json.obj acc).DistinctNames) :
    (Json.obj acc.prune).DistinctNames := by
  obtain ⟨hn, hvalues⟩ := distinctNames_obj_iff.mp h
  have hsub : (Assoc.keys acc.prune).Sublist (Assoc.keys acc) := List.filter_sublist.map Prod.fst
  refine distinctNames_obj_iff.mpr ⟨hn.sublist hsub, fun name value hv => ?_⟩
  rw [get?_prune hn, Option.filter_eq_some_iff] at hv
  exact hvalues name value hv.1

end JsonProjection.Json
