/-
# `JsonProjection.Proofs.Json.Grows` -- values that are part of others.

One value is part of another if every path of the first leads to the same in the second, objects apart: an object
may be larger there.  The relation is stated of places (`Grows`), a place without a value being part of every
other.  It says of a run that writes and does not overwrite that it adds only, and of what was selected that it
comes from the source.
-/
import JsonProjection.Proofs.Json.Path

namespace JsonProjection.Json

/-- **A place that only grows**: what is no object stays as it is, and an object stays an object. -/
def Grows (before after : Option Json) : Prop :=
  ∀ path value, before.bind (at? path) = some value →
    after.bind (at? path) = some value ∨
      (∃ members, value = .obj members) ∧ ∃ members, after.bind (at? path) = some (.obj members)

theorem Grows.refl (place : Option Json) : Grows place place := fun _ _ h => .inl h

theorem Grows.of_none (after : Option Json) : Grows none after := nofun

theorem Grows.trans {first second third : Option Json} (h : Grows first second)
    (h' : Grows second third) : Grows first third := by
  intro path value hv
  rcases h path value hv with hv | ⟨hobject, members, hm⟩
  · exact h' path value hv
  · rcases h' path (.obj members) hm with hm | ⟨-, hm⟩
    · exact .inr ⟨hobject, members, hm⟩
    · exact .inr ⟨hobject, hm⟩

/-- An object grows if the places under its names grow. -/
theorem Grows.obj {members members' : Object}
    (h : ∀ name, Grows (Assoc.get? name members) (Assoc.get? name members')) :
    Grows (some (.obj members)) (some (.obj members')) := by
  intro path value hv
  cases path with
  | nil => exact .inr ⟨⟨members, (Option.some.inj hv).symm⟩, members', rfl⟩
  | cons name path => exact h name path value hv

namespace Grows

variable {before after : Option Json}

/-- What grows grows inside. -/
theorem member (h : Grows before after) (name : String) :
    Grows (Assoc.get? name (childOf before)) (Assoc.get? name (childOf after)) := by
  intro path value hv
  rw [← bind_at?_cons] at hv ⊢
  exact h (name :: path) value hv

/-- What grows grows at every path. -/
theorem inside (h : Grows before after) {path : List String} {value : Json}
    (hv : before.bind (at? path) = some value) :
    ∃ found, after.bind (at? path) = some found ∧ Grows (some value) (some found) := by
  have hthere : ∃ found, after.bind (at? path) = some found := by
    rcases h path value hv with ha | ⟨-, members, ha⟩
    · exact ⟨_, ha⟩
    · exact ⟨_, ha⟩
  obtain ⟨found, ha⟩ := hthere
  refine ⟨found, ha, fun more inner hm => ?_⟩
  have hinner := h (path ++ more) inner
  rw [bind_at?_append, bind_at?_append, hv, ha] at hinner
  exact hinner hm

theorem exists_some {value : Json} (h : Grows (some value) after) : ∃ found, after = some found := by
  cases after with
  | some found => exact ⟨found, rfl⟩
  | none => rcases h [] value rfl with ha | ⟨-, _, ha⟩ <;> cases ha

/-- An object is part of an object. -/
theorem exists_members {members : Object} (h : Grows (some (.obj members)) after) :
    ∃ members', after = some (.obj members') := by
  obtain ⟨found, rfl⟩ := h.exists_some
  rcases h [] (.obj members) rfl with ha | ⟨-, members', ha⟩
  · exact ⟨members, ha⟩
  · exact ⟨members', ha⟩

/-- What is no object is part of itself only. -/
theorem eq_of_no_object {value : Json} (h : Grows (some value) after) (hv : value.members? = none) :
    after = some value := by
  obtain ⟨found, rfl⟩ := h.exists_some
  rcases h [] value rfl with ha | ⟨⟨members, rfl⟩, -⟩
  · exact ha
  · cases hv

theorem exists_child {part : Json} {members : Object} (h : Grows (some part) (some (.obj members))) :
    ∃ child, part = .obj child := by
  cases part with
  | obj child => exact ⟨child, rfl⟩
  | _ => cases h.eq_of_no_object rfl

theorem exists_member {child members : Object} {name : String} {value : Json}
    (h : Grows (some (.obj child)) (some (.obj members))) (hv : Assoc.get? name child = some value) :
    ∃ found, Assoc.get? name members = some found ∧ Grows (some value) (some found) := by
  have hplace := h.member name
  rw [childOf_some_obj, childOf_some_obj, hv] at hplace
  obtain ⟨found, hf⟩ := hplace.exists_some
  exact ⟨found, hf, hf ▸ hplace⟩

end Grows

end JsonProjection.Json
