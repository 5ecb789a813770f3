/-
# `JsonProjection.Proofs.Json.Same` -- equality up to the order of members.

A JSON object is a set of named members; in which order they stand is kept, but two objects that differ in
nothing else are the same value.  `Same` is this equality.  Two objects are the same if under every name
stands the same value, or in both of them none; so it is proved name by name, and what stands under a name is
compared as a place (`Option.Rel Same`), a place without a value included.
-/
import JsonProjection.Proofs.Json.Path

namespace JsonProjection.Json

/-- **The same value, up to the order of members**, at every depth. -/
inductive Same : Json → Json → Prop
  /-- a value is the same as itself -/
  | refl (value : Json) : Same value value
  /-- arrays are the same if they have the same items at the same indices -/
  | arr {items items' : List Json} :
      (∀ i : Nat, Option.Rel Same items[i]? items'[i]?) → Same (.arr items) (.arr items')
  /-- objects are the same if they have the same values under the same names -/
  | obj {members members' : Object} :
      (∀ name, Option.Rel Same (Assoc.get? name members) (Assoc.get? name members')) →
      Same (.obj members) (.obj members')

/-- A place is the same as itself. -/
theorem Same.place (place : Option Json) : Option.Rel Same place place := by
  cases place with
  | none => exact .none
  | some value => exact .some (.refl value)

/-- Objects that are the same are both empty, or neither is. -/
theorem Same.eq_nil_iff {members members' : Object} (h : Same (.obj members) (.obj members')) :
    members = [] ↔ members' = [] := by
  cases h with
  | refl => rfl
  | obj hnames =>
      constructor <;> rintro rfl <;> refine Assoc.eq_nil_of_get?_eq_none fun name => ?_
      · have hname := hnames name
        cases hv : Assoc.get? name members' with
        | none => rfl
        | some value =>
            rw [hv] at hname
            cases hname
      · have hname := hnames name
        cases hv : Assoc.get? name members with
        | none => rfl
        | some value =>
            rw [hv] at hname
            cases hname

end JsonProjection.Json
