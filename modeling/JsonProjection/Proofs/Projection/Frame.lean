/-
# `JsonProjection.Proofs.Projection.Frame` -- an entry writes one member.

Whatever an entry does to the accumulator, it does to the member under its output name; every other member
stays as it is, until strict mode prunes (`settle`).  So an accumulator can be followed name by name: the
lemmas of this module say what stands under the output name after an entry, and that under every other name
stands what stood there before.  No name is repeated afterwards that was not repeated before.
-/
import JsonProjection.Projection.Basic
import JsonProjection.Proofs.Json.Path

namespace JsonProjection.Projection

open JsonProjection.Json (Object childOf)
open JsonProjection.Log (Logged)

variable {mode : Mode} {source : Json} {key : Key} {acc : Object} {name : String}

/-! ## The other members -/

theorem get?_fillMember_of_ne {output : String} (h : output ≠ name) (fill : Object → Object) :
    Assoc.get? name (fillMember output fill acc) = Assoc.get? name acc := by
  unfold fillMember
  split
  · exact Assoc.get?_set_of_ne h _ acc
  · rfl
  · exact Assoc.get?_set_of_ne h _ acc

theorem get?_writeChild_of_ne {output : String} (h : output ≠ name) (child : Object) :
    Assoc.get? name (writeChild mode output child acc) = Assoc.get? name acc := by
  unfold writeChild
  split
  · exact Assoc.get?_set_of_ne h _ acc
  · split
    · rfl
    · exact Assoc.get?_set_of_ne h _ acc

theorem get?_copyProperty_of_ne (h : key.output ≠ name) :
    Assoc.get? name (copyProperty mode source key acc).value = Assoc.get? name acc := by
  rw [value_copyProperty]
  split
  · exact Assoc.get?_set_of_ne h _ acc
  · rfl
  · exact Assoc.get?_ensure_of_ne h _ acc

theorem get?_enterProperty_of_ne (h : key.output ≠ name)
    (descend : Json → Object → Logged Object) (fill : Object → Object) :
    Assoc.get? name (enterProperty mode source key descend fill acc).value =
      Assoc.get? name acc := by
  unfold enterProperty
  split
  · split
    · exact Assoc.get?_set_of_ne h _ acc
    · exact get?_writeChild_of_ne h _
  · cases mode with
    | strict => rfl
    | absent => exact get?_fillMember_of_ne h fill

/-! ## No name is repeated -/

section NoName

variable (ha : (Assoc.keys acc).Nodup)
include ha

theorem nodup_keys_fillMember (output : String) (fill : Object → Object) :
    (Assoc.keys (fillMember output fill acc)).Nodup := by
  unfold fillMember
  split
  · exact Assoc.nodup_keys_set ha output _
  · exact ha
  · exact Assoc.nodup_keys_set ha output _

theorem nodup_keys_writeChild (mode : Mode) (output : String) (child : Object) :
    (Assoc.keys (writeChild mode output child acc)).Nodup := by
  unfold writeChild
  split
  · exact Assoc.nodup_keys_set ha output _
  · split
    · exact ha
    · exact Assoc.nodup_keys_set ha output _

theorem nodup_keys_copyProperty (mode : Mode) (source : Json) (key : Key) :
    (Assoc.keys (copyProperty mode source key acc).value).Nodup := by
  rw [value_copyProperty]
  split
  · exact Assoc.nodup_keys_set ha key.output _
  · exact ha
  · exact Assoc.nodup_keys_ensure ha key.output _

theorem nodup_keys_enterProperty (mode : Mode) (source : Json) (key : Key)
    (descend : Json → Object → Logged Object) (fill : Object → Object) :
    (Assoc.keys (enterProperty mode source key descend fill acc).value).Nodup := by
  unfold enterProperty
  split
  · split
    · exact Assoc.nodup_keys_set ha key.output _
    · exact nodup_keys_writeChild ha mode key.output _
  · cases mode with
    | strict => exact ha
    | absent => exact nodup_keys_fillMember ha key.output fill

theorem nodup_keys_settle (mode : Mode) : (Assoc.keys (settle mode acc)).Nodup := by
  cases mode with
  | strict => exact ha.sublist (List.filter_sublist.map Prod.fst)
  | absent => exact ha

end NoName

/-! ## The member of the entry -/

theorem get?_copyProperty_self (mode : Mode) (source : Json) (key : Key) (acc : Object) :
    Assoc.get? key.output (copyProperty mode source key acc).value =
      match source.property? key.name, mode with
      | some value, _ => some value
      | none, .strict => Assoc.get? key.output acc
      | none, .absent => some ((Assoc.get? key.output acc).getD .null) := by
  rw [value_copyProperty]
  cases source.property? key.name with
  | some value => exact Assoc.get?_set_self key.output value acc
  | none =>
      cases mode with
      | strict => rfl
      | absent => exact Assoc.get?_ensure_self key.output .null acc

theorem get?_fillMember_self (output : String) (fill : Object → Object) (acc : Object) :
    Assoc.get? output (fillMember output fill acc) =
      match Assoc.get? output acc with
      | some (.obj child) => some (.obj (fill child))
      | some value => some value
      | none => some (.obj (fill [])) := by
  unfold fillMember
  split <;> simp_all

/-- **Entering an object** goes on inside what stands under the output name, or inside an empty object, and
writes the result; but in strict mode a block that selects nothing writes nothing where no object stood. -/
theorem value_enterProperty_of_object {members child : Object}
    (hs : source.property? key.name = some (.obj members))
    {descend : Json → Object → Logged Object}
    (hc : (descend (.obj members) (childOf (Assoc.get? key.output acc))).value = child)
    (mode : Mode) (fill : Object → Object) :
    (enterProperty mode source key descend fill acc).value =
        Assoc.set key.output (.obj child) acc ∨
      mode = .strict ∧ child = [] ∧
        (∀ inside, Assoc.get? key.output acc ≠ some (.obj inside)) ∧
        (enterProperty mode source key descend fill acc).value = acc := by
  rcases Json.object_or_no_object (Assoc.get? key.output acc) with ⟨inside, ho⟩ | hno
  · rw [ho, Json.childOf_some_obj] at hc
    rw [value_enterProperty_of_child hs ho, hc]
    exact .inl rfl
  · rw [Json.childOf_of_no_object hno] at hc
    rw [value_enterProperty_of_no_child hs hno, hc]
    cases mode with
    | absent => exact .inl rfl
    | strict =>
        cases child with
        | nil => exact .inr ⟨rfl, rfl, hno, rfl⟩
        | cons member more => exact .inl rfl

/-- Absent mode writes what descending gives in any case. -/
theorem value_enterProperty_absent_of_object {members : Object}
    (hs : source.property? key.name = some (.obj members))
    (descend : Json → Object → Logged Object) (fill : Object → Object) (acc : Object) :
    (enterProperty .absent source key descend fill acc).value =
      Assoc.set key.output
        (.obj (descend (.obj members) (childOf (Assoc.get? key.output acc))).value) acc := by
  rcases value_enterProperty_of_object hs rfl .absent fill with hw | ⟨hmode, -⟩
  · exact hw
  · cases hmode

end JsonProjection.Projection
