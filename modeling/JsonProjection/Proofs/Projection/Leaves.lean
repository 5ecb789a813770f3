/-
# `JsonProjection.Proofs.Projection.Leaves` -- arguments without their arrays.

Arguments are given in arrays, nested to any depth.  The values at their ends are the leaves, and flattening asks
nothing of the arguments but those: it gives the same for the leaves without any array around them
(`flatten_leaves`), the same fragments and the same refusal, which counts the fragments before it and not the
arrays.  So arguments flatten exactly when their leaves are strings, to these strings, and otherwise the first leaf
that is no string is named, by the number of leaves before it and by what it is (`flatten_outcome`).
-/
import JsonProjection.Proofs.Json.Parts
import JsonProjection.Proofs.Projection.Entries

namespace JsonProjection.Arguments

variable {arguments : List Json} {fragments : List String}

/-! ## Leaves -/

mutual

/-- The leaves of one argument. -/
def leavesOf : Json → List Json
  | .arr items => leaves items
  | value => [value]
termination_by structural argument => argument

/-- **Leaves**: the values that are no arrays, however many arrays stand around them, from left to right. -/
def leaves : List Json → List Json
  | [] => []
  | argument :: rest => leavesOf argument ++ leaves rest
termination_by structural arguments => arguments

end

/-- A leaf of several arguments is a leaf of one of them. -/
theorem mem_leaves_iff {leaf : Json} :
    leaf ∈ leaves arguments ↔ ∃ argument ∈ arguments, leaf ∈ leavesOf argument := by
  induction arguments with
  | nil => simp [leaves]
  | cons argument rest ih => simp [leaves, ih]

/-- No leaf is an array. -/
theorem ne_arr_of_mem_leavesOf {leaf argument : Json} (h : leaf ∈ leavesOf argument) (items : List Json) :
    leaf ≠ .arr items := by
  induction argument using Json.induct with
  | arr inner ih =>
      rw [leavesOf] at h
      obtain ⟨item, hitem, hleaf⟩ := mem_leaves_iff.mp h
      exact ih item hitem hleaf
  | null | bool | num | str | obj =>
      cases List.mem_singleton.mp h
      exact Json.noConfusion

theorem ne_arr_of_mem_leaves {leaf : Json} (h : leaf ∈ leaves arguments) (items : List Json) :
    leaf ≠ .arr items := by
  obtain ⟨argument, -, hleaf⟩ := mem_leaves_iff.mp h
  exact ne_arr_of_mem_leavesOf hleaf items

/-! ## Flattening -/

theorem flattenItems_cons (index : Nat) (argument : Json) (rest : List Json) :
    flattenItems index (argument :: rest) =
      (flattenItem index argument).bind fun fragments =>
        (flattenItems (index + fragments.length) rest).map (fragments ++ ·) := by
  rw [flattenItems]
  cases flattenItem index argument with
  | error error => rfl
  | ok fragments => cases h : flattenItems (index + fragments.length) rest <;> simp [Except.bind, Except.map, h]

/-- **Arguments behind others** start with the number of fragments of those. -/
theorem flattenItems_append (index : Nat) (before after : List Json) :
    flattenItems index (before ++ after) =
      (flattenItems index before).bind fun fragments =>
        (flattenItems (index + fragments.length) after).map (fragments ++ ·) := by
  induction before generalizing index with
  | nil => cases h : flattenItems index after <;> simp [flattenItems, Except.bind, Except.map, h]
  | cons argument rest ih =>
      rw [List.cons_append, flattenItems_cons, flattenItems_cons]
      cases flattenItem index argument with
      | error error => rfl
      | ok fragments =>
          simp only [Except.bind, ih]
          cases flattenItems (index + fragments.length) rest with
          | error error => rfl
          | ok more =>
              simp only [Except.map, List.length_append, ← Nat.add_assoc]
              cases flattenItems (index + fragments.length + more.length) after <;>
                simp [List.append_assoc]

/-- Arguments that are each flattened like their leaves are flattened like their leaves together. -/
theorem flattenItems_leaves (index : Nat)
    (h : ∀ argument ∈ arguments, ∀ index, flattenItems index (leavesOf argument) = flattenItem index argument) :
    flattenItems index (leaves arguments) = flattenItems index arguments := by
  induction arguments generalizing index with
  | nil => rfl
  | cons argument rest ih =>
      obtain ⟨hargument, hrest⟩ := List.forall_mem_cons.mp h
      rw [leaves, flattenItems_append, flattenItems_cons, hargument]
      exact congrArg _ (funext fun fragments => congrArg _ (ih _ hrest))

/-- One argument is flattened like its leaves. -/
theorem flattenItems_leavesOf (index : Nat) (argument : Json) :
    flattenItems index (leavesOf argument) = flattenItem index argument := by
  induction argument using Json.induct generalizing index with
  | arr items ih =>
      rw [leavesOf, flattenItem]
      exact flattenItems_leaves index ih
  | null | bool | num | str | obj => rfl

/-- **Arrays do not matter**: the arguments are flattened like their leaves, and refused like them. -/
theorem flatten_leaves (arguments : List Json) : flatten (leaves arguments) = flatten arguments :=
  flattenItems_leaves 0 fun argument _ index => flattenItems_leavesOf index argument

/-- Where there are no arrays, what is flattened to fragments are these fragments. -/
theorem eq_map_str_of_flattenItems {index : Nat} (harr : ∀ leaf ∈ arguments, ∀ items, leaf ≠ .arr items)
    (h : flattenItems index arguments = .ok fragments) : arguments = fragments.map .str := by
  induction arguments generalizing index fragments with
  | nil =>
      cases h
      rfl
  | cons leaf rest ih =>
      obtain ⟨hleaf, hrest⟩ := List.forall_mem_cons.mp harr
      rw [flattenItems_cons] at h
      cases leaf with
      | arr items => exact absurd rfl (hleaf items)
      | null | bool | num | obj => cases h
      | str fragment =>
          rw [flattenItem] at h
          cases hmore : flattenItems (index + [fragment].length) rest with
          | error error =>
              rw [Except.bind, hmore] at h
              cases h
          | ok more =>
              rw [Except.bind, hmore] at h
              cases h
              rw [ih hrest hmore]
              rfl

/-- **Flattening succeeds** exactly when the leaves are strings, and gives these strings. -/
theorem flatten_eq_ok_iff : flatten arguments = .ok fragments ↔ leaves arguments = fragments.map .str := by
  rw [← flatten_leaves]
  constructor
  · exact eq_map_str_of_flattenItems fun leaf => ne_arr_of_mem_leaves
  · intro hleaves
    rw [hleaves, flatten_str]

/-- **A leaf that is no string** has the arguments refused. -/
theorem exists_flatten_eq_error {leaf : Json} (hmem : leaf ∈ leaves arguments)
    (hleaf : ∀ fragment, leaf ≠ .str fragment) : ∃ error, flatten arguments = .error error := by
  cases hflatten : flatten arguments with
  | error error => exact ⟨error, rfl⟩
  | ok fragments =>
      rw [flatten_eq_ok_iff.mp hflatten] at hmem
      obtain ⟨fragment, -, rfl⟩ := List.mem_map.mp hmem
      exact absurd rfl (hleaf fragment)

/-! ## The first leaf that is no string -/

/-- **What a value is**, in words. -/
def typeName : Json → String
  | .null => "null"
  | .bool _ => "a boolean"
  | .num _ => "a number"
  | .str _ => "a string"
  | .arr _ => "an array"
  | .obj _ => "an object"

/-- The words tell the kinds of refused values apart. -/
theorem kind_eq_of_text_eq {kind other : ArgumentError.Kind} (h : kind.text = other.text) : kind = other := by
  cases kind <;> cases other <;> simp_all [ArgumentError.Kind.text]

/-- Values are strings, or there is a first one that is none. -/
theorem exists_first_nonString (values : List Json) :
    (∃ fragments : List String, values = fragments.map .str) ∨
      ∃ (before : List String) (value : Json) (after : List Json),
        values = before.map .str ++ value :: after ∧ ∀ fragment, value ≠ .str fragment := by
  induction values with
  | nil => exact .inl ⟨[], rfl⟩
  | cons value rest ih =>
      by_cases hvalue : ∃ fragment, value = .str fragment
      · obtain ⟨fragment, rfl⟩ := hvalue
        rcases ih with ⟨fragments, rfl⟩ | ⟨before, refused, after, rfl, hrefused⟩
        · exact .inl ⟨fragment :: fragments, rfl⟩
        · exact .inr ⟨fragment :: before, refused, after, rfl, hrefused⟩
      · have hrefused : ∀ fragment, value ≠ .str fragment := fun fragment h => hvalue ⟨fragment, h⟩
        exact .inr ⟨[], value, rest, rfl, hrefused⟩

/-- A value that is neither an array nor a string is refused, for what it is. -/
theorem flattenItem_refused {value : Json} (harr : ∀ items, value ≠ .arr items)
    (hstr : ∀ fragment, value ≠ .str fragment) (index : Nat) :
    ∃ kind, flattenItem index value = .error ⟨index, kind⟩ ∧ kind.text = typeName value := by
  cases value with
  | arr items => exact absurd rfl (harr items)
  | str fragment => exact absurd rfl (hstr fragment)
  | null => exact ⟨.null, rfl, rfl⟩
  | bool => exact ⟨.boolean, rfl, rfl⟩
  | num => exact ⟨.number, rfl, rfl⟩
  | obj => exact ⟨.object, rfl, rfl⟩

/-- **A leaf behind strings that is no string** refuses the arguments: it is counted by the strings before it. -/
theorem flatten_refused {before : List String} {leaf : Json} {after : List Json}
    (h : leaves arguments = before.map .str ++ leaf :: after) (hstr : ∀ fragment, leaf ≠ .str fragment) :
    ∃ kind, flatten arguments = .error ⟨before.length, kind⟩ ∧ kind.text = typeName leaf := by
  have hleaf : leaf ∈ leaves arguments := by simp [h]
  obtain ⟨kind, hrefused, htext⟩ := flattenItem_refused (ne_arr_of_mem_leaves hleaf) hstr before.length
  refine ⟨kind, ?_, htext⟩
  rw [← flatten_leaves, h, flatten, flattenItems_append, flattenItems_str]
  simp [Except.bind, Except.map, flattenItems_cons, hrefused]

/-- **What flattening gives**, in terms of the leaves alone: all of them, in order, when they are strings; and
otherwise the first one that is no string is refused, with the number of leaves before it and with what it is. -/
theorem flatten_outcome (arguments : List Json) :
    (∀ fragments, flatten arguments = .ok fragments ↔ leaves arguments = fragments.map .str) ∧
      ∀ error, flatten arguments = .error error ↔
        ∃ (before : List String) (leaf : Json) (after : List Json),
          leaves arguments = before.map .str ++ leaf :: after ∧ (∀ fragment, leaf ≠ .str fragment) ∧
            error.index = before.length ∧ error.found.text = typeName leaf := by
  refine ⟨fun fragments => flatten_eq_ok_iff, fun error => ⟨fun herror => ?_, ?_⟩⟩
  · obtain ⟨fragments, hleaves⟩ | ⟨before, leaf, after, hsplit, hstr⟩ :=
      exists_first_nonString (leaves arguments)
    · have hok := flatten_eq_ok_iff.mpr hleaves
      rw [hok] at herror
      cases herror
    · obtain ⟨kind, hrefused, htext⟩ := flatten_refused hsplit hstr
      rw [hrefused] at herror
      cases herror
      exact ⟨before, leaf, after, hsplit, hstr, rfl, htext⟩
  · rintro ⟨before, leaf, after, hsplit, hstr, hindex, htext⟩
    obtain ⟨kind, hrefused, hkind⟩ := flatten_refused hsplit hstr
    obtain ⟨index, found⟩ := error
    obtain rfl : index = before.length := hindex
    obtain rfl : found = kind := kind_eq_of_text_eq (htext.trans hkind.symm)
    exact hrefused

/-- Arrays are not counted, and the null behind the boolean is not looked at. -/
example : flatten [.arr [], .str "a", .arr [.arr [.str "b"], .bool true, .null]] =
    .error ⟨2, .boolean⟩ := rfl

end JsonProjection.Arguments
