/-
# `JsonProjection.Proofs.Projection.Added` -- absent mode adds nothing but markers.

Whatever absent mode writes that is no marker, strict mode writes at the same place: the two modes part only where
strict mode leaves something out, and there absent mode writes `null`, alone or as the leaves of an object.  So a
value of the result with markers that is neither an object nor `null` stands in the strict result, at the same path
(`Schema.addsMarkers_apply`).  The converse has an exception and is proved elsewhere.

The two runs are compared entry by entry.  Objects may come and go in either; what is compared is what stands
at the ends of paths (`AddsMarkers`).
-/
import JsonProjection.Projection.Schema
import JsonProjection.Proofs.Projection.Filling
import JsonProjection.Proofs.Projection.Names

namespace JsonProjection

open JsonProjection.Json (Object childOf at?)
open JsonProjection.Log (Logged)
open JsonProjection.Projection

/-! ## Places that differ by markers -/

/-- **Markers are added**: what is no object and no marker in the second place stands in the first, at the same
path. -/
def Json.AddsMarkers (strict absent : Option Json) : Prop :=
  ∀ path value, absent.bind (at? path) = some value → value.members? = none → value ≠ .null →
    strict.bind (at? path) = some value

namespace Json.AddsMarkers

variable {strict absent : Option Json}

theorem refl (place : Option Json) : AddsMarkers place place := fun _ _ h _ _ => h

theorem trans {first second third : Option Json} (h : AddsMarkers first second)
    (h' : AddsMarkers second third) : AddsMarkers first third := by
  intro path value hv hm hn
  exact h path value (h' path value hv hm hn) hm hn

theorem of_none (strict : Option Json) : AddsMarkers strict none := nofun

/-- A marker may be added anywhere. -/
theorem marker (strict : Option Json) : AddsMarkers strict (some .null) := by
  intro path value hv _ hn
  obtain ⟨-, rfl⟩ := eq_nil_of_at?_eq_some rfl hv
  exact absurd rfl hn

/-- An object differs by markers if the places under its names do. -/
theorem obj {members members' : Object}
    (h : ∀ name, AddsMarkers (Assoc.get? name members) (Assoc.get? name members')) :
    AddsMarkers (some (.obj members)) (some (.obj members')) := by
  intro path value hv hm hn
  cases path with
  | nil =>
      cases hv
      cases hm
  | cons name path => exact h name path value hv hm hn

theorem member (h : AddsMarkers strict absent) (name : String) :
    AddsMarkers (Assoc.get? name (childOf strict)) (Assoc.get? name (childOf absent)) := by
  intro path value hv hm hn
  rw [← bind_at?_cons] at hv ⊢
  exact h (name :: path) value hv hm hn

/-- The objects that may stand there differ by markers as well. -/
theorem children (h : AddsMarkers strict absent) :
    AddsMarkers (some (.obj (childOf strict))) (some (.obj (childOf absent))) := .obj h.member

/-- Where nothing was selected there is nothing but markers, and these may be added anywhere. -/
theorem of_empty (h : AddsMarkers (some (.obj [])) absent) (strict : Option Json) :
    AddsMarkers strict absent := by
  intro path value hv hm hn
  have hnone := h path value hv hm hn
  cases path with
  | nil =>
      cases hnone
      cases hm
  | cons name path => cases hnone

/-- Empty objects hold nothing that could be missed. -/
theorem prune (h : AddsMarkers strict absent) :
    AddsMarkers (strict.filter fun value => !value.isEmptyObject) absent := by
  intro path value hv hm hn
  obtain ⟨found, rfl, hfound⟩ := Option.bind_eq_some_iff.mp (h path value hv hm hn)
  have hkept : found.isEmptyObject = false := by
    refine Bool.eq_false_iff.mpr fun he => ?_
    cases found with
    | obj members =>
        cases members with
        | nil =>
            -- the empty object is no value of this kind, and there is none inside it
            cases path with
            | nil =>
                cases hfound
                cases hm
            | cons name path => cases hfound
        | cons member rest => cases he
    | _ => cases he
  rw [Option.filter_some, if_pos (by simp [hkept]), Option.bind_some, hfound]

end Json.AddsMarkers

open JsonProjection.Json (AddsMarkers)

/-- Filling adds nothing but markers. -/
theorem Json.addsMarkers_allowsFilling : Json.AllowsFilling AddsMarkers where
  refl := .refl
  trans := .trans
  obj := .obj
  marker := .marker none
  made h := h.of_empty none

/-! ## One entry -/

namespace Json.AddsMarkers

variable {strict absent : Object} {source : Json} {key : Key}

theorem copyProperty (h : AddsMarkers (some (.obj strict)) (some (.obj absent))) :
    AddsMarkers (some (.obj (copyProperty .strict source key strict).value))
      (some (.obj (Projection.copyProperty .absent source key absent).value)) := by
  refine .obj fun name => ?_
  have hname : AddsMarkers (Assoc.get? name strict) (Assoc.get? name absent) := h.member name
  by_cases hn : key.output = name
  · subst hn
    rw [get?_copyProperty_self, get?_copyProperty_self]
    cases source.property? key.name with
    | some value => exact .refl _
    | none =>
        cases hfound : Assoc.get? key.output absent with
        | none => exact .marker _
        | some value => rwa [hfound] at hname
  · rw [get?_copyProperty_of_ne hn, get?_copyProperty_of_ne hn]
    exact hname

theorem enterProperty {block : Tree}
    (hd : ∀ members, source.property? key.name = some (.obj members) →
      AddsMarkers
        (some (.obj (block.projectInto .strict (.obj members) (childOf (Assoc.get? key.output strict)))))
        (some (.obj (block.projectInto .absent (.obj members) (childOf (Assoc.get? key.output absent))))))
    (h : AddsMarkers (some (.obj strict)) (some (.obj absent))) :
    AddsMarkers
      (some (.obj (enterProperty .strict source key (block.project .strict) block.fill strict).value))
      (some (.obj (Projection.enterProperty .absent source key (block.project .absent) block.fill
        absent).value)) := by
  rcases object_or_no_object (source.property? key.name) with ⟨members, ho⟩ | hno
  · have hdescend := hd members ho
    generalize hchild :
      block.projectInto .strict (.obj members) (childOf (Assoc.get? key.output strict)) = child at hdescend
    refine .obj fun name => ?_
    by_cases hn : key.output = name
    · subst hn
      rw [value_enterProperty_absent_of_object ho, Assoc.get?_set_self]
      rcases value_enterProperty_of_object ho hchild .strict block.fill with hw | ⟨-, rfl, -, hw⟩
      · rw [hw, Assoc.get?_set_self]
        exact hdescend
      · -- strict mode writes nothing, and then absent mode writes markers only
        exact hdescend.of_empty _
    · rw [get?_enterProperty_of_ne hn, get?_enterProperty_of_ne hn]
      exact h.member name
  · rw [value_enterProperty_of_no_object hno, value_enterProperty_of_no_object hno]
    have hblock := addsMarkers_allowsFilling.fill block
    exact h.trans (addsMarkers_allowsFilling.fillMember hblock key.output absent)

/-- Pruning takes from the strict accumulator what holds nothing. -/
theorem settle (h : AddsMarkers (some (.obj strict)) (some (.obj absent)))
    (hd : (Assoc.keys strict).Nodup) :
    AddsMarkers (some (.obj (settle .strict strict))) (some (.obj (Projection.settle .absent absent))) := by
  refine .obj fun name => ?_
  rw [Projection.settle, Projection.settle, get?_prune hd]
  exact (h.member name).prune

end Json.AddsMarkers

/-! ## A whole tree -/

/-- **The run**: where the accumulators differ by markers before a tree is applied, they do so afterwards. -/
theorem Tree.addsMarkers_projectInto (tree : Tree) {source : Json} (hs : source.DistinctNames)
    {strict absent : Object} (hd : (Json.obj strict).DistinctNames)
    (h : AddsMarkers (some (.obj strict)) (some (.obj absent))) :
    AddsMarkers (some (.obj (tree.projectInto .strict source strict)))
      (some (.obj (tree.projectInto .absent source absent))) := by
  induction tree generalizing source strict absent with
  | nil => exact h
  | leaf key rest ih =>
      have hcopied : (Json.obj (copyProperty .strict source key strict).value).DistinctNames :=
        distinctNames_copyProperty hs hd
      rw [projectInto_leaf, projectInto_leaf]
      exact ih hs (distinctNames_settle hcopied)
        (h.copyProperty.settle (Json.distinctNames_obj_iff.mp hcopied).1)
  | nested key block rest ihb ihr =>
      by_cases he : block = .nil
      · subst he
        have hcopied : (Json.obj (copyProperty .strict source key strict).value).DistinctNames :=
          distinctNames_copyProperty hs hd
        rw [projectInto_nested_nil, projectInto_nested_nil, projectInto_leaf, projectInto_leaf]
        exact ihr hs (distinctNames_settle hcopied)
          (h.copyProperty.settle (Json.distinctNames_obj_iff.mp hcopied).1)
      · have hentered : (Json.obj (enterProperty .strict source key (block.project .strict)
            block.fill strict).value).DistinctNames :=
          distinctNames_enterProperty (distinctNames_projectInto .strict block)
            block.distinctNames_fill hs hd
        have hwritten : AddsMarkers
            (some (.obj (enterProperty .strict source key (block.project .strict) block.fill strict).value))
            (some (.obj (enterProperty .absent source key (block.project .absent) block.fill absent).value)) :=
          h.enterProperty fun members ho => ihb (hs.property ho) (hd.childOf key.output)
            (h.member key.output).children
        rw [projectInto_nested .strict key he, projectInto_nested .absent key he]
        exact ihr hs (distinctNames_settle hentered)
          (hwritten.settle (Json.distinctNames_obj_iff.mp hentered).1)

/-! ## A schema -/

namespace Schema

theorem addsMarkers_projectTrees {source : Json} (hs : source.DistinctNames) (trees : List Tree)
    {strict absent : Object} (hd : (Json.obj strict).DistinctNames)
    (h : AddsMarkers (some (.obj strict)) (some (.obj absent))) :
    AddsMarkers (some (.obj (projectTrees .strict source trees strict).value))
      (some (.obj (projectTrees .absent source trees absent).value)) := by
  induction trees generalizing strict absent with
  | nil => exact h
  | cons tree rest ih =>
      exact ih (tree.distinctNames_projectInto .strict hs hd) (tree.addsMarkers_projectInto hs hd h)

/-- With a tree the value of a projection is made of the accumulator at the end. -/
theorem value_apply_eq_result {schema : Schema} (h : ¬schema.isEmpty) (mode : Mode) (source : Json) :
    (schema.apply mode source).value =
      result mode (projectTrees mode source schema.trees []).value := by
  simp only [apply, if_neg h, fold, Logged.value_bind, Logged.value_pure]

/-- **Absent mode adds nothing but markers**: what the result with markers holds at a path, and is neither an
object nor `null`, the strict result holds at the same path. -/
theorem addsMarkers_apply (schema : Schema) {source : Json} (hs : source.DistinctNames) :
    AddsMarkers (some (schema.apply .strict source).value) (some (schema.apply .absent source).value) := by
  by_cases hempty : schema.isEmpty
  · rw [apply, apply, if_pos hempty, if_pos hempty]
    exact .refl _
  · have hrun := addsMarkers_projectTrees hs schema.trees Json.distinctNames_emptyObject
      (.refl (some (.obj [])))
    rw [value_apply_eq_result hempty, value_apply_eq_result hempty]
    -- an accumulator without members is given back as a marker
    generalize (projectTrees .absent source schema.trees []).value = absent at hrun
    cases absent with
    | nil => exact .marker _
    | cons member rest => exact hrun

end Schema

end JsonProjection
