/-
# `JsonProjection.Proofs.Projection.Grouping` -- projecting through arguments, however they are grouped.

Arguments go through three checks, each over all of them before the next one starts: whether every leaf is a
string, whether every one of these compiles, and then nothing can fail any more.  So a leaf that is no string is
refused before any fragment is looked at, and otherwise the first fragment that does not compile is.

What is computed at the end is `fold` and not the `apply` of a direct call.  The two are the same where there is a
fragment (`projectArguments_eq_project`); arguments that hold none select nothing, where a direct call without
fragments returns the source.
-/
import JsonProjection.Proofs.Projection.Leaves

namespace JsonProjection.Projection

variable {mode : Mode} {source : Json} {arguments : List Json} {fragments : List String}

/-! ## Compiling the fragments -/

/-- **The first fragment that is refused**: those before it compile, and it does not, with that error. -/
def FirstRefused (fragments : List String) (error : SyntaxError) : Prop :=
  ∃ before fragment after, fragments = before ++ fragment :: after ∧
    (∀ earlier ∈ before, ∃ tree, Tree.compile earlier = .ok tree) ∧ Tree.compile fragment = .error error

/-- Fragments that compile to no schema have a first one that is refused, and it is the error. -/
theorem compileSchema_eq_error_iff {error : Error} :
    compileSchema fragments = .error error ↔
      ∃ refused, FirstRefused fragments refused ∧ error = .fragment refused := by
  simp only [FirstRefused, ← Schema.value_compile_eq_error_iff]
  unfold compileSchema
  cases (Schema.compile fragments).value <;> simp [eq_comm]

/-- A schema is compiled exactly when each fragment is. -/
theorem exists_compileSchema_iff :
    (∃ schema, compileSchema fragments = .ok schema) ↔
      ∀ fragment ∈ fragments, ∃ tree, Tree.compile fragment = .ok tree := by
  simp only [compileSchema_eq_ok_iff, Schema.exists_schema_iff]

/-- Where one fragment does not compile, there is a first one. -/
theorem exists_firstRefused (h : ∃ fragment ∈ fragments, ∀ tree, Tree.compile fragment ≠ .ok tree) :
    ∃ refused, FirstRefused fragments refused ∧ compileSchema fragments = .error (.fragment refused) := by
  obtain ⟨fragment, hmem, hfragment⟩ := h
  cases hschema : compileSchema fragments with
  | ok schema =>
      obtain ⟨tree, htree⟩ := exists_compileSchema_iff.mp ⟨schema, hschema⟩ fragment hmem
      exact absurd htree (hfragment tree)
  | error error =>
      obtain ⟨refused, hfirst, rfl⟩ := compileSchema_eq_error_iff.mp hschema
      exact ⟨refused, hfirst, rfl⟩

/-! ## From the arguments to the fragments -/

/-- Arguments that do not flatten are refused for it. -/
theorem projectArguments_of_flatten_eq_error {error : ArgumentError} (hne : arguments ≠ [])
    (h : Arguments.flatten arguments = .error error) :
    projectArguments mode source arguments = .error (.argument error) := by
  rw [projectArguments, if_neg (mt List.isEmpty_iff.mp hne), h]

/-- **Arguments that flatten** to fragments fold the schema of these. -/
theorem projectArguments_eq_map_fold (hne : arguments ≠ [])
    (h : Arguments.flatten arguments = .ok fragments) :
    projectArguments mode source arguments =
      (compileSchema fragments).map fun schema => (schema.fold mode source).value := by
  rw [projectArguments, if_neg (mt List.isEmpty_iff.mp hne), h]
  rfl

/-- What is asked of arguments, once there is one, is what they flatten to. -/
theorem projectArguments_congr {other : List Json} (hne : arguments ≠ []) (hother : other ≠ [])
    (h : Arguments.flatten other = Arguments.flatten arguments) :
    projectArguments mode source other = projectArguments mode source arguments := by
  cases hflatten : Arguments.flatten arguments with
  | error error =>
      rw [projectArguments_of_flatten_eq_error hne hflatten,
        projectArguments_of_flatten_eq_error hother (h.trans hflatten)]
  | ok fragments =>
      rw [projectArguments_eq_map_fold hne hflatten, projectArguments_eq_map_fold hother (h.trans hflatten)]

/-- **With a fragment** the arguments project the source as a direct call does, errors included. -/
theorem projectArguments_eq_project (hne : arguments ≠ [])
    (h : Arguments.flatten arguments = .ok fragments) (hfragments : fragments ≠ []) :
    projectArguments mode source arguments = project mode source fragments := by
  rw [projectArguments_eq_map_fold hne h, project]
  cases hschema : compileSchema fragments with
  | error error => rfl
  | ok schema =>
      have hfold := Schema.apply_eq_fold (trees_ne_nil_of_compileSchema hfragments hschema) mode source
      exact congrArg (fun logged : Log.Logged Json => Except.ok logged.value) hfold.symm

/-- **Without a fragment** the arguments select nothing. -/
theorem projectArguments_eq_result (hne : arguments ≠ []) (h : Arguments.flatten arguments = .ok []) :
    projectArguments mode source arguments = .ok (Schema.result mode []) :=
  (projectArguments_eq_map_fold hne h).trans rfl

/-! ## All arguments -/

/-- **Grouping does not matter, and errors have an order.**  Let there be an argument.  If a leaf is no string, the
arguments are refused as such, whatever the strings are.  If the leaves are strings and one of them does not
compile, the error is that of the first which does not.  If all of them compile, the value is that of a direct call
with the leaves, and without any leaf the object without members or, in absent mode, `null`.  So arguments with
the same leaves have the same outcome, errors included. -/
theorem projectArguments_grouped (mode : Mode) (source : Json) (hne : arguments ≠ []) :
    (∀ leaf ∈ Arguments.leaves arguments, (∀ fragment, leaf ≠ .str fragment) →
      ∃ error, projectArguments mode source arguments = .error (.argument error)) ∧
    (∀ fragments, Arguments.leaves arguments = fragments.map .str →
      ((∃ fragment ∈ fragments, ∀ tree, Tree.compile fragment ≠ .ok tree) →
        ∃ error, FirstRefused fragments error ∧
          projectArguments mode source arguments = .error (.fragment error)) ∧
      ((∀ fragment ∈ fragments, ∃ tree, Tree.compile fragment = .ok tree) →
        ∃ value, projectArguments mode source arguments = .ok value ∧
          (fragments ≠ [] → project mode source fragments = .ok value) ∧
          (fragments = [] → mode = .strict → value = .obj []) ∧
          (fragments = [] → mode = .absent → value = .null))) ∧
    ∀ other, other ≠ [] → Arguments.leaves other = Arguments.leaves arguments →
      projectArguments mode source other = projectArguments mode source arguments := by
  refine ⟨?_, ?_, ?_⟩
  · intro leaf hmem hleaf
    obtain ⟨error, hflatten⟩ := Arguments.exists_flatten_eq_error hmem hleaf
    exact ⟨error, projectArguments_of_flatten_eq_error hne hflatten⟩
  · intro fragments hleaves
    have hflatten := Arguments.flatten_eq_ok_iff.mpr hleaves
    have hfold : projectArguments mode source arguments =
        (compileSchema fragments).map fun schema => (schema.fold mode source).value :=
      projectArguments_eq_map_fold hne hflatten
    constructor
    · intro hmalformed
      obtain ⟨refused, hfirst, hschema⟩ := exists_firstRefused hmalformed
      rw [hschema] at hfold
      exact ⟨refused, hfirst, hfold⟩
    · intro hcompile
      obtain ⟨schema, hschema⟩ := exists_compileSchema_iff.mpr hcompile
      rw [hschema] at hfold
      refine ⟨(schema.fold mode source).value, hfold, ?_, ?_, ?_⟩
      · intro hfragments
        exact (projectArguments_eq_project hne hflatten hfragments).symm.trans hfold
      · rintro rfl rfl
        exact Except.ok.inj (hfold.symm.trans (projectArguments_eq_result hne hflatten))
      · rintro rfl rfl
        exact Except.ok.inj (hfold.symm.trans (projectArguments_eq_result hne hflatten))
  · intro other hother hleaves
    have hflatten : Arguments.flatten other = Arguments.flatten arguments := by
      rw [← Arguments.flatten_leaves, hleaves, Arguments.flatten_leaves]
    exact projectArguments_congr hne hother hflatten

/-- Arguments in arrays, some of them empty: two fragments; a boolean behind a fragment that does not compile; a
fragment that compiles before two that do not; and no fragment. -/
theorem projectArguments_grouped_nested :
    let source : Json := .obj [("a", .bool true), ("b", .null)]
    let grouped : List Json := [.arr [.str "b->c", .arr []], .arr [.arr [.str "a"]]]
    let flagged : List Json := [.str "a:", .arr [.arr [.bool false]]]
    let malformed : List Json := [.arr [.str "a"], .arr [.str "a:", .str "->"]]
    (grouped ≠ [] ∧ flagged ≠ [] ∧ malformed ≠ [] ∧ [Json.arr [.arr []]] ≠ []) ∧
      projectArguments .strict source grouped = .ok (.obj [("c", .null), ("a", .bool true)]) ∧
      projectArguments .strict source [.str "b->c", .str "a"] = projectArguments .strict source grouped ∧
      (∃ error, projectArguments .strict source flagged = .error (.argument error)) ∧
      (∃ error, FirstRefused ["a", "a:", "->"] error ∧
        projectArguments .strict source malformed = .error (.fragment error)) ∧
      projectArguments .absent source [.arr [.arr []]] = .ok .null := by
  intro source grouped flagged malformed
  have hgrouped : grouped ≠ [] := List.cons_ne_nil _ _
  have hflagged : flagged ≠ [] := List.cons_ne_nil _ _
  have hmalformed : malformed ≠ [] := List.cons_ne_nil _ _
  have hhollow : [Json.arr [.arr []]] ≠ [] := List.cons_ne_nil _ _
  have hb : Tree.compile "b->c" = .ok (.leaf ⟨"b", some "c"⟩ .nil) := rfl
  have ha : Tree.compile "a" = .ok (.leaf ⟨"a", none⟩ .nil) := rfl
  have hcolon : Tree.compile "a:" = .error ⟨2, .expectedBlock none⟩ := rfl
  refine ⟨⟨hgrouped, hflagged, hmalformed, hhollow⟩, ?_, ?_, ?_, ?_, ?_⟩
  · have hproject : project .strict source ["b->c", "a"] = .ok (.obj [("c", .null), ("a", .bool true)]) := rfl
    obtain ⟨value, hvalue, hsame, -⟩ :=
      ((projectArguments_grouped .strict source hgrouped).2.1 ["b->c", "a"] rfl).2
        (List.forall_mem_cons.mpr ⟨⟨_, hb⟩, List.forall_mem_singleton.mpr ⟨_, ha⟩⟩)
    exact hvalue.trans ((hsame (List.cons_ne_nil _ _)).symm.trans hproject)
  · exact (projectArguments_grouped .strict source hgrouped).2.2 [.str "b->c", .str "a"] (List.cons_ne_nil _ _) rfl
  · exact (projectArguments_grouped .strict source hflagged).1 (.bool false)
      (List.mem_cons_of_mem _ List.mem_cons_self) fun fragment => Json.noConfusion
  · refine ((projectArguments_grouped .strict source hmalformed).2.1 ["a", "a:", "->"] rfl).1
      ⟨"a:", List.mem_cons_of_mem _ List.mem_cons_self, fun tree htree => ?_⟩
    cases hcolon.symm.trans htree
  · obtain ⟨value, hvalue, -, -, hnull⟩ :=
      ((projectArguments_grouped .absent source hhollow).2.1 [] rfl).2 (List.forall_mem_nil _)
    rw [hvalue, hnull rfl rfl]

end JsonProjection.Projection
