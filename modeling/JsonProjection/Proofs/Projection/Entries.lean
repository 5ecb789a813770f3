/-
# `JsonProjection.Proofs.Projection.Entries` -- when the ways in succeed.

Each way into the library succeeds exactly when each of its steps does: the arguments flatten, the fragments
compile, the texts are JSON.  The lemmas of this module say so for one way after the other, in terms of the values
that the steps give, so that two ways are compared by their steps and no caller opens a definition.

The ways differ in one thing more.  With fragments `apply` and `fold` are the same; without, `apply` returns the
source and `fold` selects nothing.
-/
import JsonProjection.Projection.Entry

namespace JsonProjection

/-! ## Arguments -/

namespace Arguments

/-- One array of arguments is the arguments. -/
theorem flatten_arr (items : List Json) : flatten [.arr items] = flatten items := by
  show flattenItems 0 [.arr items] = flattenItems 0 items
  rw [flattenItems, flattenItem]
  cases flattenItems 0 items with
  | error error => rfl
  | ok fragments => exact congrArg Except.ok (List.append_nil fragments)

theorem flattenItems_str (index : Nat) (fragments : List String) :
    flattenItems index (fragments.map .str) = .ok fragments := by
  induction fragments generalizing index with
  | nil => rfl
  | cons fragment rest ih =>
      have hrest := ih (index + 1)
      rw [List.map_cons, flattenItems, flattenItem]
      simp only [List.length_singleton, hrest, List.singleton_append]

/-- Strings are the fragments that they are. -/
theorem flatten_str (fragments : List String) : flatten (fragments.map .str) = .ok fragments :=
  flattenItems_str 0 fragments

end Arguments

/-! ## Schemas -/

namespace Schema

/-- The first fragment that is refused refuses all. -/
theorem value_compileTrees_cons (fragment : String) (rest : List String) :
    (compileTrees (fragment :: rest)).value =
      (Tree.compile fragment).bind fun tree => (compileTrees rest).value.map (tree :: ·) := by
  rw [compileTrees]
  cases Tree.compile fragment <;> rfl

/-- **The trees of the fragments**, one for each of them. -/
theorem value_compileTrees_eq_ok_iff {fragments : List String} {trees : List Tree} :
    (compileTrees fragments).value = .ok trees ↔
      fragments.map Tree.compile = trees.map Except.ok := by
  induction fragments generalizing trees with
  | nil => cases trees <;> simp [compileTrees]
  | cons fragment rest ih =>
      rw [value_compileTrees_cons, List.map_cons]
      cases hfragment : Tree.compile fragment with
      | error error => cases trees <;> simp [Except.bind]
      | ok tree =>
          cases trees with
          | nil => cases hrest : (compileTrees rest).value <;> simp [Except.bind, Except.map]
          | cons first more =>
              have hmore := @ih more
              cases hrest : (compileTrees rest).value with
              | error error =>
                  rw [hrest] at hmore
                  simp [Except.bind, Except.map, ← hmore]
              | ok found =>
                  rw [hrest] at hmore
                  simp [Except.bind, Except.map, ← hmore]

/-- **The first fragment that does not compile** gives the error. -/
theorem value_compileTrees_eq_error_iff {fragments : List String} {error : SyntaxError} :
    (compileTrees fragments).value = .error error ↔
      ∃ before fragment after, fragments = before ++ fragment :: after ∧
        (∀ earlier ∈ before, ∃ tree, Tree.compile earlier = .ok tree) ∧
        Tree.compile fragment = .error error := by
  induction fragments with
  | nil => simp [compileTrees]
  | cons fragment rest ih =>
      rw [value_compileTrees_cons]
      cases hfragment : Tree.compile fragment with
      | error found =>
          constructor
          · rintro ⟨⟩
            exact ⟨[], fragment, rest, rfl, nofun, hfragment⟩
          · rintro ⟨before, refused, after, hsplit, hbefore, hrefused⟩
            cases before with
            | nil =>
                cases hsplit
                cases hfragment.symm.trans hrefused
                rfl
            | cons first before =>
                cases hsplit
                obtain ⟨tree, htree⟩ := hbefore fragment List.mem_cons_self
                cases hfragment.symm.trans htree
      | ok tree =>
          have hrest : ((Except.ok tree).bind fun tree => (compileTrees rest).value.map (tree :: ·)) =
              .error error ↔ (compileTrees rest).value = .error error := by
            cases (compileTrees rest).value <;> simp [Except.bind, Except.map]
          rw [hrest, ih]
          constructor
          · rintro ⟨before, refused, after, rfl, hbefore, hrefused⟩
            exact ⟨fragment :: before, refused, after, rfl,
              List.forall_mem_cons.mpr ⟨⟨tree, hfragment⟩, hbefore⟩, hrefused⟩
          · rintro ⟨before, refused, after, hsplit, hbefore, hrefused⟩
            cases before with
            | nil =>
                cases hsplit
                cases hfragment.symm.trans hrefused
            | cons first before =>
                cases hsplit
                exact ⟨before, refused, after, rfl, (List.forall_mem_cons.mp hbefore).2, hrefused⟩

/-- **Compiling a schema** gives the trees of the fragments. -/
theorem value_compile_eq_ok_iff {fragments : List String} {schema : Schema} :
    (compile fragments).value = .ok schema ↔
      fragments.map Tree.compile = schema.trees.map Except.ok := by
  unfold compile
  rw [← value_compileTrees_eq_ok_iff, Log.Logged.value_bind]
  cases (compileTrees fragments).value with
  | error error => simp
  | ok trees =>
      obtain ⟨found⟩ := schema
      simp

/-- A schema is refused for the first fragment that does not compile. -/
theorem value_compile_eq_error_iff {fragments : List String} {error : SyntaxError} :
    (compile fragments).value = .error error ↔
      ∃ before fragment after, fragments = before ++ fragment :: after ∧
        (∀ earlier ∈ before, ∃ tree, Tree.compile earlier = .ok tree) ∧
        Tree.compile fragment = .error error := by
  unfold compile
  rw [← value_compileTrees_eq_error_iff, Log.Logged.value_bind]
  cases (compileTrees fragments).value <;> simp

/-- Fragments that compile make a schema. -/
theorem exists_schema_iff {fragments : List String} :
    (∃ schema, (compile fragments).value = .ok schema) ↔
      ∀ fragment ∈ fragments, ∃ tree, Tree.compile fragment = .ok tree := by
  constructor
  · rintro ⟨schema, hschema⟩ fragment hfragment
    have hmem : Tree.compile fragment ∈ schema.trees.map Except.ok :=
      value_compile_eq_ok_iff.mp hschema ▸ List.mem_map_of_mem hfragment
    obtain ⟨tree, -, htree⟩ := List.mem_map.mp hmem
    exact ⟨tree, htree.symm⟩
  · intro h
    cases hschema : (compile fragments).value with
    | ok schema => exact ⟨schema, rfl⟩
    | error error =>
        obtain ⟨before, fragment, after, rfl, -, hrefused⟩ := value_compile_eq_error_iff.mp hschema
        obtain ⟨tree, htree⟩ := h fragment (List.mem_append_right _ List.mem_cons_self)
        cases htree.symm.trans hrefused

/-- There is one tree for each fragment. -/
theorem length_of_compile {fragments : List String} {schema : Schema}
    (h : (compile fragments).value = .ok schema) : schema.trees.length = fragments.length := by
  have hlength := congrArg List.length (value_compile_eq_ok_iff.mp h)
  rw [List.length_map, List.length_map] at hlength
  exact hlength.symm

/-- Where there is a tree, applying is folding. -/
theorem apply_eq_fold {schema : Schema} (h : schema.trees ≠ []) (mode : Mode) (source : Json) :
    schema.apply mode source = schema.fold mode source := by
  have hempty : ¬schema.isEmpty = true := mt List.isEmpty_iff.mp h
  rw [apply, if_neg hempty]

end Schema

/-! ## Ways in -/

namespace Projection

variable {mode : Mode} {text argument out : String} {fragments : List String} {source result : Json}

theorem compileSchema_eq_ok_iff {schema : Schema} :
    compileSchema fragments = .ok schema ↔ (Schema.compile fragments).value = .ok schema := by
  unfold compileSchema
  cases (Schema.compile fragments).value <;> simp

/-- Where there are fragments there are trees. -/
theorem trees_ne_nil_of_compileSchema (hne : fragments ≠ []) {schema : Schema}
    (h : compileSchema fragments = .ok schema) : schema.trees ≠ [] := by
  have hlength := Schema.length_of_compile (compileSchema_eq_ok_iff.mp h)
  intro hnil
  rw [hnil] at hlength
  exact hne (List.eq_nil_of_length_eq_zero hlength.symm)

/-- A text is projected when the fragments compile and the text is JSON. -/
theorem projectText_eq_ok_iff :
    projectText mode text fragments = .ok out ↔
      ∃ schema source, compileSchema fragments = .ok schema ∧ Json.ofText? text = some source ∧
        (schema.apply mode source).value.compact = out := by
  unfold projectText
  cases compileSchema fragments with
  | error error => simp [bind, Except.bind]
  | ok schema => cases Json.ofText? text <;> simp [bind, Except.bind]

/-- An argument is projected through when it flattens and its fragments compile. -/
theorem projectArguments_eq_ok_iff {argument : Json} :
    projectArguments mode source [argument] = .ok result ↔
      ∃ fragments schema, Arguments.flatten [argument] = .ok fragments ∧
        compileSchema fragments = .ok schema ∧ (schema.fold mode source).value = result := by
  unfold projectArguments
  cases Arguments.flatten [argument] with
  | error error => simp
  | ok fragments =>
      cases hschema : compileSchema fragments <;>
        simp [hschema, bind, Except.bind, pure, Except.pure]

/-- Both texts must be JSON. -/
theorem projectCall_eq_ok_iff :
    projectCall mode text argument = .ok out ↔
      ∃ value source result, Json.ofText? argument = some value ∧ Json.ofText? text = some source ∧
        projectArguments mode source [value] = .ok result ∧ result.compact = out := by
  unfold projectCall
  cases Json.ofText? argument with
  | none => simp
  | some value =>
      cases Json.ofText? text with
      | none => simp
      | some source =>
          cases hresult : projectArguments mode source [value] <;> simp [hresult, Except.map]

end Projection

end JsonProjection
