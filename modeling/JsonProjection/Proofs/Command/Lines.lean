/-
# `JsonProjection.Proofs.Command.Lines` -- command lines that ask for `project`.

The options of `project` are collected from the arguments of a command line (`ProjectOptions.ofArguments`).  Among
the fragments of one kind their order counts; otherwise it does not matter how the arguments are mixed.  A command
line asks for `project` exactly when its words spell arguments that can stand together (`ofWords_eq_project_iff`).
-/
import JsonProjection.Proofs.Command.Arguments
import Mathlib.Data.List.Induction

namespace JsonProjection.Command

/-! ## Arguments that can stand together -/

namespace Argument

theorem option?_eq_some_flag_iff {argument : Argument} {f : Flag} :
    argument.option? = some (.flag f) ↔ argument = .flag f := by
  cases argument with
  | fragment text => simp [option?]
  | flag other => simp [option?]
  | setting s value => cases s <;> simp [option?]

theorem option?_eq_some_setting_iff {argument : Argument} {s : Setting} (h : s ≠ .schema) :
    argument.option? = some (.setting s) ↔ ∃ value, argument.value? s = some value := by
  cases argument with
  | fragment text => simp [option?, value?]
  | flag other => simp [option?, value?]
  | setting other value => cases other <;> cases s <;> simp_all [option?, value?]

end Argument

section Collected

variable {arguments : List Argument}

theorem Argument.flag_mem_options_iff {f : Flag} :
    .flag f ∈ arguments.filterMap Argument.option? ↔ .flag f ∈ arguments := by
  simp only [List.mem_filterMap, Argument.option?_eq_some_flag_iff, exists_eq_right]

theorem Argument.setting_not_mem_options_iff {s : Setting} (h : s ≠ .schema) :
    .setting s ∉ arguments.filterMap Argument.option? ↔
      arguments.findSome? (Argument.value? s) = none := by
  simp only [List.mem_filterMap, Argument.option?_eq_some_setting_iff h, List.findSome?_eq_none_iff,
    ← Option.ne_none_iff_exists', not_exists, not_and, not_not, ne_eq]

end Collected

/-- **Arguments that can stand together**: none asks for help, and no option is taken up twice. -/
def Compatible (arguments : List Argument) : Prop :=
  .flag .help ∉ arguments ∧ (arguments.filterMap Argument.option?).Nodup

instance (arguments : List Argument) : Decidable (Compatible arguments) :=
  inferInstanceAs (Decidable (_ ∧ _))

theorem compatible_concat_iff {arguments : List Argument} {argument : Argument} :
    Compatible (arguments ++ [argument]) ↔ Compatible arguments ∧ argument ≠ .flag .help ∧
      ∀ option, argument.option? = some option → option ∉ arguments.filterMap Argument.option? := by
  have hnodup : ((arguments ++ [argument]).filterMap Argument.option?).Nodup ↔
      (arguments.filterMap Argument.option?).Nodup ∧
        ∀ option, argument.option? = some option → option ∉ arguments.filterMap Argument.option? := by
    rw [List.filterMap_append]
    cases hoption : argument.option? with
    | none => simp [hoption]
    | some option =>
        rw [List.filterMap_cons_some hoption, List.perm_append_comm.nodup_iff]
        simp only [List.filterMap_nil, List.singleton_append, List.nodup_cons, Option.some.injEq,
          forall_eq', and_comm]
  have hhelp : .flag .help ∉ arguments ++ [argument] ↔
      .flag .help ∉ arguments ∧ argument ≠ .flag .help := by
    rw [List.mem_append, List.mem_singleton, not_or, eq_comm]
  rw [Compatible, Compatible, hnodup, hhelp]
  tauto

/-- The options of `project` that some arguments give. -/
def ProjectOptions.ofArguments (arguments : List Argument) : ProjectOptions where
  fragments := arguments.filterMap Argument.fragment?
  schemas := arguments.filterMap (Argument.value? .schema)
  fragmentsJson := arguments.findSome? (Argument.value? .fragmentsJson)
  input := arguments.findSome? (Argument.value? .input)
  output := arguments.findSome? (Argument.value? .output)
  absent := decide (.flag .absent ∈ arguments)
  pretty := decide (.flag .pretty ∈ arguments)

namespace Draft

variable {kind : Kind} {draft next : Draft}

/-! ### Collecting -/

/-- Whether a further argument can be taken. -/
def Admits (draft : Draft) : Argument → Prop
  | .fragment _ => True
  | .flag .verbose => draft.verbose = false
  | .flag .help => False
  | .flag .absent => draft.absent = false
  | .flag .pretty => draft.pretty = false
  | .setting .schema _ => True
  | .setting .fragmentsJson _ => draft.fragmentsJson = none
  | .setting .input _ => draft.input = none
  | .setting .output _ => draft.output = none

/-- The draft with a further argument. -/
def add (draft : Draft) : Argument → Draft
  | .fragment text => draft.addFragment text
  | .flag .verbose => { draft with verbose := true }
  | .flag .help => draft
  | .flag .absent => { draft with absent := true }
  | .flag .pretty => { draft with pretty := true }
  | .setting .schema value => { draft with schemas := value :: draft.schemas }
  | .setting .fragmentsJson value => { draft with fragmentsJson := some value }
  | .setting .input value => { draft with input := some value }
  | .setting .output value => { draft with output := some value }

theorem ite_error_eq_ok_iff {p : Prop} [Decidable p] {stop : Stop} :
    (if p then .error stop else .ok draft : Except Stop Draft) = .ok next ↔ ¬p ∧ draft = next := by
  split <;> simp [*]

theorem take_eq_ok_iff {argument : Argument} :
    draft.take argument = .ok next ↔ draft.Admits argument ∧ draft.add argument = next := by
  cases argument with
  | fragment text => simp [take, Admits, add]
  | flag f => cases f <;> simp [take, setFlag, Admits, add, ite_error_eq_ok_iff]
  | setting s value => cases s <;> simp [take, setValue, Admits, add, ite_error_eq_ok_iff]

/-- The draft that some arguments give. -/
def ofArguments (arguments : List Argument) : Draft where
  fragments := (arguments.filterMap Argument.fragment?).reverse
  schemas := (arguments.filterMap (Argument.value? .schema)).reverse
  fragmentsJson := arguments.findSome? (Argument.value? .fragmentsJson)
  input := arguments.findSome? (Argument.value? .input)
  output := arguments.findSome? (Argument.value? .output)
  absent := decide (.flag .absent ∈ arguments)
  pretty := decide (.flag .pretty ∈ arguments)
  verbose := decide (.flag .verbose ∈ arguments)

theorem projectOptions_ofArguments (arguments : List Argument) :
    (ofArguments arguments).projectOptions = .ofArguments arguments := by
  simp only [projectOptions, ofArguments, ProjectOptions.ofArguments, List.reverse_reverse]

variable {arguments : List Argument} {argument : Argument}

theorem admits_ofArguments_iff (h : Compatible arguments) :
    (ofArguments arguments).Admits argument ↔ Compatible (arguments ++ [argument]) := by
  rw [compatible_concat_iff, and_iff_right h]
  cases argument with
  | fragment text => simp [Admits, Argument.option?]
  | flag f =>
      simp only [Argument.option?, Option.some.injEq, forall_eq', Argument.flag_mem_options_iff]
      cases f <;> simp [Admits, ofArguments]
  | setting s value =>
      cases s with
      | schema => simp [Admits, Argument.option?]
      | fragmentsJson | input | output =>
          simp only [Argument.option?, Option.some.injEq, forall_eq', ne_eq, reduceCtorEq,
            not_false_eq_true, Argument.setting_not_mem_options_iff, true_and]
          rfl

theorem ofArguments_concat (arguments : List Argument) (argument : Argument) :
    ofArguments (arguments ++ [argument]) =
      { fragments := argument.fragment?.toList ++ (ofArguments arguments).fragments
        schemas := (argument.value? .schema).toList ++ (ofArguments arguments).schemas
        fragmentsJson := (ofArguments arguments).fragmentsJson.or (argument.value? .fragmentsJson)
        input := (ofArguments arguments).input.or (argument.value? .input)
        output := (ofArguments arguments).output.or (argument.value? .output)
        absent := (ofArguments arguments).absent || decide (argument = .flag .absent)
        pretty := (ofArguments arguments).pretty || decide (argument = .flag .pretty)
        verbose := (ofArguments arguments).verbose || decide (argument = .flag .verbose) } := by
  have hfilter : ∀ f : Argument → Option String,
      ([argument].filterMap f).reverse = (f argument).toList := by
    intro f
    cases h : f argument <;> simp [h]
  simp only [ofArguments, List.filterMap_append, List.reverse_append, hfilter, List.findSome?_append,
    List.findSome?_singleton, List.mem_append, List.mem_singleton, Bool.decide_or, eq_comm]

theorem add_ofArguments (h : (ofArguments arguments).Admits argument) :
    (ofArguments arguments).add argument = ofArguments (arguments ++ [argument]) := by
  rw [ofArguments_concat]
  generalize ofArguments arguments = draft at h
  cases argument with
  | fragment text => simp [add, addFragment, Argument.fragment?, Argument.value?]
  | flag f => cases f <;> simp_all [add, Admits, Argument.fragment?, Argument.value?]
  | setting s value => cases s <;> simp_all [add, Admits, Argument.fragment?, Argument.value?]

/-- **Arguments are taken** when they can stand together, and the draft is the one that they give. -/
theorem takeAll_empty_eq_ok_iff :
    empty.takeAll arguments = .ok next ↔ Compatible arguments ∧ ofArguments arguments = next := by
  induction arguments using List.reverseRecOn generalizing next with
  | nil =>
      have hnil : Compatible [] := by decide
      show Except.ok (ofArguments []) = _ ↔ _
      rw [and_iff_right hnil, Except.ok.injEq]
  | append_singleton arguments argument ih =>
      rw [takeAll_append_eq_ok_iff]
      simp only [ih, takeAll_singleton, take_eq_ok_iff]
      constructor
      · rintro ⟨_, ⟨hcompatible, rfl⟩, hadmits, rfl⟩
        exact ⟨(admits_ofArguments_iff hcompatible).mp hadmits, (add_ofArguments hadmits).symm⟩
      · rintro ⟨hcompatible, rfl⟩
        have hbefore := (compatible_concat_iff.mp hcompatible).1
        have hadmits := (admits_ofArguments_iff hbefore).mpr hcompatible
        exact ⟨_, ⟨hbefore, rfl⟩, hadmits, add_ofArguments hadmits⟩

/-- **The words of a command** from the start. -/
theorem takeWords_empty_eq_ok_iff {words : List String} :
    takeWords kind empty none words = .ok next ↔
      ∃ arguments, Spells kind none words arguments ∧ Compatible arguments ∧
        ofArguments arguments = next := by
  simp only [takeWords_eq_ok_iff, takeAll_empty_eq_ok_iff]

end Draft

/-! ## Command lines of `project` -/

/-- The words that may stand before the name of the command. -/
def preludes : List (List String) := [[], ["-v"], ["--verbose"]]

section Lines

variable {words : List String} {options : ProjectOptions} {verbose wish : Bool}

/-- Only the command `project` can be asked for so, and its words give the options. -/
theorem ofCommand_eq_project_iff {kind : Kind} :
    Request.ofCommand kind wish words = .ok (.project options verbose) ↔
      kind = .project ∧ ∃ arguments, Spells .project none words arguments ∧ Compatible arguments ∧
        .ofArguments arguments = options ∧
        (wish || decide (.flag .verbose ∈ arguments)) = verbose := by
  have hdraft : Request.ofCommand kind wish words = .ok (.project options verbose) ↔
      kind = .project ∧ ∃ draft, Draft.takeWords .project .empty none words = .ok draft ∧
        draft.projectOptions = options ∧ (wish || draft.verbose) = verbose := by
    unfold Request.ofCommand
    cases kind with
    | check =>
        cases Draft.takeWords .check .empty none words with
        | error stop => cases stop <;> simp
        | ok draft => by_cases h : draft.fragments.isEmpty <;> simp [h]
    | project =>
        cases Draft.takeWords .project .empty none words with
        | error stop => cases stop <;> simp
        | ok draft => simp
  simp only [hdraft, Draft.takeWords_empty_eq_ok_iff]
  constructor
  · rintro ⟨rfl, _, ⟨arguments, hspells, hcompatible, rfl⟩, rfl, rfl⟩
    exact ⟨rfl, arguments, hspells, hcompatible, (Draft.projectOptions_ofArguments arguments).symm, rfl⟩
  · rintro ⟨rfl, arguments, hspells, hcompatible, rfl, rfl⟩
    exact ⟨rfl, _, ⟨arguments, hspells, hcompatible, rfl⟩, Draft.projectOptions_ofArguments arguments, rfl⟩

/-! ### The words before the command -/

/-- Letters before the command can lead on to the command only by a single wish for more records. -/
theorem takeGlobalLetters_cases {letters : List Char} {taken : Bool ⊕ Request}
    (h : takeGlobalLetters wish letters = .ok taken) :
    taken = .inr .version ∨ taken = .inr .help ∨ letters = [] ∧ taken = .inl wish ∨
      letters = ['v'] ∧ wish = false ∧ taken = .inl true := by
  induction letters generalizing wish with
  | nil =>
      cases h
      exact .inr (.inr (.inl ⟨rfl, rfl⟩))
  | cons letter rest ih =>
      rw [takeGlobalLetters] at h
      by_cases hletter : letter = 'v'
      · subst hletter
        cases wish with
        | true => cases h
        | false =>
            obtain htaken | htaken | ⟨rfl, htaken⟩ | ⟨-, htaken, -⟩ := ih h
            · exact .inl htaken
            · exact .inr (.inl htaken)
            · exact .inr (.inr (.inr ⟨rfl, rfl, htaken⟩))
            · cases htaken
      · rw [if_neg hletter] at h
        split_ifs at h <;> cases h
        · exact .inl rfl
        · exact .inr (.inl rfl)

/-- So can a long option. -/
theorem takeGlobalLong_cases {name : String} {value : Option String} {taken : Bool ⊕ Request}
    (h : takeGlobalLong wish name value = .ok taken) :
    taken = .inr .version ∨ taken = .inr .help ∨
      name = "verbose" ∧ value = none ∧ wish = false ∧ taken = .inl true := by
  unfold takeGlobalLong at h
  simp only at h
  split_ifs at h with hknown hvalue hversion hhelp hwish <;> cases h
  · exact .inl rfl
  · exact .inr (.inl rfl)
  · have hname : name = "verbose" := by tauto
    exact .inr (.inr ⟨hname, Option.not_isSome_iff_eq_none.mp hvalue, Bool.eq_false_iff.mpr hwish, rfl⟩)

theorem eq_project_of_ofName? {name : String} (h : Kind.ofName? name = some .project) :
    name = "project" := by
  unfold Kind.ofName? at h
  split_ifs at h with hname
  · exact hname
  · cases h

theorem eq_help_of_helpTopics {topics : List String} {request : Request}
    (h : helpTopics topics = .ok request) : request = .help := by
  unfold helpTopics at h
  split at h
  · cases h
    rfl
  · split_ifs at h
    cases h
    rfl
  · cases h

section First

variable {word : String} {rest : List String}

/-- **The first word** of a command line that asks for `project` is that name or the wish for more records. -/
theorem first_word_of_ofWordsFrom
    (h : Request.ofWordsFrom wish (word :: rest) = .ok (.project options verbose)) :
    (word = "project" ∧ Request.ofCommand .project wish rest = .ok (.project options verbose)) ∨
      wish = false ∧ (word = "-v" ∨ word = "--verbose") ∧
        Request.ofWordsFrom true rest = .ok (.project options verbose) := by
  rw [Request.ofWordsFrom] at h
  cases hword : Word.ofString word with
  | separator =>
      simp only [hword] at h
      cases h
  | long name value =>
      simp only [hword] at h
      cases htaken : takeGlobalLong wish name value with
      | error error =>
          rw [htaken] at h
          cases h
      | ok taken =>
          rw [htaken] at h
          obtain rfl | rfl | ⟨rfl, rfl, rfl, rfl⟩ := takeGlobalLong_cases htaken
          · cases h
          · cases h
          · exact .inr ⟨rfl, .inr (eq_of_ofString hword), h⟩
  | letters letters =>
      simp only [hword] at h
      cases htaken : takeGlobalLetters wish letters with
      | error error =>
          rw [htaken] at h
          cases h
      | ok taken =>
          rw [htaken] at h
          obtain rfl | rfl | ⟨rfl, -⟩ | ⟨rfl, rfl, rfl⟩ := takeGlobalLetters_cases htaken
          · cases h
          · cases h
          · -- a lone minus sign is a plain word
            obtain rfl : word = "-" := eq_of_ofString hword
            exact absurd hword (by decide)
          · exact .inr ⟨rfl, .inl (eq_of_ofString hword), h⟩
  | plain text =>
      have htext : word = text := (eq_of_ofString hword).trans String.ofList_toList
      simp only [hword] at h
      cases hkind : Kind.ofName? text with
      | some kind =>
          simp only [hkind] at h
          obtain ⟨rfl, -⟩ := ofCommand_eq_project_iff.mp h
          exact .inl ⟨htext.trans (eq_project_of_ofName? hkind), h⟩
      | none =>
          simp only [hkind] at h
          split_ifs at h
          cases eq_help_of_helpTopics h

end First

/-- **A command line asks for `project`** when its words, after the name of the command, spell arguments that can
stand together; the options are those that the arguments give, in whatever order they stand. -/
theorem ofWords_eq_project_iff :
    Request.ofWords words = .ok (.project options verbose) ↔
      ∃ before ∈ preludes, ∃ rest arguments, words = before ++ "project" :: rest ∧
        Spells .project none rest arguments ∧ Compatible arguments ∧
        .ofArguments arguments = options ∧
        (decide (before ≠ []) || decide (.flag .verbose ∈ arguments)) = verbose := by
  constructor
  · intro h
    cases words with
    | nil => cases h
    | cons word rest =>
        obtain ⟨rfl, hcommand⟩ | ⟨-, hword, hrest⟩ := first_word_of_ofWordsFrom h
        · obtain ⟨-, arguments, hspells⟩ := ofCommand_eq_project_iff.mp hcommand
          exact ⟨[], by simp [preludes], rest, arguments, rfl, hspells⟩
        · cases rest with
          | nil => cases hrest
          | cons second rest =>
              obtain ⟨rfl, hcommand⟩ | ⟨htrue, -⟩ := first_word_of_ofWordsFrom hrest
              · obtain ⟨-, arguments, hspells⟩ := ofCommand_eq_project_iff.mp hcommand
                refine ⟨[word], ?_, rest, arguments, rfl, hspells⟩
                obtain rfl | rfl := hword <;> simp [preludes]
              · cases htrue
  · rintro ⟨before, hbefore, rest, arguments, rfl, hspells⟩
    have hcommand := ofCommand_eq_project_iff.mpr ⟨rfl, arguments, hspells⟩
    simp only [preludes, List.mem_cons, List.not_mem_nil, or_false] at hbefore
    obtain rfl | rfl | rfl := hbefore
    · exact hcommand
    · exact hcommand
    · exact hcommand

end Lines

end JsonProjection.Command
