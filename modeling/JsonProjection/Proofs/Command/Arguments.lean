/-
# `JsonProjection.Proofs.Command.Arguments` -- what the words of a command say.

A command is given words, but what they say is a list of arguments: a fragment, a flag, or a setting with its
value.  One word can hold several of them (`-vsname`), and one can take two words (`-s name`); `Spells` tells which
words say which arguments.  Reading the words is reading the arguments one after the other
(`Draft.takeWords_eq_ok_iff`).
-/
import JsonProjection.Command.Options

namespace JsonProjection.Command

/-! ## Arguments -/

/-- One argument of a command. -/
inductive Argument where
  | fragment (text : String)
  | flag (flag : Flag)
  | setting (setting : Setting) (value : String)
  deriving DecidableEq

namespace Argument

/-- The text of a fragment. -/
def fragment? : Argument → Option String
  | .fragment text => some text
  | _ => none

/-- The value that is given to a setting. -/
def value? (setting : Setting) : Argument → Option String
  | .setting other value => if other = setting then some value else none
  | _ => none

/-- The option that an argument takes up: only fragments, `-s` among them, may be repeated. -/
def option? : Argument → Option Opt
  | .fragment _ => none
  | .flag f => some (.flag f)
  | .setting .schema _ => none
  | .setting s _ => some (.setting s)

end Argument

/-! ## Words -/

/-- The characters of a word. -/
def Word.chars : Word → List Char
  | .separator => ['-', '-']
  | .long name none => '-' :: '-' :: name.toList
  | .long name (some value) => '-' :: '-' :: (name.toList ++ '=' :: value.toList)
  | .letters cs => '-' :: cs
  | .plain text => text.toList

theorem Word.chars_ofLong (cs : List Char) : (Word.ofLong cs).chars = '-' :: '-' :: cs := by
  have hparts := List.takeWhile_append_dropWhile (p := (· ≠ '=')) (l := cs)
  unfold Word.ofLong
  split
  case h_1 hvalue =>
    rw [hvalue, List.append_nil] at hparts
    rw [Word.chars, String.toList_ofList, hparts]
  case h_2 c value hvalue =>
    have hc : c = '=' := by
      have := List.head?_dropWhile_not (p := (· ≠ '=')) (l := cs)
      rw [hvalue] at this
      simpa using this
    subst hc
    rw [hvalue] at hparts
    rw [Word.chars, String.toList_ofList, String.toList_ofList, hparts]

/-- **Nothing of a word is lost** when it is told what it is. -/
theorem Word.chars_ofString (word : String) : (Word.ofString word).chars = word.toList := by
  unfold Word.ofString
  split
  case h_1 hword => exact hword.symm
  case h_2 hword => exact (Word.chars_ofLong _).trans hword.symm
  case h_3 hword => rfl
  case h_4 hword => exact hword.symm
  case h_5 => rfl

theorem eq_of_ofString {word : String} {is : Word} (h : Word.ofString word = is) :
    word = String.ofList is.chars := by
  rw [← h, Word.chars_ofString, String.ofList_toList]

/-! ## Words that spell arguments -/

/-- **What one word says**: its arguments, and the setting that takes its value from the next word. -/
inductive Says (kind : Kind) : Word → List Argument → Option Setting → Prop where
  | plain (text : String) : Says kind (.plain text) [.fragment text] none
  | longFlag {name : String} {flag : Flag} (h : Opt.ofLong? kind name = some (.flag flag)) :
      Says kind (.long name none) [.flag flag] none
  | longValue {name value : String} {setting : Setting}
      (h : Opt.ofLong? kind name = some (.setting setting)) :
      Says kind (.long name (some value)) [.setting setting value] none
  | longWaiting {name : String} {setting : Setting}
      (h : Opt.ofLong? kind name = some (.setting setting)) :
      Says kind (.long name none) [] (some setting)
  | noLetters : Says kind (.letters []) [] none
  | letterFlag {letter : Char} {rest : List Char} {flag : Flag} {said : List Argument}
      {waiting : Option Setting} (h : Opt.ofLetter? kind letter = some (.flag flag))
      (hrest : Says kind (.letters rest) said waiting) :
      Says kind (.letters (letter :: rest)) (.flag flag :: said) waiting
  | letterWaiting {letter : Char} {setting : Setting}
      (h : Opt.ofLetter? kind letter = some (.setting setting)) :
      Says kind (.letters [letter]) [] (some setting)
  | letterEquals {letter : Char} {value : List Char} {setting : Setting}
      (h : Opt.ofLetter? kind letter = some (.setting setting)) :
      Says kind (.letters (letter :: '=' :: value)) [.setting setting (String.ofList value)] none
  | letterValue {letter c : Char} {value : List Char} {setting : Setting}
      (h : Opt.ofLetter? kind letter = some (.setting setting)) (hc : c ≠ '=') :
      Says kind (.letters (letter :: c :: value)) [.setting setting (String.ofList (c :: value))] none

/-- **The arguments that the words of a command spell**, after a setting that takes its value from the first of
them, or after none. -/
inductive Spells (kind : Kind) : Option Setting → List String → List Argument → Prop where
  | nil : Spells kind none [] []
  | separated (fragments : List String) :
      Spells kind none ("--" :: fragments) (fragments.map .fragment)
  | value {setting : Setting} {value : String} {rest : List String} {more : List Argument}
      (h : isDetachedValue value = true) (hrest : Spells kind none rest more) :
      Spells kind (some setting) (value :: rest) (.setting setting value :: more)
  | word {word : String} {said : List Argument} {waiting : Option Setting} {rest : List String}
      {more : List Argument} (h : Says kind (.ofString word) said waiting)
      (hrest : Spells kind waiting rest more) : Spells kind none (word :: rest) (said ++ more)

/-! ## Reading arguments -/

namespace Draft

/-- One argument. -/
def take (draft : Draft) : Argument → Except Stop Draft
  | .fragment text => .ok (draft.addFragment text)
  | .flag flag => draft.setFlag flag
  | .setting setting value => draft.setValue setting value

/-- Arguments, one after the other. -/
def takeAll (draft : Draft) (arguments : List Argument) : Except Stop Draft :=
  arguments.foldlM take draft

variable {kind : Kind} {draft next : Draft}

theorem takeAll_singleton (argument : Argument) : draft.takeAll [argument] = draft.take argument := by
  unfold takeAll
  cases h : draft.take argument <;> simp [h]

theorem takeAll_append_eq_ok_iff {said more : List Argument} :
    draft.takeAll (said ++ more) = .ok next ↔
      ∃ middle, draft.takeAll said = .ok middle ∧ middle.takeAll more = .ok next := by
  unfold takeAll
  rw [List.foldlM_append]
  cases said.foldlM take draft with
  | error stop => exact ⟨nofun, fun ⟨_, h, _⟩ => nomatch h⟩
  | ok middle => exact ⟨fun h => ⟨middle, rfl, h⟩, fun ⟨_, rfl, h⟩ => h⟩

theorem takeAll_cons_eq_ok_iff {argument : Argument} {more : List Argument} :
    draft.takeAll (argument :: more) = .ok next ↔
      ∃ middle, draft.take argument = .ok middle ∧ middle.takeAll more = .ok next := by
  rw [← List.singleton_append, takeAll_append_eq_ok_iff, takeAll_singleton]

/-- The separator adds all words after it. -/
theorem takeAll_fragments (draft : Draft) (fragments : List String) :
    draft.takeAll (fragments.map .fragment) =
      .ok { draft with fragments := fragments.reverse ++ draft.fragments } := by
  induction fragments generalizing draft with
  | nil => rfl
  | cons fragment rest ih =>
      show (draft.addFragment fragment).takeAll (rest.map .fragment) = _
      rw [ih, addFragment, List.reverse_cons, List.append_assoc]
      rfl

/-- What leaves no setting waiting. -/
theorem map_eq_ok_iff {result : Except Stop Draft} {waiting : Option Setting} :
    (result.map fun draft => (draft, none)) = .ok (next, waiting) ↔ result = .ok next ∧ waiting = none := by
  cases result with
  | error stop => exact ⟨nofun, fun ⟨h, _⟩ => nomatch h⟩
  | ok draft =>
      show Except.ok (draft, none) = _ ↔ _
      simp only [Except.ok.injEq, Prod.mk.injEq, eq_comm (a := waiting)]

/-- The letters of a word are read as what they say. -/
theorem exists_says_of_takeLetters {letters : List Char} {waiting : Option Setting}
    (h : draft.takeLetters kind letters = .ok (next, waiting)) :
    ∃ said, Says kind (.letters letters) said waiting ∧ draft.takeAll said = .ok next := by
  induction letters generalizing draft with
  | nil =>
      cases h
      exact ⟨[], .noLetters, rfl⟩
  | cons letter rest ih =>
      rw [takeLetters] at h
      cases hletter : Opt.ofLetter? kind letter with
      | none => simp only [hletter, reduceCtorEq] at h
      | some option =>
          simp only [hletter] at h
          cases option with
          | flag flag =>
              cases htake : draft.setFlag flag with
              | error stop => simp only [htake, reduceCtorEq] at h
              | ok middle =>
                  simp only [htake] at h
                  obtain ⟨said, hsaid, hread⟩ := ih h
                  exact ⟨_, .letterFlag hletter hsaid, takeAll_cons_eq_ok_iff.mpr ⟨middle, htake, hread⟩⟩
          | setting setting =>
              simp only at h
              split at h
              case h_1 =>
                cases h
                exact ⟨[], .letterWaiting hletter, rfl⟩
              case h_2 value =>
                obtain ⟨hset, rfl⟩ := map_eq_ok_iff.mp h
                exact ⟨_, .letterEquals hletter, (takeAll_singleton _).trans hset⟩
              case h_3 hne heq =>
                obtain ⟨c, value, rfl⟩ := List.exists_cons_of_ne_nil hne
                obtain ⟨hset, rfl⟩ := map_eq_ok_iff.mp h
                have hc : c ≠ '=' := fun hc => heq value (hc ▸ rfl)
                exact ⟨_, .letterValue hletter hc, (takeAll_singleton _).trans hset⟩

/-- What letters say is what is read from them. -/
theorem takeLetters_of_said {letters : List Char} {said : List Argument} {waiting : Option Setting}
    (hsaid : Says kind (.letters letters) said waiting) (hread : draft.takeAll said = .ok next) :
    draft.takeLetters kind letters = .ok (next, waiting) := by
  induction letters generalizing draft said with
  | nil =>
      cases hsaid
      cases hread
      rfl
  | cons letter rest ih =>
      cases hsaid with
      | letterFlag hletter hrest =>
          obtain ⟨middle, htake, hmore⟩ := takeAll_cons_eq_ok_iff.mp hread
          have hset : draft.setFlag _ = .ok middle := htake
          simp only [takeLetters, hletter, hset]
          exact ih hrest hmore
      | letterWaiting hletter =>
          cases hread
          simp only [takeLetters, hletter]
      | letterEquals hletter =>
          rw [takeAll_singleton] at hread
          simp only [takeLetters, hletter]
          exact map_eq_ok_iff.mpr ⟨hread, rfl⟩
      | letterValue hletter hc =>
          rw [takeAll_singleton] at hread
          simp only [takeLetters, hletter]
          split
          case h_1 hvalue => cases hvalue
          case h_2 hvalue => exact absurd (List.cons.inj hvalue).1 hc
          case h_3 => exact map_eq_ok_iff.mpr ⟨hread, rfl⟩

theorem takeLong_eq_ok_iff {name : String} {value : Option String} {waiting : Option Setting} :
    draft.takeLong kind name value = .ok (next, waiting) ↔
      ∃ said, Says kind (.long name value) said waiting ∧ draft.takeAll said = .ok next := by
  constructor
  · intro h
    unfold takeLong at h
    cases hname : Opt.ofLong? kind name with
    | none => simp only [hname, reduceCtorEq] at h
    | some option =>
        cases option with
        | flag flag =>
            cases value with
            | some value => simp only [hname, reduceCtorEq] at h
            | none =>
                simp only [hname] at h
                obtain ⟨hset, rfl⟩ := map_eq_ok_iff.mp h
                exact ⟨_, .longFlag hname, (takeAll_singleton _).trans hset⟩
        | setting setting =>
            cases value with
            | some value =>
                simp only [hname] at h
                obtain ⟨hset, rfl⟩ := map_eq_ok_iff.mp h
                exact ⟨_, .longValue hname, (takeAll_singleton _).trans hset⟩
            | none =>
                simp only [hname] at h
                cases h
                exact ⟨_, .longWaiting hname, rfl⟩
  · rintro ⟨said, hsaid, hread⟩
    cases hsaid with
    | longFlag hname =>
        rw [takeAll_singleton] at hread
        simp only [takeLong, hname]
        exact map_eq_ok_iff.mpr ⟨hread, rfl⟩
    | longValue hname =>
        rw [takeAll_singleton] at hread
        simp only [takeLong, hname]
        exact map_eq_ok_iff.mpr ⟨hread, rfl⟩
    | longWaiting hname =>
        cases hread
        simp only [takeLong, hname]

/-- **One word is read** as what it says. -/
theorem takeWord_eq_ok_iff {word : String} {waiting : Option Setting} (hword : word ≠ "--") :
    draft.takeWord kind word = .ok (next, waiting) ↔
      ∃ said, Says kind (.ofString word) said waiting ∧ draft.takeAll said = .ok next := by
  unfold takeWord
  cases hof : Word.ofString word with
  | separator => exact absurd (eq_of_ofString hof) hword
  | long name value => exact takeLong_eq_ok_iff
  | letters letters =>
      exact ⟨exists_says_of_takeLetters, fun ⟨_, hsaid, hread⟩ => takeLetters_of_said hsaid hread⟩
  | plain text =>
      obtain rfl := eq_of_ofString hof
      rw [Word.chars, String.ofList_toList]
      constructor
      · intro h
        cases h
        exact ⟨_, .plain text, takeAll_singleton _⟩
      · rintro ⟨said, hsaid, hread⟩
        cases hsaid
        rw [takeAll_singleton] at hread
        cases hread
        rfl

/-- **The words of a command are read** as the arguments that they spell. -/
theorem takeWords_eq_ok_iff {waiting : Option Setting} {words : List String} :
    takeWords kind draft waiting words = .ok next ↔
      ∃ arguments, Spells kind waiting words arguments ∧ draft.takeAll arguments = .ok next := by
  constructor
  · intro h
    induction words generalizing draft waiting with
    | nil =>
        cases waiting with
        | none => exact ⟨[], .nil, h⟩
        | some setting => cases h
    | cons word rest ih =>
        cases waiting with
        | some setting =>
            rw [takeWords] at h
            split at h
            case isFalse => cases h
            case isTrue hdetached =>
              cases hset : draft.setValue setting word with
              | error stop => simp only [hset, reduceCtorEq] at h
              | ok middle =>
                  simp only [hset] at h
                  obtain ⟨more, hrest, hmore⟩ := ih h
                  exact ⟨_, .value hdetached hrest, takeAll_cons_eq_ok_iff.mpr ⟨middle, hset, hmore⟩⟩
        | none =>
            rw [takeWords] at h
            split at h
            case isTrue hword =>
              cases h
              subst hword
              exact ⟨_, .separated rest, takeAll_fragments draft rest⟩
            case isFalse hword =>
              cases htake : draft.takeWord kind word with
              | error stop => simp only [htake, reduceCtorEq] at h
              | ok taken =>
                  simp only [htake] at h
                  obtain ⟨said, hsaid, hread⟩ := (takeWord_eq_ok_iff hword).mp htake
                  obtain ⟨more, hrest, hmore⟩ := ih h
                  exact ⟨_, .word hsaid hrest, takeAll_append_eq_ok_iff.mpr ⟨taken.1, hread, hmore⟩⟩
  · rintro ⟨arguments, hspells, hread⟩
    induction hspells generalizing draft with
    | nil => exact hread
    | separated fragments =>
        cases (takeAll_fragments draft fragments).symm.trans hread
        rw [takeWords, if_pos rfl]
    | value hdetached hrest ih =>
        obtain ⟨middle, htake, hmore⟩ := takeAll_cons_eq_ok_iff.mp hread
        have hset : draft.setValue _ _ = .ok middle := htake
        rw [takeWords, if_pos hdetached]
        simp only [hset]
        exact ih hmore
    | @word word said waiting rest more hsaid hrest ih =>
        obtain ⟨middle, htake, hmore⟩ := takeAll_append_eq_ok_iff.mp hread
        have hword : word ≠ "--" := by
          rintro rfl
          cases hsaid
        rw [takeWords, if_neg hword]
        simp only [(takeWord_eq_ok_iff hword).mpr ⟨said, hsaid, htake⟩]
        exact ih hmore

end Draft

end JsonProjection.Command
