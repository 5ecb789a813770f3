/-
# `JsonProjection.Proofs.Command.Check` -- `check` brings fragments into their canonical form.

A run of `check` prints one line for each fragment that compiles, its canonical text, and stops at the first that
does not.  So it prints the canonical texts of the longest beginning of its fragments that compiles, and nothing of
those behind it, not even of the ones that would compile.  A canonical text is its own canonical text, and it holds
no newline, so what was printed can be taken apart into its lines again, and `check` prints these lines unchanged
(`runIn_checkWords`).
-/
import JsonProjection.Command.Run
import JsonProjection.Proofs.Fragment.Canonical
import Mathlib.Data.List.Basic
import Mathlib.Data.List.TakeWhile

/-! ## Lines -/

namespace JsonProjection.Text

/-- Lines as one text, each ended by a newline. -/
def ofLines (lines : List String) : String := String.join (lines.map (· ++ "\n"))

/-- **The lines of a text**: what stands before each newline. -/
def linesOf (text : String) : List String := (splitAt '\n' text.toList).dropLast.map String.ofList

/-- **Lines are read back.** -/
theorem linesOf_ofLines {lines : List String} (h : ∀ line ∈ lines, '\n' ∉ line.toList) :
    linesOf (ofLines lines) = lines := by
  induction lines with
  | nil => rfl
  | cons line rest ih =>
      obtain ⟨hline, hrest⟩ := List.forall_mem_cons.mp h
      have htext : (ofLines (line :: rest)).toList = line.toList ++ '\n' :: (ofLines rest).toList := by
        simp [ofLines]
      rw [linesOf, htext, splitAt_append_mark hline, List.dropLast_cons_of_ne_nil (splitAt_ne_nil _ _),
        List.map_cons, String.ofList_toList]
      exact congrArg (line :: ·) (ih hrest)

end JsonProjection.Text

/-! ## Canonical texts -/

namespace JsonProjection.Tree

/-- **The canonical text of a fragment**, if it compiles. -/
def canonical? (fragment : String) : Option String := (compile fragment).toOption.map text

/-- What the compiler returns is canonical. -/
theorem Canonical.of_compile {fragment : String} {tree : Tree} (h : compile fragment = .ok tree) :
    tree.Canonical := by
  obtain ⟨written, hread, rfl⟩ := compile_eq_ok_iff_read.mp h
  obtain ⟨hne, hfits, -⟩ := Fragment.read_eq_ok_iff.mp hread
  exact hfits.canonical_resolved hne

theorem canonical?_eq_some_iff {fragment line : String} :
    canonical? fragment = some line ↔ ∃ tree, compile fragment = .ok tree ∧ tree.text = line := by
  unfold canonical?
  cases compile fragment <;> simp [Except.toOption]

/-- **A canonical text is its own.** -/
theorem canonical?_canonical {fragment line : String} (h : canonical? fragment = some line) :
    canonical? line = some line := by
  obtain ⟨tree, hcompile, rfl⟩ := canonical?_eq_some_iff.mp h
  exact canonical?_eq_some_iff.mpr ⟨tree, (Canonical.of_compile hcompile).compile_text, rfl⟩

/-- A canonical text is one line. -/
theorem newline_not_mem_of_canonical? {fragment line : String} (h : canonical? fragment = some line) :
    '\n' ∉ line.toList := by
  obtain ⟨tree, hcompile, rfl⟩ := canonical?_eq_some_iff.mp h
  have hcanonical := Canonical.of_compile hcompile
  intro hmem
  rw [text, trim_eq_self hcanonical.noEmptyBlocks, Fragment.Token.text, String.toList_ofList,
    ← hcanonical.wellNamed.legible_tokens.withoutWhitespace_chars] at hmem
  exact absurd (List.mem_filter.mp hmem).2 (by decide)

end JsonProjection.Tree

/-! ## The command -/

namespace JsonProjection.Command

/-- **The longest beginning of fragments that compiles.** -/
def compiling (fragments : List String) : List String :=
  fragments.takeWhile fun fragment => (Tree.canonical? fragment).isSome

/-- Its beginnings are the beginnings of the fragments in which all compile. -/
theorem isPrefix_compiling_iff {before fragments : List String} :
    before <+: compiling fragments ↔
      before <+: fragments ∧ ∀ fragment ∈ before, (Tree.canonical? fragment).isSome := by
  constructor
  · intro h
    have hbefore : compiling fragments <+: fragments := ⟨_, List.takeWhile_append_dropWhile⟩
    refine ⟨h.trans hbefore, fun fragment hmem => ?_⟩
    exact List.mem_takeWhile_imp (p := fun fragment => (Tree.canonical? fragment).isSome) (h.subset hmem)
  · rintro ⟨⟨after, rfl⟩, hall⟩
    rw [compiling, List.takeWhile_append_of_pos hall]
    exact List.prefix_append _ _

/-- The canonical texts of the fragments up to the first that does not compile. -/
def canonicalLines (fragments : List String) : List String :=
  (compiling fragments).filterMap Tree.canonical?

section Cons

variable {fragment line : String}

theorem compiling_cons_of_some (h : Tree.canonical? fragment = some line) (rest : List String) :
    compiling (fragment :: rest) = fragment :: compiling rest :=
  List.takeWhile_cons_of_pos (by rw [h, Option.isSome_some])

theorem compiling_cons_of_none (h : Tree.canonical? fragment = none) (rest : List String) :
    compiling (fragment :: rest) = [] :=
  List.takeWhile_cons_of_neg (by simp [h])

theorem canonicalLines_cons_of_some (h : Tree.canonical? fragment = some line) (rest : List String) :
    canonicalLines (fragment :: rest) = line :: canonicalLines rest := by
  rw [canonicalLines, compiling_cons_of_some h, List.filterMap_cons_some h, canonicalLines]

theorem canonicalLines_cons_of_none (h : Tree.canonical? fragment = none) (rest : List String) :
    canonicalLines (fragment :: rest) = [] := by
  rw [canonicalLines, compiling_cons_of_none h, List.filterMap_nil]

end Cons

/-- **A run of `check`** prints the canonical texts of the longest beginning that compiles, and fails unless that
is the whole list. -/
theorem checkRun_eq (fragments : List String) :
    (checkRun fragments).value.1 = canonicalLines fragments ∧
      ((checkRun fragments).value.2 = none ↔ compiling fragments = fragments) := by
  induction fragments with
  | nil => exact ⟨rfl, iff_of_true rfl rfl⟩
  | cons fragment rest ih =>
      rw [checkRun]
      cases hcompile : Tree.compile fragment with
      | error error =>
          have hnone : Tree.canonical? fragment = none := by
            rw [Tree.canonical?, hcompile]
            rfl
          rw [canonicalLines_cons_of_none hnone, compiling_cons_of_none hnone]
          exact ⟨rfl, iff_of_false nofun nofun⟩
      | ok tree =>
          have hsome := Tree.canonical?_eq_some_iff.mpr ⟨tree, hcompile, rfl⟩
          rw [canonicalLines_cons_of_some hsome, compiling_cons_of_some hsome, ← ih.1,
            List.cons.injEq, and_iff_right rfl, ← ih.2]
          exact ⟨rfl, Iff.rfl⟩

/-! ### What is printed, given again -/

/-- Every line that is printed is its own canonical text. -/
theorem canonical?_of_mem_canonicalLines (fragments : List String) :
    ∀ line ∈ canonicalLines fragments, Tree.canonical? line = some line := by
  intro line hline
  obtain ⟨fragment, -, hfragment⟩ := List.mem_filterMap.mp hline
  exact Tree.canonical?_canonical hfragment

/-- Texts that are their own canonical texts all compile, and are printed as they are. -/
theorem canonicalLines_of_fixed {lines : List String}
    (h : ∀ line ∈ lines, Tree.canonical? line = some line) :
    compiling lines = lines ∧ canonicalLines lines = lines := by
  have hcompiling : compiling lines = lines := by
    refine List.takeWhile_eq_self_iff.mpr fun line hline => ?_
    rw [h line hline, Option.isSome_some]
  refine ⟨hcompiling, ?_⟩
  calc canonicalLines lines = lines.filterMap Tree.canonical? := by rw [canonicalLines, hcompiling]
    _ = lines.filterMap some := List.filterMap_congr h
    _ = lines := List.filterMap_some

/-! ### Command lines -/

/-- The command line of `check` with fragments as words. -/
def checkWords (fragments : List String) : List String := "check" :: "--" :: fragments

theorem ofWords_checkWords {fragments : List String} (hne : fragments ≠ []) :
    Request.ofWords (checkWords fragments) = .ok (.check fragments false) := by
  have hfragments : (fragments.reverse ++ []).reverse = fragments := by
    rw [List.append_nil, List.reverse_reverse]
  have hsome : ¬(fragments.reverse ++ []).isEmpty := by simpa using hne
  show Request.ofCommand .check false ("--" :: fragments) = _
  rw [Request.ofCommand, Draft.takeWords, if_pos rfl]
  show (if (fragments.reverse ++ []).isEmpty then Except.error UsageError.missingFragments
    else .ok (Request.check (fragments.reverse ++ []).reverse false)) = _
  rw [if_neg hsome, hfragments]

/-- A response to `check`: what it prints and its code; it writes nothing. -/
theorem respondCheck_eq {σ : Type} (fragments : List String) (verbose : Bool) (around : Surroundings σ) :
    let response := respondCheck fragments verbose around
    response.stdout = Text.ofLines (canonicalLines fragments) ∧
      response.code = (if compiling fragments = fragments then 0 else 1) ∧ response.written = none := by
  obtain ⟨hlines, hfailure⟩ := checkRun_eq fragments
  rw [respondCheck, ← hlines]
  cases hvalue : (checkRun fragments).value.2 with
  | none => exact ⟨rfl, (if_pos (hfailure.mp hvalue)).symm, rfl⟩
  | some failure =>
      have hrefused : compiling fragments ≠ fragments := fun h => by
        rw [hfailure.mpr h] at hvalue
        cases hvalue
      exact ⟨rfl, (if_neg hrefused).symm, rfl⟩

/-- A run of `check` on some fragments: what it prints and its code; the files stay as they are. -/
theorem runIn_checkWords_eq {fragments : List String} (hne : fragments ≠ []) (directory : Directory)
    (stdin : ByteArray) (logFilter : Option String) :
    let run := runIn directory (checkWords fragments) stdin logFilter
    run.1.stdout = Text.ofLines (canonicalLines fragments) ∧
      run.1.code = (if compiling fragments = fragments then 0 else 1) ∧ run.2 = directory := by
  obtain ⟨hstdout, hcode, hwritten⟩ :=
    respondCheck_eq fragments false (.inDirectory directory stdin logFilter)
  have hrespond : respondTo (checkWords fragments) (.inDirectory directory stdin logFilter) =
      respondCheck fragments false (.inDirectory directory stdin logFilter) := by
    rw [respondTo, ofWords_checkWords hne]
    rfl
  simp only [runIn, run, hrespond, Response.carryOut, hwritten]
  exact ⟨hstdout, hcode, rfl⟩

/-- **`check` brings fragments into their canonical form.**  It prints the canonical texts of the longest beginning
of its fragments that compiles, one in each line, and ends with code 0 exactly when that is the whole list, else
with code 1; the files stay as they are.  The text that it prints is taken apart into these lines again, and if
there are any, they can be given to `check` anywhere: it ends with code 0 and prints the same text. -/
theorem runIn_checkWords {fragments : List String} (hne : fragments ≠ []) (directory : Directory)
    (stdin : ByteArray) (logFilter : Option String) :
    let run := runIn directory (checkWords fragments) stdin logFilter
    run.1.stdout = Text.ofLines (canonicalLines fragments) ∧
      Text.linesOf run.1.stdout = canonicalLines fragments ∧
      run.1.code = (if compiling fragments = fragments then 0 else 1) ∧ run.2 = directory ∧
      (Text.linesOf run.1.stdout ≠ [] → ∀ directory' stdin' logFilter',
        let again := runIn directory' (checkWords (Text.linesOf run.1.stdout)) stdin' logFilter'
        again.1.code = 0 ∧ again.1.stdout = run.1.stdout) := by
  obtain ⟨hstdout, hcode, hafter⟩ := runIn_checkWords_eq hne directory stdin logFilter
  have hfixed := canonical?_of_mem_canonicalLines fragments
  have hlines : Text.linesOf (Text.ofLines (canonicalLines fragments)) = canonicalLines fragments :=
    Text.linesOf_ofLines fun line hline => Tree.newline_not_mem_of_canonical? (hfixed line hline)
  obtain ⟨hcompiling, hsame⟩ := canonicalLines_of_fixed hfixed
  intro run
  have hrun : Text.linesOf run.1.stdout = canonicalLines fragments := by rw [hstdout, hlines]
  refine ⟨hstdout, hrun, hcode, hafter, fun hsome directory' stdin' logFilter' => ?_⟩
  rw [hrun] at hsome ⊢
  obtain ⟨hstdout', hcode', -⟩ := runIn_checkWords_eq hsome directory' stdin' logFilter'
  exact ⟨hcode'.trans (if_pos hcompiling), by rw [hstdout', hsame, hstdout]⟩

/-- The third fragment lacks its end, and the fourth is not looked at. -/
theorem runIn_checkWords_unclosed :
    let fragments := [" b , a:\x7b \x7d", "a-->-b, a", "x:\x7b", "c"]
    let run := runIn [] (checkWords fragments) ByteArray.empty none
    fragments ≠ [] ∧ run.1.stdout = "b,a\na-->-b,a\n" ∧ run.1.code = 1 ∧
      let again := runIn [] (checkWords ["b,a", "a-->-b,a"]) ByteArray.empty none
      again.1.code = 0 ∧ again.1.stdout = "b,a\na-->-b,a\n" := by
  intro fragments run
  have hne : fragments ≠ [] := List.cons_ne_nil _ _
  have hcanonical : canonicalLines fragments = ["b,a", "a-->-b,a"] := rfl
  have hrefused : compiling fragments ≠ fragments := by decide
  obtain ⟨hstdout, hlines, hcode, -, hagain⟩ := runIn_checkWords hne [] ByteArray.empty none
  rw [hcanonical] at hstdout hlines
  rw [hlines] at hagain
  obtain ⟨hcode', hstdout'⟩ := hagain (List.cons_ne_nil _ _) [] ByteArray.empty none
  rw [if_neg hrefused] at hcode
  exact ⟨hne, hstdout, hcode, hcode', hstdout'.trans hstdout⟩

end JsonProjection.Command
