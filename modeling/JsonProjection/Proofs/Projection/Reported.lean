/-
# `JsonProjection.Proofs.Projection.Reported` -- what a projection logs.

A projection reports every property that it looks for in vain: one that it was to copy and does not find, and one
that it was to enter and cannot.  Which properties it looks for depends on the source and the trees alone.  An entry
is reached in declaration order, before the entries of its block, and those are reached exactly when the property of
the entry is an object (`Tree.reached`).  What stands in the accumulator, and the mode, decide where and what is
written, but not what is reached: `fill`, which completes the shape of a block in absent mode, reports nothing, and
the two ways to descend, into an object that stands there or into a fresh one, report the same.

So the log is a function of the entries that are reached, one line for each that looks in vain
(`records_projectTrees`).
-/
import JsonProjection.Projection.Schema
import JsonProjection.Proofs.Json.Path
import JsonProjection.Proofs.Projection.Agreement
import JsonProjection.Proofs.Selection.Steps

namespace JsonProjection

open JsonProjection.Json (Object)
open JsonProjection.Log (Event Level Logged)
open JsonProjection.Projection

/-! ## Reached entries -/

/-- **A reached entry**: its key and its block, and the source in which its property is looked for. -/
structure Reached where
  source : Json
  step : Step

namespace Reached

/-- The property of the entry, if the source owns it. -/
def property (entry : Reached) : Option Json := entry.source.property? entry.step.key.name

/-- **What is reported of an entry**: that its property is not found, where it copies; that its property cannot be
entered, where it has a block and the property is missing or no object. -/
def event? (entry : Reached) : Option Event :=
  match entry.step.block?, entry.property with
  | none, none => some (.notFound entry.step.key.name)
  | none, some _ => none
  | some _, some (.obj _) => none
  | some _, _ => some (.notEntered entry.step.key.name)

/-- The line about an entry, in words. -/
def line? (entry : Reached) : Option String :=
  match entry.step.block?, entry.property with
  | none, none => some ("'" ++ entry.step.key.name ++ "' not found")
  | none, some _ => none
  | some _, some (.obj _) => none
  | some _, _ => some ("'" ++ entry.step.key.name ++ "' cannot be entered")

/-- What is reported is of the least urgent level and has that line for its wording. -/
theorem record_event? (entry : Reached) :
    entry.event?.map (fun event => (event.level, event.message)) =
      entry.line?.map fun line => (Level.trace, line) := by
  unfold event? line?
  split <;> rfl

/-- A block whose property is no object is reported. -/
theorem event?_of_no_object {source : Json} {key : Key}
    (h : ∀ members, source.property? key.name ≠ some (.obj members)) (block : Block) :
    event? ⟨source, key, some block⟩ = some (.notEntered key.name) := by
  unfold event? property
  split <;> simp_all

theorem filterMap_event?_cons (entry : Reached) (rest : List Reached) :
    (entry :: rest).filterMap event? = entry.event?.toList ++ rest.filterMap event? := by
  rw [List.filterMap_cons]
  cases entry.event? <;> rfl

/-- What is reached inside a property: nothing, unless it is an object. -/
def inside (entries : Json → List Reached) : Option Json → List Reached
  | some (.obj members) => entries (.obj members)
  | _ => []

theorem inside_of_no_object {property : Option Json} (h : ∀ members, property ≠ some (.obj members))
    (entries : Json → List Reached) : inside entries property = [] := by
  unfold inside
  split <;> simp_all

end Reached

/-- **The entries that are reached**, in preorder: each entry before those of its block, which are reached when its
property is an object, and before the entries behind it. -/
def Tree.reached : Tree → Json → List Reached
  | .nil, _ => []
  | .leaf key rest, source => ⟨source, key, none⟩ :: rest.reached source
  | .nested key block rest, source =>
    ⟨source, key, block.toBlock?⟩ ::
      (Reached.inside block.reached (source.property? key.name) ++ rest.reached source)

/-! ## One entry -/

namespace Projection

/-- Copying reports a property that is not there. -/
theorem events_copyProperty (mode : Mode) (source : Json) (key : Key) (acc : Object) :
    (copyProperty mode source key acc).events = (Reached.event? ⟨source, key, none⟩).toList := by
  unfold copyProperty Reached.event? Reached.property
  cases source.property? key.name with
  | some value => rfl
  | none => cases mode <;> rfl

/-- Entering reports a property that is no object, and in an object what is reported inside it, wherever the block
is written and in whatever stands there. -/
theorem events_enterProperty {descend : Json → Object → Logged Object} {entries : Json → List Reached}
    (hd : ∀ source acc, (descend source acc).events = (entries source).filterMap Reached.event?)
    (mode : Mode) (source : Json) (key : Key) (block : Block) (fill : Object → Object) (acc : Object) :
    (enterProperty mode source key descend fill acc).events =
      (Reached.event? ⟨source, key, some block⟩).toList ++
        (Reached.inside entries (source.property? key.name)).filterMap Reached.event? := by
  rcases Json.object_or_no_object (source.property? key.name) with ⟨members, ho⟩ | hno
  · have hevent : Reached.event? ⟨source, key, some block⟩ = none := by
      simp only [Reached.event?, Reached.property, ho]
    rw [hevent, ho]
    unfold enterProperty
    rw [ho]
    -- the object under the output name and a fresh one are both descended into
    cases Assoc.get? key.output acc with
    | none => simp [hd, Reached.inside]
    | some value => cases value <;> simp [hd, Reached.inside]
  · rw [enterProperty_of_no_object hno, Reached.event?_of_no_object hno, Reached.inside_of_no_object hno]
    rfl

end Projection

/-! ## Whole runs -/

/-- **The run**: a tree reports what is reported of the entries that it reaches, in their order, in both modes and
from every accumulator. -/
theorem Tree.events_project (mode : Mode) (tree : Tree) (source : Json) (acc : Object) :
    (tree.project mode source acc).events = (tree.reached source).filterMap Reached.event? := by
  induction tree generalizing source acc with
  | nil => rfl
  | leaf key rest ih =>
      rw [project, Logged.events_bind, events_copyProperty, ih, reached, Reached.filterMap_event?_cons]
  | nested key block rest ihb ihr =>
      rw [reached, Reached.filterMap_event?_cons, List.filterMap_append, ← List.append_assoc]
      by_cases he : block = .nil
      · -- an empty block is a leaf, and nothing is reached inside it
        subst he
        have hinside : Reached.inside Tree.nil.reached (source.property? key.name) = [] := by
          unfold Reached.inside
          split <;> rfl
        rw [project, if_pos ((isEmpty_iff Tree.nil).mpr rfl), Logged.events_bind, events_copyProperty, ihr,
          hinside, List.filterMap_nil, List.append_nil, toBlock?]
      · rw [project, if_neg (mt (isEmpty_iff block).mp he), Logged.events_bind,
          events_enterProperty ihb mode source key ⟨block, he⟩, ihr, toBlock?_of_ne_nil he]

/-- **The log of a projection.**  Whatever the mode and the accumulator are, trees that are projected one after the
other log the same records: those of the entries that are reached, tree after tree, each at the level of tracing
and with its line. -/
theorem Schema.records_projectTrees (trees : List Tree) (source : Json) :
    (∀ mode mode' acc acc',
        (projectTrees mode source trees acc).events = (projectTrees mode' source trees acc').events) ∧
      ∀ mode acc,
        (projectTrees mode source trees acc).events.map (fun event => (event.level, event.message)) =
          (trees.flatMap fun tree => tree.reached source).filterMap fun entry =>
            entry.line?.map fun line => (Level.trace, line) := by
  have hevents : ∀ mode acc, (projectTrees mode source trees acc).events =
      (trees.flatMap fun tree => tree.reached source).filterMap Reached.event? := by
    intro mode acc
    induction trees generalizing acc with
    | nil => rfl
    | cons tree rest ih =>
        rw [projectTrees, Logged.events_bind, Tree.events_project, ih, List.flatMap_cons, List.filterMap_append]
  constructor
  · intro mode mode' acc acc'
    rw [hevents, hevents]
  · intro mode acc
    rw [hevents, List.map_filterMap]
    simp only [Reached.record_event?]

/-- The second tree reaches `d` again, and `e` is not reached. -/
example :
    let trees : List Tree :=
      [.nested ⟨"a", none⟩ (.leaf ⟨"b", some "d"⟩ (.leaf ⟨"c", none⟩ .nil)) (.leaf ⟨"d", none⟩ .nil),
        .nested ⟨"d", none⟩ (.leaf ⟨"e", none⟩ .nil) .nil]
    let source : Json := .obj [("a", .obj [("c", .null)])]
    (Schema.projectTrees .absent source trees [("a", .null)]).events.map Event.message =
      ["'b' not found", "'d' not found", "'d' cannot be entered"] := by
  decide

end JsonProjection
