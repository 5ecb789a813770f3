/-
# `JsonProjection.Proofs.Projection.Place` -- what happens under one name.

A projection writes into one object, and strict mode prunes the whole object after every entry.  Still the
names do not meddle with one another: what stands under a name at the end depends on what stood there before
and on the entries that write under it.  A place is what stands under a name, if anything does; a request is
what an entry finds in the source and what it selects of it; and a place answers one request after the other
(`get?_projectInto`).

So an object is followed place by place.  Inside a place the same happens again: the requests that enter a
block there, one after the other, are the application of several blocks to one object (`answerAll_object`),
which is again followed place by place.  A property of projections is proved along these two lemmas in turn,
by induction on how deep the blocks nest.
-/
import JsonProjection.Projection.Schema
import JsonProjection.Proofs.Projection.Filling
import JsonProjection.Proofs.Projection.Names
import JsonProjection.Proofs.Selection.Steps

namespace JsonProjection

open JsonProjection.Json (Object childOf)
open JsonProjection.Log (Logged)
open JsonProjection.Projection

/-! ## Steps -/

namespace Step

/-- The accumulator after a step, before it settles. -/
def apply (mode : Mode) (source : Json) (step : Step) (acc : Object) : Object :=
  match step.block? with
  | none => (copyProperty mode source step.key acc).value
  | some block =>
    (enterProperty mode source step.key (block.tree.project mode) block.tree.fill acc).value

/-- The steps one after the other. -/
def applyAll (mode : Mode) (source : Json) (steps : List Step) (acc : Object) : Object :=
  steps.foldl (fun acc step => settle mode (step.apply mode source acc)) acc

theorem get?_apply_of_ne {mode : Mode} {source : Json} {step : Step} {acc : Object} {name : String}
    (h : step.key.output ≠ name) :
    Assoc.get? name (step.apply mode source acc) = Assoc.get? name acc := by
  unfold apply
  split
  · exact get?_copyProperty_of_ne h
  · exact get?_enterProperty_of_ne h _ _

theorem nodup_keys_apply (step : Step) (mode : Mode) (source : Json) {acc : Object}
    (ha : (Assoc.keys acc).Nodup) : (Assoc.keys (step.apply mode source acc)).Nodup := by
  unfold apply
  split
  · exact nodup_keys_copyProperty ha mode source step.key
  · exact nodup_keys_enterProperty ha mode source step.key _ _

theorem nodup_keys_applyAll (mode : Mode) (source : Json) (steps : List Step) {acc : Object}
    (ha : (Assoc.keys acc).Nodup) : (Assoc.keys (applyAll mode source steps acc)).Nodup := by
  induction steps generalizing acc with
  | nil => exact ha
  | cons step rest ih => exact ih (nodup_keys_settle (step.nodup_keys_apply mode source ha) mode)

end Step

/-- A tree is applied step by step. -/
theorem Tree.projectInto_eq_applyAll (mode : Mode) (tree : Tree) (source : Json) (acc : Object) :
    tree.projectInto mode source acc = Step.applyAll mode source tree.steps acc := by
  induction tree generalizing acc with
  | nil => rfl
  | leaf key rest ih => exact ih _
  | nested key block rest _ ih =>
      by_cases he : block = .nil
      · subst he
        exact ih _
      · rw [projectInto_nested mode key he, ih, steps, toBlock?_of_ne_nil he]
        rfl

/-! ## Places -/

namespace Projection

/-- What settling leaves at a place. -/
def settlePlace (mode : Mode) (place : Option Json) : Option Json :=
  match mode with
  | .strict => place.filter fun value => !value.isEmptyObject
  | .absent => place

@[simp] theorem settlePlace_none (mode : Mode) : settlePlace mode none = none := by
  cases mode <;> rfl

@[simp] theorem settlePlace_emptyObject : settlePlace .strict (some (.obj [])) = none := rfl

/-- Settling takes an empty object away and nothing else. -/
theorem settlePlace_of_ne {place : Option Json} (h : place ≠ some (.obj [])) (mode : Mode) :
    settlePlace mode place = place := by
  cases mode with
  | absent => rfl
  | strict =>
      cases place with
      | none => rfl
      | some value =>
          cases value with
          | obj members =>
              cases members with
              | nil => exact absurd rfl h
              | cons member more => rfl
          | _ => rfl

/-- Settling keeps a value, or takes it away in strict mode. -/
theorem settlePlace_some (mode : Mode) (value : Json) :
    settlePlace mode (some value) = some value ∨
      mode = .strict ∧ settlePlace mode (some value) = none := by
  cases mode with
  | absent => exact .inl rfl
  | strict =>
      by_cases h : some value = some (.obj [])
      · rw [h]
        exact .inr ⟨rfl, rfl⟩
      · exact .inl (settlePlace_of_ne h .strict)

@[simp] theorem settlePlace_settlePlace (mode : Mode) (place : Option Json) :
    settlePlace mode (settlePlace mode place) = settlePlace mode place := by
  cases mode with
  | absent => rfl
  | strict =>
      by_cases h : place = some (.obj [])
      · subst h
        rfl
      · rw [settlePlace_of_ne h, settlePlace_of_ne h]

/-- Settling adds nothing. -/
theorem mem_of_mem_settlePlace {mode : Mode} {place : Option Json} {value : Json}
    (h : value ∈ settlePlace mode place) : value ∈ place := by
  cases mode with
  | absent => exact h
  | strict => exact (Option.filter_eq_some_iff.mp h).1

theorem get?_settle {acc : Object} (h : (Assoc.keys acc).Nodup) (mode : Mode) (name : String) :
    Assoc.get? name (settle mode acc) = settlePlace mode (Assoc.get? name acc) := by
  cases mode with
  | absent => rfl
  | strict => exact Json.get?_prune h name

/-- The result of descending written to a place: strict mode keeps what is no object if the result is
empty. -/
def writtenChild (mode : Mode) (child : Object) (place : Option Json) : Option Json :=
  match mode, place with
  | .absent, _ => some (.obj child)
  | .strict, some (.obj _) => some (.obj child)
  | .strict, place => if child.isEmpty then place else some (.obj child)

theorem writtenChild_of_no_object {place : Option Json}
    (h : ∀ inside, place ≠ some (.obj inside)) (child : Object) :
    writtenChild .strict child place = if child.isEmpty then place else some (.obj child) := by
  unfold writtenChild
  split
  case h_1 hm => cases hm
  case h_2 inside _ => exact absurd rfl (h inside)
  case h_3 => rfl

theorem get?_writeChild_self {mode : Mode} {name : String} {acc : Object}
    (h : ∀ inside, Assoc.get? name acc ≠ some (.obj inside)) (child : Object) :
    Assoc.get? name (writeChild mode name child acc) =
      writtenChild mode child (Assoc.get? name acc) := by
  cases mode with
  | absent => exact Assoc.get?_set_self name (.obj child) acc
  | strict =>
      rw [writtenChild_of_no_object h, writeChild]
      cases child with
      | nil => rfl
      | cons member more => exact Assoc.get?_set_self name _ acc

/-- The shape of a block filled into a place: what is no object is kept. -/
def filledPlace (fill : Object → Object) : Option Json → Option Json
  | some (.obj child) => some (.obj (fill child))
  | some value => some value
  | none => some (.obj (fill []))

/-! ## Requests -/

/-- **A request**: the property that an entry finds in the source, and its block if it has one. -/
structure Request where
  property : Option Json
  block? : Option Block

end Projection

/-- What a step requests of a source. -/
def Step.request (source : Json) (step : Step) : Request :=
  ⟨source.property? step.key.name, step.block?⟩

/-- **The requests for a name**: those of the entries that write under it, in declaration order. -/
def Tree.requests (name : String) (source : Json) (tree : Tree) : List Request :=
  (tree.steps.filter fun step => step.key.output = name).map (Step.request source)

namespace Projection.Request

/-- What a request makes of a place. -/
def write (mode : Mode) : Request → Option Json → Option Json
  | ⟨some value, none⟩, _ => some value
  | ⟨none, none⟩, place =>
    match mode with
    | .strict => place
    | .absent => some (place.getD .null)
  | ⟨some (.obj members), some block⟩, place =>
    writtenChild mode (block.tree.projectInto mode (.obj members) (childOf place)) place
  | ⟨_, some block⟩, place =>
    match mode with
    | .strict => place
    | .absent => filledPlace block.tree.fill place

/-- A block does not enter what is no object. -/
theorem write_of_no_object {property : Option Json} (h : ∀ members, property ≠ some (.obj members))
    (mode : Mode) (block : Block) (place : Option Json) :
    write mode ⟨property, some block⟩ place =
      match mode with
      | .strict => place
      | .absent => filledPlace block.tree.fill place := by
  cases property with
  | none => rfl
  | some value =>
      cases value with
      | obj members => exact absurd rfl (h members)
      | _ => rfl

/-- **The answer of a place to a request**, settled. -/
def answer (mode : Mode) (request : Request) (place : Option Json) : Option Json :=
  settlePlace mode (request.write mode place)

/-- The answers to several requests, one after the other. -/
def answerAll (mode : Mode) (requests : List Request) (place : Option Json) : Option Json :=
  requests.foldl (fun place request => request.answer mode place) place

@[simp] theorem answerAll_nil (mode : Mode) (place : Option Json) : answerAll mode [] place = place :=
  rfl

@[simp] theorem answerAll_cons (mode : Mode) (request : Request) (rest : List Request)
    (place : Option Json) :
    answerAll mode (request :: rest) place = answerAll mode rest (request.answer mode place) := rfl

@[simp] theorem answerAll_append (mode : Mode) (requests more : List Request)
    (place : Option Json) :
    answerAll mode (requests ++ more) place = answerAll mode more (answerAll mode requests place) :=
  List.foldl_append

end Projection.Request

open JsonProjection.Projection (Request)

/-- A step does to the place under its output name what its request says. -/
theorem Step.get?_apply_self (mode : Mode) (source : Json) (step : Step) (acc : Object) :
    Assoc.get? step.key.output (step.apply mode source acc) =
      (step.request source).write mode (Assoc.get? step.key.output acc) := by
  obtain ⟨key, block?⟩ := step
  unfold Step.request
  cases block? with
  | none =>
      show Assoc.get? key.output (copyProperty mode source key acc).value = _
      rw [get?_copyProperty_self]
      cases source.property? key.name with
      | some value => rfl
      | none => cases mode <;> rfl
  | some block =>
      show Assoc.get? key.output (enterProperty mode source key (block.tree.project mode)
        block.tree.fill acc).value = _
      rcases Json.object_or_no_object (source.property? key.name) with ⟨members, ho⟩ | hno
      · rw [ho]
        show _ = writtenChild mode (block.tree.projectInto mode (.obj members)
          (childOf (Assoc.get? key.output acc))) (Assoc.get? key.output acc)
        by_cases hc : ∃ child, Assoc.get? key.output acc = some (.obj child)
        · obtain ⟨child, hc⟩ := hc
          rw [value_enterProperty_of_child ho hc, Assoc.get?_set_self, hc]
          cases mode <;> rfl
        · have hno : ∀ child, Assoc.get? key.output acc ≠ some (.obj child) :=
            fun child hchild => hc ⟨child, hchild⟩
          rw [value_enterProperty_of_no_child ho hno, Json.childOf_of_no_object hno]
          exact get?_writeChild_self hno _
      · rw [value_enterProperty_of_no_object hno, Request.write_of_no_object hno]
        cases mode with
        | strict => rfl
        | absent => exact get?_fillMember_self key.output block.tree.fill acc

/-! ## A name followed through a tree -/

namespace Projection.Request

/-- An empty object that is about to be pruned is as good as nothing. -/
@[simp] theorem answer_settlePlace (mode : Mode) (request : Request) (place : Option Json) :
    request.answer mode (settlePlace mode place) = request.answer mode place := by
  cases mode with
  | absent => rfl
  | strict =>
      by_cases hempty : place = some (.obj [])
      · subst hempty
        obtain ⟨property, block?⟩ := request
        rw [settlePlace_emptyObject]
        cases block? with
        | none => cases property <;> rfl
        | some block =>
            rcases Json.object_or_no_object property with ⟨members, rfl⟩ | hno
            · show settlePlace .strict (writtenChild .strict
                  (block.tree.projectInto .strict (.obj members) []) none) =
                settlePlace .strict (some (.obj (block.tree.projectInto .strict (.obj members) [])))
              cases block.tree.projectInto .strict (.obj members) [] <;> rfl
            · simp only [answer, write_of_no_object hno]
              rfl
      · rw [settlePlace_of_ne hempty]

@[simp] theorem settlePlace_answer (mode : Mode) (request : Request) (place : Option Json) :
    settlePlace mode (request.answer mode place) = request.answer mode place :=
  settlePlace_settlePlace mode _

end Projection.Request

open JsonProjection.Projection.Request (answerAll)

/-- **A name followed through the steps**: what stands under it answers the requests for it. -/
theorem Step.get?_applyAll (mode : Mode) (source : Json) (steps : List Step) {acc : Object}
    (ha : (Assoc.keys acc).Nodup) (name : String) :
    settlePlace mode (Assoc.get? name (applyAll mode source steps acc)) =
      answerAll mode ((steps.filter fun step => step.key.output = name).map (request source))
        (settlePlace mode (Assoc.get? name acc)) := by
  induction steps generalizing acc with
  | nil => rfl
  | cons step rest ih =>
      have happlied := step.nodup_keys_apply mode source ha
      have hplace := get?_settle happlied mode name
      show settlePlace mode (Assoc.get? name
        (applyAll mode source rest (settle mode (step.apply mode source acc)))) = _
      rw [ih (nodup_keys_settle happlied mode), hplace, settlePlace_settlePlace]
      by_cases hn : step.key.output = name
      · subst hn
        rw [get?_apply_self, List.filter_cons_of_pos (by simp), List.map_cons,
          Request.answerAll_cons, Request.answer_settlePlace]
        rfl
      · rw [get?_apply_of_ne hn, List.filter_cons_of_neg (by simpa using hn)]

/-- **A name followed through a tree.** -/
theorem Tree.get?_projectInto (mode : Mode) (tree : Tree) (source : Json) {acc : Object}
    (ha : (Assoc.keys acc).Nodup) (name : String) :
    settlePlace mode (Assoc.get? name (tree.projectInto mode source acc)) =
      answerAll mode (tree.requests name source) (settlePlace mode (Assoc.get? name acc)) := by
  rw [projectInto_eq_applyAll]
  exact Step.get?_applyAll mode source tree.steps ha name

/-! ## Settled objects -/

/-- **Settled**: under no name stands what settling would take away. -/
def Projection.Settled (mode : Mode) (acc : Object) : Prop :=
  ∀ name, settlePlace mode (Assoc.get? name acc) = Assoc.get? name acc

theorem Projection.settled_settle {acc : Object} (ha : (Assoc.keys acc).Nodup) (mode : Mode) :
    Settled mode (settle mode acc) := by
  intro name
  rw [get?_settle ha, settlePlace_settlePlace]

theorem Step.settled_applyAll {mode : Mode} {source : Json} {steps : List Step} {acc : Object}
    (ha : (Assoc.keys acc).Nodup) (h : steps = [] → Settled mode acc) :
    Settled mode (applyAll mode source steps acc) := by
  induction steps generalizing acc with
  | nil => exact h rfl
  | cons step rest ih =>
      have happlied := step.nodup_keys_apply mode source ha
      exact ih (nodup_keys_settle happlied mode) fun _ => settled_settle happlied mode

/-- A block leaves an object settled. -/
theorem Block.settled_projectInto (block : Block) (mode : Mode) (source : Json) {acc : Object}
    (ha : (Assoc.keys acc).Nodup) : Settled mode (block.tree.projectInto mode source acc) := by
  rw [Tree.projectInto_eq_applyAll]
  exact Step.settled_applyAll ha fun h => absurd (Tree.steps_eq_nil_iff.mp h) block.ne_nil

/-! ## Several blocks, each with its source -/

/-- **A job**: a block, and the source that it is applied to. -/
structure Projection.Job where
  source : Json
  block : Block

open JsonProjection.Projection (Job)

namespace Projection.Job

/-- The jobs done one after the other, all on one object. -/
def runAll (mode : Mode) (jobs : List Job) (acc : Object) : Object :=
  jobs.foldl (fun acc job => job.block.tree.projectInto mode job.source acc) acc

/-- The requests of all jobs for a name. -/
def requests (name : String) (jobs : List Job) : List Request :=
  jobs.flatMap fun job => job.block.tree.requests name job.source

variable {mode : Mode} {jobs : List Job} {acc : Object}

theorem distinctNames_runAll (hs : ∀ job ∈ jobs, job.source.DistinctNames)
    (ha : (Json.obj acc).DistinctNames) : (Json.obj (runAll mode jobs acc)).DistinctNames := by
  induction jobs generalizing acc with
  | nil => exact ha
  | cons job rest ih =>
      obtain ⟨hjob, hrest⟩ := List.forall_mem_cons.mp hs
      exact ih hrest (job.block.tree.distinctNames_projectInto mode hjob ha)

theorem settled_runAll (hs : ∀ job ∈ jobs, job.source.DistinctNames)
    (ha : (Json.obj acc).DistinctNames) (h : jobs = [] → Settled mode acc) :
    Settled mode (runAll mode jobs acc) := by
  induction jobs generalizing acc with
  | nil => exact h rfl
  | cons job rest ih =>
      obtain ⟨hjob, hrest⟩ := List.forall_mem_cons.mp hs
      exact ih hrest (job.block.tree.distinctNames_projectInto mode hjob ha)
        fun _ => job.block.settled_projectInto mode job.source (Json.distinctNames_obj_iff.mp ha).1

/-- **A name followed through several jobs.** -/
theorem get?_runAll (hs : ∀ job ∈ jobs, job.source.DistinctNames)
    (ha : (Json.obj acc).DistinctNames) (name : String) :
    settlePlace mode (Assoc.get? name (runAll mode jobs acc)) =
      answerAll mode (requests name jobs) (settlePlace mode (Assoc.get? name acc)) := by
  induction jobs generalizing acc with
  | nil => rfl
  | cons job rest ih =>
      obtain ⟨hjob, hrest⟩ := List.forall_mem_cons.mp hs
      show settlePlace mode (Assoc.get? name
        (runAll mode rest (job.block.tree.projectInto mode job.source acc))) = _
      rw [ih hrest (job.block.tree.distinctNames_projectInto mode hjob ha),
        Tree.get?_projectInto mode job.block.tree job.source (Json.distinctNames_obj_iff.mp ha).1,
        ← Request.answerAll_append]
      rfl

end Projection.Job

/-! ## Inside a place -/

/-- **Filling is absent mode without a source**: where nothing is owned, absent mode fills the shape. -/
theorem Tree.projectInto_absent_of_no_property (tree : Tree) {source : Json}
    (h : ∀ name, source.property? name = none) (acc : Object) :
    tree.projectInto .absent source acc = tree.fill acc :=
  projectInto_absent_of_unowned (fun key _ => h key.name) acc

namespace Projection.Request

/-- **The job of a request**: its block is applied to the object that the property is.  Where the property is
no object strict mode does nothing and absent mode applies the block to the empty object. -/
def job? (mode : Mode) : Request → Option Job
  | ⟨some (.obj members), some block⟩ => some ⟨.obj members, block⟩
  | ⟨_, some block⟩ =>
    match mode with
    | .strict => none
    | .absent => some ⟨.obj [], block⟩
  | ⟨_, none⟩ => none

/-- The jobs of several requests. -/
def jobs (mode : Mode) (requests : List Request) : List Job := requests.filterMap (job? mode)

theorem job?_of_no_object {property : Option Json} (h : ∀ members, property ≠ some (.obj members))
    (mode : Mode) (block : Block) :
    job? mode ⟨property, some block⟩ =
      match mode with
      | .strict => none
      | .absent => some ⟨.obj [], block⟩ := by
  cases property with
  | none => rfl
  | some value =>
      cases value with
      | obj members => exact absurd rfl (h members)
      | _ => rfl

/-- A request that copies nothing does its job on the object that stands at the place. -/
theorem answer_object {mode : Mode} {request : Request}
    (h : request.block? = none → request.property = none) (child : Object) :
    request.answer mode (some (.obj child)) =
      settlePlace mode (some (.obj (Job.runAll mode (request.job? mode).toList child))) := by
  obtain ⟨property, block?⟩ := request
  cases block? with
  | none =>
      obtain rfl : property = none := h rfl
      cases mode <;> rfl
  | some block =>
      rcases Json.object_or_no_object property with ⟨members, rfl⟩ | hno
      · cases mode <;> rfl
      · rw [answer, write_of_no_object hno, job?_of_no_object hno]
        cases mode with
        | strict => rfl
        | absent =>
            have hfill : block.tree.projectInto .absent (.obj []) child = block.tree.fill child :=
              block.tree.projectInto_absent_of_no_property (fun _ => rfl) child
            show some (Json.obj (block.tree.fill child)) =
              some (.obj (block.tree.projectInto .absent (.obj []) child))
            rw [hfill]

/-- **Requests that copy nothing do their jobs on the object that stands at the place**, an empty object
counting as one in strict mode, where there is nothing. -/
theorem answerAll_object {mode : Mode} {requests : List Request}
    (h : ∀ request ∈ requests, request.block? = none → request.property = none) (child : Object) :
    answerAll mode requests (settlePlace mode (some (.obj child))) =
      settlePlace mode (some (.obj (Job.runAll mode (jobs mode requests) child))) := by
  induction requests generalizing child with
  | nil => rfl
  | cons request rest ih =>
      obtain ⟨hrequest, hrest⟩ := List.forall_mem_cons.mp h
      show answerAll mode rest (request.answer mode (settlePlace mode (some (.obj child)))) = _
      rw [answer_settlePlace, answer_object hrequest, ih hrest, jobs, jobs, List.filterMap_cons]
      cases request.job? mode <;> rfl

end Projection.Request

/-- **The jobs inside a place** come from blocks that nest less deep, and from sources that are part of the
sources outside. -/
theorem Projection.Job.exists_outer {mode : Mode} {name : String} {outer : List Job} {job : Job}
    (h : job ∈ Request.jobs mode (Job.requests name outer)) :
    ∃ around ∈ outer, job.block.tree.nesting < around.block.tree.nesting ∧
      (around.source.DistinctNames → job.source.DistinctNames) := by
  obtain ⟨request, hr, hjob⟩ := List.mem_filterMap.mp h
  obtain ⟨around, ha, hr⟩ := List.mem_flatMap.mp hr
  obtain ⟨step, hs, rfl⟩ := List.mem_map.mp hr
  have hstep := (List.mem_filter.mp hs).1
  refine ⟨around, ha, ?_⟩
  unfold Request.job? at hjob
  split at hjob
  case h_1 members block hrequest =>
    obtain ⟨hproperty, hblock⟩ := Request.mk.inj hrequest
    cases hjob
    exact ⟨Tree.nesting_lt_of_mem_steps hstep hblock, fun hd => hd.property hproperty⟩
  case h_2 property block _ hrequest =>
    obtain ⟨-, hblock⟩ := Request.mk.inj hrequest
    cases mode <;> cases hjob
    exact ⟨Tree.nesting_lt_of_mem_steps hstep hblock, fun _ => Json.distinctNames_emptyObject⟩
  case h_3 => cases hjob

end JsonProjection
