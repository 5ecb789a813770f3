/-
# `JsonProjection.Proofs.Projection.Repeated` -- a tree applied twice, order included.

Where no two entries of a level write under one name, a second run with the same source and the same tree leaves
the accumulator exactly as the first run left it: the same members, in the same order, on every level and in both
modes.  (Where entries share a name, it does so in strict mode, up to the order of members.)

The second run need not take the branches of the first.  It enters an object where the first run replaced a
scalar, it keeps a marker where the first run wrote one, and it may write an empty object a second time, at the end
of the accumulator, where it is pruned a second time.  But one name has one request, and a place that has answered
a request answers it again with what stands there (`Request.answer_answer`).  So no step of the second run changes
the accumulator (`Step.settle_apply_eq_self`), and the order of the steps plays no part.
-/
import JsonProjection.Proofs.Projection.MergedBlocks

namespace JsonProjection

open JsonProjection.Json (Object childOf)
open JsonProjection.Log (Logged)
open JsonProjection.Projection

/-! ## One place -/

namespace Projection.Request

variable {mode : Mode} {request : Request} {place : Option Json}

/-- The job of a request is done by its block. -/
theorem block?_of_job?_eq_some {job : Job} (h : request.job? mode = some job) :
    request.block? = some job.block := by
  unfold job? at h
  split at h
  case h_1 =>
    cases h
    rfl
  case h_2 =>
    cases mode <;> cases h
    rfl
  case h_3 => cases h

/-- What is no object is kept by a request with a block, or is treated as an empty object. -/
theorem answer_of_no_object (hp : ∀ child, place ≠ some (.obj child)) (property : Option Json)
    (block : Block) :
    answer mode ⟨property, some block⟩ place = place ∨
      answer mode ⟨property, some block⟩ place = answer mode ⟨property, some block⟩ (some (.obj [])) := by
  have hsettled : settlePlace mode place = place := settlePlace_of_ne (hp []) mode
  rcases Json.object_or_no_object property with ⟨members, rfl⟩ | hno
  · have hwrite : answer mode ⟨some (.obj members), some block⟩ place =
        settlePlace mode (writtenChild mode
          (block.tree.projectInto mode (.obj members) (childOf place)) place) := rfl
    rw [hwrite, Json.childOf_of_no_object hp]
    cases mode with
    | absent => exact .inr rfl
    | strict =>
        rw [writtenChild_of_no_object hp]
        by_cases hempty : (block.tree.projectInto .strict (.obj members) []).isEmpty = true
        · rw [if_pos hempty, hsettled]
          exact .inl rfl
        · rw [if_neg hempty]
          exact .inr rfl
  · rw [answer, answer, write_of_no_object hno, write_of_no_object hno]
    cases mode with
    | strict => exact .inl hsettled
    | absent =>
        cases place with
        | none => exact .inr rfl
        | some value =>
            cases value with
            | obj child => exact absurd rfl (hp child)
            | _ => exact .inl rfl

/-- **Answering twice**: if the block of the request can be applied again to its own result, the request can be
answered again at the place that has answered it. -/
theorem answer_answer
    (hrepeat : ∀ block, request.block? = some block → ∀ source child, (Json.obj child).DistinctNames →
      block.tree.projectInto mode source (block.tree.projectInto mode source child) =
        block.tree.projectInto mode source child)
    (hd : ∀ value ∈ place, value.DistinctNames) :
    request.answer mode (request.answer mode place) = request.answer mode place := by
  obtain ⟨property, block?⟩ := request
  cases block? with
  | none =>
      cases property with
      | some value => rfl
      | none =>
          cases mode with
          | strict => exact settlePlace_settlePlace .strict place
          | absent => rfl
  | some block =>
      have hblock : (⟨property, some block⟩ : Request).block? = none →
          (⟨property, some block⟩ : Request).property = none := fun h => absurd h (Option.some_ne_none block)
      have hobject : ∀ child, (Json.obj child).DistinctNames →
          answer mode ⟨property, some block⟩ (answer mode ⟨property, some block⟩ (some (.obj child))) =
            answer mode ⟨property, some block⟩ (some (.obj child)) := by
        intro child hchild
        rw [answer_object hblock, answer_settlePlace, answer_object hblock]
        cases hjob : job? mode ⟨property, some block⟩ with
        | none => rfl
        | some job =>
            have hrun := hrepeat job.block (block?_of_job?_eq_some hjob) job.source child hchild
            exact congrArg (fun acc => settlePlace mode (some (Json.obj acc))) hrun
      rcases Json.object_or_no_object place with ⟨child, rfl⟩ | hno
      · exact hobject child (hd _ rfl)
      · rcases answer_of_no_object hno property block with hkept | hempty
        · rw [hkept, hkept]
        · rw [hempty]
          exact hobject [] Json.distinctNames_emptyObject

end Projection.Request

/-! ## One entry -/

namespace Projection

variable {mode : Mode} {source : Json} {key : Key} {acc : Object}

/-- Copying leaves the accumulator alone, or writes under the output name. -/
theorem copyProperty_eq_or_eq_set (mode : Mode) (source : Json) (key : Key) (acc : Object) :
    (copyProperty mode source key acc).value = acc ∨
      ∃ value, (copyProperty mode source key acc).value = Assoc.set key.output value acc := by
  rw [value_copyProperty]
  cases source.property? key.name with
  | some value => exact .inr ⟨value, rfl⟩
  | none =>
      cases mode with
      | strict => exact .inl rfl
      | absent =>
          show Assoc.ensure key.output .null acc = acc ∨
            ∃ value, Assoc.ensure key.output .null acc = Assoc.set key.output value acc
          cases hplace : Assoc.get? key.output acc with
          | some value => exact .inl (by rw [Assoc.ensure, hplace])
          | none =>
              have hnew : key.output ∉ Assoc.keys acc := (Assoc.get?_eq_none_iff _ _).mp hplace
              exact .inr ⟨.null, by rw [Assoc.ensure_of_not_mem hnew, Assoc.set_of_not_mem hnew]⟩

/-- So does filling. -/
theorem fillMember_eq_or_eq_set (output : String) (fill : Object → Object) (acc : Object) :
    fillMember output fill acc = acc ∨
      ∃ value, fillMember output fill acc = Assoc.set output value acc := by
  unfold fillMember
  split
  · exact .inr ⟨_, rfl⟩
  · exact .inl rfl
  · exact .inr ⟨_, rfl⟩

/-- So does descending. -/
theorem enterProperty_eq_or_eq_set (mode : Mode) (source : Json) (key : Key)
    (descend : Json → Object → Logged Object) (fill : Object → Object) (acc : Object) :
    (enterProperty mode source key descend fill acc).value = acc ∨
      ∃ value, (enterProperty mode source key descend fill acc).value =
        Assoc.set key.output value acc := by
  rcases Json.object_or_no_object (source.property? key.name) with ⟨members, ho⟩ | hno
  · have hchild : (descend (.obj members) (childOf (Assoc.get? key.output acc))).value = _ := rfl
    rcases value_enterProperty_of_object ho hchild mode fill with hset | ⟨-, -, -, hkept⟩
    · exact .inr ⟨_, hset⟩
    · exact .inl hkept
  · rw [value_enterProperty_of_no_object hno]
    cases mode with
    | strict => exact .inl rfl
    | absent => exact fillMember_eq_or_eq_set key.output fill acc

end Projection

/-! ## Steps -/

namespace Step

variable {mode : Mode} {source : Json} {step : Step} {steps : List Step} {acc : Object}

/-- **A step writes what its request says**, and where that is nothing it writes nothing. -/
theorem apply_eq_elim (mode : Mode) (source : Json) (step : Step) (acc : Object) :
    step.apply mode source acc =
      ((step.request source).write mode (Assoc.get? step.key.output acc)).elim acc
        fun value => Assoc.set step.key.output value acc := by
  have hshape : step.apply mode source acc = acc ∨
      ∃ value, step.apply mode source acc = Assoc.set step.key.output value acc := by
    unfold apply
    split
    · exact copyProperty_eq_or_eq_set mode source step.key acc
    · exact enterProperty_eq_or_eq_set mode source step.key _ _ acc
  rw [← get?_apply_self]
  rcases hshape with hkept | ⟨value, hset⟩
  · rw [hkept]
    cases hplace : Assoc.get? step.key.output acc with
    | none => rfl
    | some value => exact (Assoc.set_eq_self hplace).symm
  · rw [hset, Assoc.get?_set_self]
    rfl

/-- **A step whose answer stands there already changes nothing**, once the accumulator has settled. -/
theorem settle_apply_eq_self (hstill : settle mode acc = acc)
    (hanswer : (step.request source).answer mode (Assoc.get? step.key.output acc) =
      Assoc.get? step.key.output acc) :
    settle mode (step.apply mode source acc) = acc := by
  rw [apply_eq_elim]
  unfold Request.answer at hanswer
  cases hwrite : (step.request source).write mode (Assoc.get? step.key.output acc) with
  | none => exact hstill
  | some value =>
      show settle mode (Assoc.set step.key.output value acc) = acc
      rw [hwrite] at hanswer
      rcases settlePlace_some mode value with hkept | ⟨rfl, hpruned⟩
      · rw [Assoc.set_eq_self (hanswer.symm.trans hkept), hstill]
      · -- an empty object that the request writes anew is pruned anew
        have hnew := (Assoc.get?_eq_none_iff step.key.output acc).mp (hanswer.symm.trans hpruned)
        have hempty : value.isEmptyObject = true := by simpa [settlePlace] using hpruned
        rw [Assoc.set_of_not_mem hnew, settle_append, hstill]
        show acc ++ Object.prune [(step.key.output, value)] = acc
        rw [Object.prune_singleton, if_pos hempty, List.append_nil]

/-- Steps of which none changes the accumulator do not change it together. -/
theorem applyAll_eq_self (h : ∀ step ∈ steps, settle mode (step.apply mode source acc) = acc) :
    applyAll mode source steps acc = acc := by
  induction steps with
  | nil => rfl
  | cons step rest ih =>
      obtain ⟨hstep, hrest⟩ := List.forall_mem_cons.mp h
      show applyAll mode source rest (settle mode (step.apply mode source acc)) = acc
      rw [hstep, ih hrest]

/-- After a step nothing is left to settle. -/
theorem settle_applyAll (h : steps = [] → settle mode acc = acc) :
    settle mode (applyAll mode source steps acc) = applyAll mode source steps acc := by
  induction steps generalizing acc with
  | nil => exact h rfl
  | cons step rest ih => exact ih fun _ => settle_settle mode _

/-- Where no two steps write under one name, one step writes under its name. -/
theorem filter_output_eq (hn : (steps.map fun step => step.key.output).Nodup) (h : step ∈ steps) :
    (steps.filter fun other => other.key.output = step.key.output) = [step] := by
  induction steps with
  | nil => cases h
  | cons first rest ih =>
      obtain ⟨hfirst, hrest⟩ := List.nodup_cons.mp hn
      rcases List.mem_cons.mp h with rfl | h
      · have hnone : (rest.filter fun other => other.key.output = step.key.output) = [] := by
          refine List.filter_eq_nil_iff.mpr fun other hother he => hfirst ?_
          exact List.mem_map.mpr ⟨other, hother, of_decide_eq_true he⟩
        rw [List.filter_cons_of_pos (by simp), hnone]
      · have hne : first.key.output ≠ step.key.output := fun he =>
          hfirst (List.mem_map.mpr ⟨step, h, he.symm⟩)
        rw [List.filter_cons_of_neg (by simpa using hne), ih hrest h]

end Step

/-! ## Whole runs -/

namespace Tree

/-- The output names of the steps are those of the entries. -/
theorem map_output_steps (tree : Tree) : (tree.steps.map fun step => step.key.output) = tree.outputs := by
  rw [outputs, ← map_key_steps, List.map_map]
  rfl

/-- **Applying a tree a second time changes nothing**, neither the members nor their order, on any level and in
either mode, where no two entries of a level write under one name. -/
theorem projectInto_twice (mode : Mode) {tree : Tree} (hd : tree.DistinctOutputs) (source : Json)
    {acc : Object} (ha : (Json.obj acc).DistinctNames) :
    tree.projectInto mode source (tree.projectInto mode source acc) = tree.projectInto mode source acc := by
  induction tree using blockInduction generalizing source acc with
  | step tree ih =>
      rw [projectInto_eq_applyAll, projectInto_eq_applyAll]
      by_cases hempty : tree.steps = []
      · rw [hempty]
        rfl
      · have hkeys := (Json.distinctNames_obj_iff.mp ha).1
        have hnames : (tree.steps.map fun step => step.key.output).Nodup := tree.map_output_steps ▸ hd.1
        refine Step.applyAll_eq_self fun step hstep => Step.settle_apply_eq_self ?_ ?_
        · exact Step.settle_applyAll fun h => absurd h hempty
        -- the first run left under the name what answers its one request
        have hsettled : Settled mode (Step.applyAll mode source tree.steps acc) :=
          Step.settled_applyAll hkeys fun h => absurd h hempty
        have honce := Step.get?_applyAll mode source tree.steps hkeys step.key.output
        rw [hsettled, Step.filter_output_eq hnames hstep] at honce
        rw [honce]
        refine Request.answer_answer (fun block hblock source child hchild => ?_) fun value hvalue =>
          (Json.distinctNames_obj_iff.mp ha).2 _ value (mem_of_mem_settlePlace hvalue)
        obtain ⟨key, block?⟩ := step
        obtain rfl : block? = some block := hblock
        have hentry := mem_steps_iff.mp hstep
        exact ih key block.tree hentry (inBlocks_iff.mp hd.2 key block.tree hentry) source hchild

/-- An order again, on an accumulator that holds an empty object where the tree has a block without a match, a
scalar where it has one with a match, and a `null` where the order has an empty object.  Strict mode takes the first
and the last away and absent mode fills the first; the second run does neither. -/
theorem projectInto_twice_orderSample :
    let acc : Object := [("note", .obj []), ("customer", .bool false), ("k", .arr [.obj []]), ("extra", .null)]
    let selected : Object :=
      [("customer", .obj [("name", .str "Ann"), ("tags", .arr [.null])]), ("k", .arr [.obj []]),
        ("id", .bool true)]
    let completed : Object :=
      [("note", .obj [("id", .null)]),
        ("customer", .obj [("name", .str "Ann"), ("address", .obj [("city", .null)]), ("tags", .arr [.null])]),
        ("k", .arr [.obj []]), ("extra", .obj []), ("id", .bool true)]
    (orderSample.DistinctOutputs ∧ (Json.obj acc).DistinctNames) ∧
      (orderSample.projectInto .strict Json.orderSample acc = selected ∧
        orderSample.projectInto .strict Json.orderSample selected = selected) ∧
      (orderSample.projectInto .absent Json.orderSample acc = completed ∧
        orderSample.projectInto .absent Json.orderSample completed = completed) := by
  intro acc selected completed
  have hd : orderSample.DistinctOutputs := by decide
  have hscalar : ∀ value : Json, value.members? = none → value.DistinctNames :=
    fun _ => Json.distinctNames_of_no_object
  have ha : (Json.obj acc).DistinctNames :=
    (((Json.distinctNames_emptyObject.set Json.distinctNames_emptyObject "note").set
      (hscalar (.bool false) rfl) "customer").set (hscalar (.arr [.obj []]) rfl) "k").set
      (hscalar .null rfl) "extra"
  have hselected : orderSample.projectInto .strict Json.orderSample acc = selected := rfl
  have hcompleted : orderSample.projectInto .absent Json.orderSample acc = completed := rfl
  have hstrict := projectInto_twice .strict hd Json.orderSample ha
  have habsent := projectInto_twice .absent hd Json.orderSample ha
  rw [hselected] at hstrict
  rw [hcompleted] at habsent
  exact ⟨⟨hd, ha⟩, ⟨hselected, hstrict⟩, hcompleted, habsent⟩

end Tree

end JsonProjection
