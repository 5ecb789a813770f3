/-
# `JsonProjection.Proofs.Projection.Idempotence` -- applying a tree a second time.

Strict mode applied to its own accumulator, with the same source and the same tree, changes nothing but the
order of members.  The second run does not repeat the steps of the first: where several entries write under one
name, it starts from what the last of them wrote.  But under one name two things can happen only.  Either some
entry copies a property; then what stood there before is forgotten.  Or all entries that do something enter
blocks; then they act on the object that stands there as several blocks applied one after the other, and the
second run repeats them on their own result, one level further down.
-/
import JsonProjection.Proofs.Json.Same
import JsonProjection.Proofs.Json.Read
import JsonProjection.Proofs.Projection.Place

namespace JsonProjection

open JsonProjection.Json (Object Same childOf)
open JsonProjection.Projection

/-! ## One place -/

/-- Settling does not tell apart what is the same. -/
theorem Json.Same.settlePlace {members members' : Object}
    (h : Same (.obj members) (.obj members')) (mode : Mode) :
    Option.Rel Same (settlePlace mode (some (.obj members)))
      (settlePlace mode (some (.obj members'))) := by
  cases mode with
  | absent => exact .some h
  | strict =>
      by_cases he : members = []
      · obtain rfl := h.eq_nil_iff.mp he
        subst he
        exact .none
      · have he' : members' ≠ [] := mt h.eq_nil_iff.mpr he
        rw [settlePlace_of_ne (by simpa using he), settlePlace_of_ne (by simpa using he')]
        exact .some h

namespace Projection.Request

/-- **A copy forgets**: after a property has been copied it does not matter what stood there before. -/
theorem answerAll_of_copy {mode : Mode} {requests : List Request} {value : Json}
    (h : ⟨some value, none⟩ ∈ requests) (place place' : Option Json) :
    answerAll mode requests place = answerAll mode requests place' := by
  induction requests generalizing place place' with
  | nil => cases h
  | cons request rest ih =>
      rcases List.mem_cons.mp h with rfl | h
      · rfl
      · exact ih h _ _

/-- What is no object is kept by a request that copies nothing, or is treated as nothing. -/
theorem answer_strict_of_no_object {request : Request} {place : Option Json}
    (h : request.block? = none → request.property = none)
    (hp : ∀ child, place ≠ some (.obj child)) :
    request.answer .strict place = place ∧ request.answer .strict none = none ∨
      request.answer .strict place = request.answer .strict none := by
  obtain ⟨property, block?⟩ := request
  have hsettled : settlePlace .strict place = place := settlePlace_of_ne (hp []) .strict
  cases block? with
  | none =>
      obtain rfl : property = none := h rfl
      exact .inl ⟨hsettled, rfl⟩
  | some block =>
      rcases Json.object_or_no_object property with ⟨members, rfl⟩ | hno
      · have hwrite : answer .strict ⟨some (.obj members), some block⟩ place =
            settlePlace .strict (writtenChild .strict
              (block.tree.projectInto .strict (.obj members) (childOf place)) place) := rfl
        rw [hwrite, Json.childOf_of_no_object hp, writtenChild_of_no_object hp]
        cases hc : block.tree.projectInto .strict (.obj members) [] with
        | nil =>
            left
            refine ⟨hsettled, ?_⟩
            show settlePlace .strict (writtenChild .strict
              (block.tree.projectInto .strict (.obj members) []) none) = none
            rw [hc]
            rfl
        | cons member more =>
            right
            show _ = settlePlace .strict (writtenChild .strict
              (block.tree.projectInto .strict (.obj members) []) none)
            rw [hc]
            rfl
      · left
        simp only [answer, write_of_no_object hno, hsettled, settlePlace_none, and_self]

/-- What is no object stays through requests that copy nothing, or ends as nothing would. -/
theorem answerAll_strict_of_no_object {requests : List Request} {place : Option Json}
    (h : ∀ request ∈ requests, request.block? = none → request.property = none)
    (hp : ∀ child, place ≠ some (.obj child)) :
    answerAll .strict requests place = place ∨
      answerAll .strict requests place = answerAll .strict requests none := by
  induction requests with
  | nil => exact .inl rfl
  | cons request rest ih =>
      obtain ⟨hrequest, hrest⟩ := List.forall_mem_cons.mp h
      rw [answerAll_cons, answerAll_cons]
      rcases answer_strict_of_no_object hrequest hp with ⟨hkept, hnone⟩ | hsame
      · rw [hkept, hnone]
        exact ih hrest
      · exact .inr (by rw [hsame])

/-- **Answering twice**: if the jobs of the requests can be repeated on every object, the requests can be
repeated at every settled place. -/
theorem answerAll_twice {requests : List Request}
    (hrepeat : ∀ child, (Json.obj child).DistinctNames →
      Same (.obj (Job.runAll .strict (jobs .strict requests)
          (Job.runAll .strict (jobs .strict requests) child)))
        (.obj (Job.runAll .strict (jobs .strict requests) child)))
    {place : Option Json} (hplace : settlePlace .strict place = place)
    (hd : ∀ value ∈ place, value.DistinctNames) :
    Option.Rel Same (answerAll .strict requests (answerAll .strict requests place))
      (answerAll .strict requests place) := by
  by_cases hcopy : ∃ value, ⟨some value, none⟩ ∈ requests
  · obtain ⟨value, hcopy⟩ := hcopy
    rw [answerAll_of_copy hcopy _ place]
    exact Same.place _
  · have hno : ∀ request ∈ requests, request.block? = none → request.property = none := by
      rintro ⟨property, block?⟩ hr rfl
      cases property with
      | none => rfl
      | some value => exact absurd ⟨value, hr⟩ hcopy
    -- nothing at the place is an empty object that is about to be pruned
    have hobject : ∀ child, (Json.obj child).DistinctNames →
        Option.Rel Same
          (answerAll .strict requests
            (answerAll .strict requests (settlePlace .strict (some (.obj child)))))
          (answerAll .strict requests (settlePlace .strict (some (.obj child)))) := by
      intro child hchild
      rw [answerAll_object hno, answerAll_object hno]
      exact (hrepeat child hchild).settlePlace .strict
    rcases Json.object_or_no_object place with ⟨child, rfl⟩ | hscalar
    · have := hobject child (hd _ rfl)
      rwa [hplace] at this
    · rcases answerAll_strict_of_no_object hno hscalar with hkept | hnone
      · rw [hkept, hkept]
        exact Same.place _
      · rw [hnone]
        exact hobject [] Json.distinctNames_emptyObject

end Projection.Request

/-! ## Whole runs -/

/-- **The jobs twice**: several blocks, each applied to its source, can be repeated on their own result. -/
theorem Projection.Job.runAll_twice (bound : Nat) {jobs : List Job}
    (hbound : ∀ job ∈ jobs, job.block.tree.nesting < bound)
    (hs : ∀ job ∈ jobs, job.source.DistinctNames) {acc : Object}
    (ha : (Json.obj acc).DistinctNames) :
    Same (.obj (runAll .strict jobs (runAll .strict jobs acc))) (.obj (runAll .strict jobs acc)) := by
  induction bound generalizing jobs acc with
  | zero =>
      cases jobs with
      | nil => exact .refl _
      | cons job rest => exact absurd (hbound job List.mem_cons_self) (Nat.not_lt_zero _)
  | succ bound ih =>
      by_cases hempty : jobs = []
      · subst hempty
        exact .refl _
      · have hrun : (Json.obj (runAll .strict jobs acc)).DistinctNames := distinctNames_runAll hs ha
        have honce : Settled .strict (runAll .strict jobs acc) :=
          settled_runAll hs ha fun h => absurd h hempty
        have htwice : Settled .strict (runAll .strict jobs (runAll .strict jobs acc)) :=
          settled_runAll hs hrun fun h => absurd h hempty
        refine .obj fun name => ?_
        have hfirst : Assoc.get? name (runAll .strict jobs acc) =
            Request.answerAll .strict (requests name jobs)
              (settlePlace .strict (Assoc.get? name acc)) :=
          (honce name).symm.trans (get?_runAll hs ha name)
        -- at each place the second run answers the same requests again
        have hsecond : Assoc.get? name (runAll .strict jobs (runAll .strict jobs acc)) =
            Request.answerAll .strict (requests name jobs)
              (Assoc.get? name (runAll .strict jobs acc)) := by
          rw [← htwice name, get?_runAll hs hrun, honce name]
        rw [hsecond, hfirst]
        refine Request.answerAll_twice (fun child hchild => ?_) (settlePlace_settlePlace .strict _)
          fun value hv => (Json.distinctNames_obj_iff.mp ha).2 name value (mem_of_mem_settlePlace hv)
        -- the jobs inside the place nest less deep
        refine ih (fun job hjob => ?_) (fun job hjob => ?_) hchild
        · obtain ⟨around, ha, hlt, -⟩ := exists_outer hjob
          have hb := hbound around ha
          omega
        · obtain ⟨around, ha, -, hd⟩ := exists_outer hjob
          exact hd (hs around ha)

/-- **Strict projection into an accumulator is idempotent**: a second run with the same source and the same
tree leaves the accumulator as it is, up to the order of its members. -/
theorem Tree.projectInto_strict_twice (tree : Tree) {source : Json} (hs : source.DistinctNames)
    {acc : Object} (ha : (Json.obj acc).DistinctNames) :
    Same (.obj (tree.projectInto .strict source (tree.projectInto .strict source acc)))
      (.obj (tree.projectInto .strict source acc)) := by
  by_cases hempty : tree = .nil
  · subst hempty
    exact .refl _
  · -- the tree is a single job
    let job : Job := ⟨source, ⟨tree, hempty⟩⟩
    have hbound : ∀ other ∈ [job], other.block.tree.nesting < tree.nesting + 1 := by simp [job]
    have hsource : ∀ other ∈ [job], other.source.DistinctNames := by simpa [job] using hs
    exact Job.runAll_twice (tree.nesting + 1) hbound hsource ha

/-- Three entries, of which the first two write under one name: a property, and a block of another. -/
def Tree.contested : Tree :=
  .leaf ⟨"a", some "o"⟩ <|
    .nested ⟨"b", some "o"⟩ (.leaf ⟨"p", some "q"⟩ <| .leaf ⟨"r", none⟩ .nil) <|
      .leaf ⟨"c", some "z"⟩ .nil

/-- A document in which the property is an empty object, which takes away what stands under the name, and the
block finds something. -/
def Json.contest : Json :=
  .obj [("a", .obj []), ("b", .obj [("p", .bool true), ("r", .obj [])]), ("c", .null)]

theorem Json.ofText?_contest :
    ofText? "\x7b\"a\":\x7b\x7d,\"b\":\x7b\"p\":true,\"r\":\x7b\x7d\x7d,\"c\":null\x7d" = some contest := rfl

/-- The second run moves a member to the end and changes nothing else. -/
theorem Tree.projectInto_strict_twice_contested :
    let acc : Object := [("o", .bool false), ("k", .obj [])]
    let once := contested.projectInto .strict Json.contest acc
    let twice := contested.projectInto .strict Json.contest once
    (Json.contest.DistinctNames ∧ (Json.obj acc).DistinctNames) ∧
      once = [("o", .obj [("q", .bool true)]), ("z", .null)] ∧
      twice = [("z", .null), ("o", .obj [("q", .bool true)])] ∧ Same (.obj twice) (.obj once) := by
  intro acc once twice
  have hs : Json.contest.DistinctNames := Json.distinctNames_of_ofTextWithin? Json.ofText?_contest
  have ha : (Json.obj acc).DistinctNames :=
    (Json.distinctNames_emptyObject.set (Json.distinctNames_of_no_object rfl) "o").set
      Json.distinctNames_emptyObject "k"
  exact ⟨⟨hs, ha⟩, rfl, rfl, contested.projectInto_strict_twice hs ha⟩

end JsonProjection
