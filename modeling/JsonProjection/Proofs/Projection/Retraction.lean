/-
# `JsonProjection.Proofs.Projection.Retraction` -- projecting the projection.

A schema without renames, applied to what it made of a document, gives the same value again.  The second run
does not see the document.  What matched nothing is gone, or has become `null`; where strict mode pruned, an
object lacks members that the document has; where absent mode filled in a shape, a property that was no object
has become one.  So the two runs do not take the same branches, and what is compared is what the entries under
one name make of two properties: the one in the document, and the place that they made of it.

Two kinds of places occur.  At the first, nothing stands when the entries begin (`same_ask_none`).  After an
entry that copied the property, the property itself stands there and is edited in place (`same_ask_self`).
Absent mode adds a third: where the document has no property, everything that stands there was filled in, and
no entry changes it any more (`same_ask_filled`).
-/
import JsonProjection.Proofs.Json.Same
import JsonProjection.Proofs.Json.Read
import JsonProjection.Proofs.Projection.OneSource
import JsonProjection.Proofs.Projection.Idempotence

namespace JsonProjection

open JsonProjection.Json (Object Same childOf)
open JsonProjection.Projection

namespace Projection

/-! ## The object that was made -/

/-- Blocks applied to the object that they made give the same object, if that is so under every name. -/
theorem same_applyAll {mode : Mode} {members child : Object} {blocks : List Block}
    (hk : ∀ block ∈ blocks, block.tree.KeepsNames) (hm : (Json.obj members).DistinctNames)
    (hc : (Json.obj child).DistinctNames)
    (h : ∀ name, Option.Rel Same
      (ask mode (Assoc.get? name members) (Block.asks name blocks)
        (settlePlace mode (Assoc.get? name child)))
      (Assoc.get? name members)) (hne : blocks ≠ []) :
    Same (.obj (Block.applyAll mode (.obj members) blocks child)) (.obj members) := by
  refine .obj fun name => ?_
  rw [Block.get?_applyAll_of_keepsNames _ hne hk hm hc]
  exact h name

/-! ## Places that were filled in -/

/-- **What was filled in stays**: under a name without a property, nothing that was asked for changes what
absent mode has made. -/
theorem same_ask_filled (bound : Nat) {asks more : List (Option Block)} (hw : AsksWithin bound asks)
    (hmore : ∀ asked ∈ more, asked ∈ asks) {result : Option Json}
    (hresult : result = ask .absent none asks none) :
    Option.Rel Same (ask .absent result more result) result := by
  induction bound using Nat.strongRecOn generalizing asks more result with
  | _ bound ih =>
      cases asks with
      | nil =>
          obtain rfl : more = [] := List.eq_nil_iff_forall_not_mem.mpr fun a ha => nomatch hmore a ha
          exact Same.place _
      | cons asked rest =>
          cases asked with
          | none =>
              -- the first entry wrote `null`, and nothing replaces it
              have hnull : ∀ members, some Json.null ≠ some (.obj members) := fun _ => nofun
              have hresult : result = some .null := hresult.trans (ask_none_marked rest)
              rw [hresult, ask_of_no_object hnull hnull (fun _ => nofun) fun _ => .inr rfl]
              exact Same.place _
          | some block =>
              obtain ⟨below, rfl⟩ := hw.exists_succ List.mem_cons_self
              let blocks : List Block := (some block :: rest).filterMap id
              let built : Object := Block.applyAll .absent (.obj []) blocks []
              let later : List Block := sinceCopy more
              have hblocks : ∀ b ∈ blocks, some b ∈ some block :: rest := fun b hb => by
                simpa [blocks] using hb
              have hlater : ∀ b ∈ later, some b ∈ some block :: rest := fun b hb =>
                hmore _ (mem_of_mem_sinceCopy hb)
              have hempty := Json.distinctNames_emptyObject
              have hbuilt : (Json.obj built).DistinctNames := Block.distinctNames_applyAll hempty hempty
              obtain rfl : result = some (.obj built) := hresult.trans (ask_none_opened block rest)
              have hsecond : ask .absent (some (.obj built)) more (some (.obj built)) =
                  some (.obj (Block.applyAll .absent (.obj built) later built)) :=
                (ask_sinceCopy .absent (.obj built) (.inr rfl)).trans
                  (ask_blocks .absent built later built)
              rw [hsecond]
              by_cases hnone : later = []
              · rw [hnone]
                exact Same.place _
              · have hne : blocks ≠ [] := List.cons_ne_nil block _
                refine .some (same_applyAll (fun b hb => (hw b (hlater b hb)).2) hbuilt hbuilt
                  (fun name => ?_) hnone)
                -- under each name the same holds of the blocks inside
                refine ih below (Nat.lt_succ_self below) (hw.inside hblocks name) (fun asked ha => ?_)
                  (Block.get?_applyAll_of_keepsNames _ hne (fun b hb => (hw b (hblocks b hb)).2) hempty
                    hempty name)
                obtain ⟨b, hb, ha⟩ := List.mem_flatMap.mp ha
                exact List.mem_flatMap.mpr ⟨b, by simpa [blocks] using hlater b hb, ha⟩

/-! ## Places that start from a copy -/

/-- **Asked of what a copy became**: what several entries make of a property that has been copied, they make of
itself. -/
theorem same_ask_self (mode : Mode) (bound : Nat) {asks : List (Option Block)}
    (hw : AsksWithin bound asks) {property : Option Json} (hd : ∀ value ∈ property, value.DistinctNames)
    {result : Option Json} (hresult : result = ask mode property asks (settlePlace mode property)) :
    Option.Rel Same (ask mode result asks result) result := by
  induction bound using Nat.strongRecOn generalizing asks property result with
  | _ bound ih =>
      rcases Json.object_or_no_object property with ⟨members, rfl⟩ | hno
      · have hmembers : (Json.obj members).DistinctNames := hd _ rfl
        let blocks : List Block := sinceCopy asks
        let built : Object := Block.applyAll mode (.obj members) blocks members
        have hblocks : ∀ b ∈ blocks, some b ∈ asks := fun b hb => mem_of_mem_sinceCopy hb
        have hbuilt : (Json.obj built).DistinctNames := Block.distinctNames_applyAll hmembers hmembers
        have hresult : result = settlePlace mode (some (.obj built)) := by
          rw [hresult, ask_sinceCopy mode _ (.inr rfl), ask_blocks]
        rcases settlePlace_some mode (.obj built) with hsettled | ⟨rfl, hpruned⟩
        · have hsecond : ask mode (some (.obj built)) asks (some (.obj built)) =
              settlePlace mode (some (.obj (Block.applyAll mode (.obj built) blocks built))) := by
            rw [ask_sinceCopy mode _ (.inr hsettled.symm), ask_blocks]
          rw [hresult, hsettled, hsecond, ← hsettled]
          refine Same.settlePlace ?_ mode
          by_cases hnone : blocks = []
          · rw [hnone]
            exact .refl _
          · obtain ⟨block, hb⟩ := List.exists_mem_of_ne_nil blocks hnone
            obtain ⟨below, rfl⟩ := hw.exists_succ (hblocks block hb)
            have hk : ∀ b ∈ blocks, b.tree.KeepsNames := fun b hb => (hw b (hblocks b hb)).2
            refine same_applyAll hk hbuilt hbuilt (fun name => ?_) hnone
            have hname : Assoc.get? name built = _ :=
              Block.get?_applyAll_of_keepsNames _ hnone hk hmembers hmembers name
            rw [Block.settled_applyAll hmembers hmembers hnone name]
            exact ih below (Nat.lt_succ_self below) (hw.inside hblocks name)
              (fun value hv => hmembers.property hv) hname
        · -- everything was pruned away
          have hnothing : ask .strict none asks none = none := ask_strict_none nofun fun _ => rfl
          rw [hresult, hpruned, hnothing]
          exact Same.place _
      · cases property with
        | some value =>
            rw [settlePlace_of_ne (hno [])] at hresult
            have hkept : ask mode (some value) asks (some value) = some value :=
              ask_of_no_object hno hno (fun _ => nofun) fun _ => .inr rfl
            rw [hresult, hkept, hkept]
            exact Same.place _
        | none =>
            cases mode with
            | absent => exact same_ask_filled bound hw (fun _ ha => ha) hresult
            | strict =>
                have hnothing : ask .strict none asks none = none :=
                  ask_strict_none nofun fun _ => rfl
                rw [hresult, settlePlace_none, hnothing, hnothing]
                exact Same.place _

/-! ## Places where nothing stands -/

/-- **Blocks alone, one level**: if what came of nothing stays inside the blocks, it stays at the place. -/
theorem same_ask_none_of_blocks {mode : Mode} {block : Block} {rest : List (Option Block)}
    (hcopy : none ∉ some block :: rest)
    (hk : ∀ b, some b ∈ some block :: rest → b.tree.KeepsNames)
    {blocks : List Block} (hasks : blocks = (some block :: rest).filterMap id)
    (inside : ∀ name {property result : Option Json}, (∀ value ∈ property, value.DistinctNames) →
      result = ask mode property (Block.asks name blocks) none →
      Option.Rel Same (ask mode result (Block.asks name blocks) none) result)
    {property : Option Json} (hd : ∀ value ∈ property, value.DistinctNames) {result : Option Json}
    (hresult : result = ask mode property (some block :: rest) none) :
    Option.Rel Same (ask mode result (some block :: rest) none) result := by
  have hnothing : ask .strict none (some block :: rest) none = none :=
    ask_strict_none nofun fun _ => rfl
  have hne : blocks ≠ [] := hasks ▸ List.cons_ne_nil block _
  by_cases henter : mode = .strict → ∃ members, property = some (.obj members)
  · let built : Object := Block.applyAll mode (.obj (childOf property)) blocks []
    have hblocks : ∀ b ∈ blocks, b.tree.KeepsNames := fun b hb => hk b (by simpa [hasks] using hb)
    have hempty := Json.distinctNames_emptyObject
    have hsource := Json.distinctNames_childOf hd
    have hbuilt : (Json.obj built).DistinctNames := Block.distinctNames_applyAll hsource hempty
    have hresult : result = settlePlace mode (some (.obj built)) := by
      rw [hresult, ask_none_of_block, ask_object (fun h => absurd h hcopy) henter, ← hasks]
    rcases settlePlace_some mode (.obj built) with hkept | ⟨rfl, hpruned⟩
    · have hsecond : ask mode (some (.obj built)) (some block :: rest) none =
          settlePlace mode (some (.obj (Block.applyAll mode (.obj built) blocks []))) := by
        rw [ask_none_of_block, ask_object (fun h => absurd h hcopy) fun _ => ⟨built, rfl⟩,
          Json.childOf_some_obj, ← hasks]
      have hnames : ∀ name, Assoc.get? name built =
          ask mode (Assoc.get? name (childOf property)) (Block.asks name blocks) none := by
        intro name
        have hname := Block.get?_applyAll_of_keepsNames mode hne hblocks hsource hempty name
        rwa [Assoc.get?_nil, settlePlace_none] at hname
      rw [hresult, hkept, hsecond, ← hkept]
      refine Same.settlePlace (same_applyAll hblocks hbuilt hempty (fun name => ?_) hne) mode
      rw [Assoc.get?_nil, settlePlace_none]
      exact inside name (fun value hv => hsource.property hv) (hnames name)
    · -- everything was pruned away
      rw [hresult, hpruned, hnothing]
      exact Same.place _
  · -- strict mode does not enter what is no object
    obtain ⟨rfl, hno⟩ := Classical.not_imp.mp henter
    have hkept : result = none :=
      hresult.trans (ask_strict_none (fun members hm => hno ⟨members, hm⟩) fun h => absurd h hcopy)
    rw [hkept, hnothing]
    exact Same.place _

/-- **Asked of what came of nothing**: what several entries make of a property where nothing stands, they make
of itself where nothing stands. -/
theorem same_ask_none (mode : Mode) (bound : Nat) {asks : List (Option Block)}
    (hw : AsksWithin bound asks) {property : Option Json} (hd : ∀ value ∈ property, value.DistinctNames)
    {result : Option Json} (hresult : result = ask mode property asks none) :
    Option.Rel Same (ask mode result asks none) result := by
  induction bound using Nat.strongRecOn generalizing asks property result with
  | _ bound ih =>
      by_cases hcopy : none ∈ asks
      · -- after a copy it is as if the property had stood there
        have hself : result = ask mode property asks (settlePlace mode property) := by
          cases property with
          | none => rw [hresult, settlePlace_none]
          | some value => exact hresult.trans (ask_of_copy mode value hcopy _ _)
        have hagain := same_ask_self mode bound hw hd hself
        cases result with
        | none => exact hagain
        | some value => rwa [ask_of_copy mode value hcopy none (some value)]
      · cases asks with
        | nil =>
            rw [hresult]
            exact Same.place _
        | cons asked rest =>
            obtain ⟨block, rfl⟩ := Option.ne_none_iff_exists'.mp fun h =>
              hcopy (h ▸ List.mem_cons_self)
            obtain ⟨below, rfl⟩ := hw.exists_succ List.mem_cons_self
            refine same_ask_none_of_blocks hcopy (fun b hb => (hw b hb).2) rfl
              (fun name _ _ hdinner hinner => ?_) hd hresult
            exact ih below (Nat.lt_succ_self below)
              (hw.inside (fun b hb => by simpa using hb) name) hdinner hinner

end Projection

/-! ## A schema -/

namespace Schema

theorem distinctNames_result (mode : Mode) {acc : Object} (h : (Json.obj acc).DistinctNames) :
    (result mode acc).DistinctNames := by
  rcases result_eq mode acc with hobject | ⟨-, hnull⟩
  · exact hobject ▸ h
  · exact hnull ▸ Json.distinctNames_of_no_object rfl

theorem same_result {members members' : Object} (h : Same (.obj members) (.obj members')) (mode : Mode) :
    Same (result mode members) (result mode members') := by
  by_cases hnil : members' = []
  · rw [hnil, h.eq_nil_iff.mpr hnil]
    exact .refl _
  · rw [(result_eq mode members').resolve_right fun hr => hnil hr.1,
      (result_eq mode members).resolve_right fun hr => hnil (h.eq_nil_iff.mp hr.1)]
    exact h

/-- Blocks applied to the result that they made give the same object. -/
theorem same_applyAll_result {blocks : List Block} (hk : ∀ block ∈ blocks, block.tree.KeepsNames)
    {source : Json} (hs : source.DistinctNames) (mode : Mode) :
    Same (.obj (Block.applyAll mode (result mode (Block.applyAll mode source blocks [])) blocks []))
      (.obj (Block.applyAll mode source blocks [])) := by
  by_cases hne : blocks = []
  · subst hne
    exact .refl _
  · have hempty := Json.distinctNames_emptyObject
    have hfirst : (Json.obj (Block.applyAll mode source blocks [])).DistinctNames :=
      Block.distinctNames_applyAll hs hempty
    have hresult := distinctNames_result mode hfirst
    obtain ⟨bound, hw⟩ := exists_asksWithin hk
    refine .obj fun name => ?_
    have hname := Block.get?_applyAll_of_keepsNames mode hne hk hs hempty name
    rw [Assoc.get?_nil, settlePlace_none] at hname
    rw [Block.get?_applyAll_of_keepsNames mode hne hk hresult hempty, property?_result, Assoc.get?_nil,
      settlePlace_none]
    -- under each name the second run asks the same of what the first run made of it
    exact same_ask_none mode bound (hw name) (fun value hv => hs.property hv) hname

/-- **A schema without renames is a retraction**: applied to what it made of a document, in the same mode, it
gives that value again, up to the order of members. -/
theorem apply_apply (schema : Schema) (hk : ∀ tree ∈ schema.trees, tree.KeepsNames) {source : Json}
    (hs : source.DistinctNames) (mode : Mode) :
    Same (schema.apply mode (schema.apply mode source).value).value
      (schema.apply mode source).value := by
  by_cases htrees : schema.trees = []
  · -- without trees both runs return what they are given
    have hempty : schema.isEmpty = true := by simpa [isEmpty] using htrees
    simp only [apply, if_pos hempty]
    exact .refl _
  · have hblocks : ∀ block ∈ schema.blocks, block.tree.KeepsNames := fun block hb =>
      hk _ (mem_blocks hb)
    rw [value_apply htrees, value_apply htrees]
    exact same_result (same_applyAll_result hblocks hs mode) mode

/-- A schema that enters a property, copies it and enters it again, and asks for a property and a block of one
name. -/
def reentrant : Schema :=
  ⟨[.nested ⟨"a", none⟩
      (.nested ⟨"b", none⟩ (.leaf ⟨"x", none⟩ .nil) <| .leaf ⟨"y", none⟩ .nil) .nil,
    .leaf ⟨"a", none⟩ .nil,
    .nested ⟨"a", none⟩ (.nested ⟨"b", none⟩ (.leaf ⟨"x", none⟩ .nil) .nil) .nil,
    .leaf ⟨"c", none⟩ (.nested ⟨"e", none⟩ (.leaf ⟨"f", none⟩ .nil) .nil),
    .nested ⟨"c", none⟩ (.leaf ⟨"d", none⟩ .nil) .nil]⟩

/-- A document with an empty object beside what is selected, a flag where a block is asked for, and nothing
under a name that is asked for twice. -/
def partialOrder : Json :=
  .obj [("a", .obj [("b", .obj [("x", .bool true)]), ("z", .obj [])]), ("e", .bool false)]

theorem ofText?_partialOrder :
    Json.ofText? "\x7b\"a\":\x7b\"b\":\x7b\"x\":true\x7d,\"z\":\x7b\x7d\x7d,\"e\":false\x7d" = some partialOrder :=
  rfl

/-- The results of both modes are different from the document, and are given again. -/
theorem apply_apply_reentrant :
    ((compile ["a:\x7bb:\x7bx\x7d,y\x7d", "a", "a:\x7bb:\x7bx\x7d\x7d", "c,e:\x7bf\x7d", "c:\x7bd\x7d"]).value =
        .ok reentrant ∧ (∀ tree ∈ reentrant.trees, tree.KeepsNames) ∧ partialOrder.DistinctNames) ∧
      (reentrant.apply .strict partialOrder).value =
        .obj [("a", .obj [("b", .obj [("x", .bool true)])])] ∧
      Same (reentrant.apply .strict (reentrant.apply .strict partialOrder).value).value
        (reentrant.apply .strict partialOrder).value ∧
      (reentrant.apply .absent partialOrder).value =
        .obj
          [("a", .obj [("b", .obj [("x", .bool true)]), ("z", .obj [])]), ("c", .null),
            ("e", .obj [("f", .null)])] ∧
      Same (reentrant.apply .absent (reentrant.apply .absent partialOrder).value).value
        (reentrant.apply .absent partialOrder).value := by
  have hk : ∀ tree ∈ reentrant.trees, tree.KeepsNames := by decide
  have hs : partialOrder.DistinctNames := Json.distinctNames_of_ofTextWithin? ofText?_partialOrder
  exact ⟨⟨rfl, hk, hs⟩, rfl, apply_apply reentrant hk hs .strict, rfl, apply_apply reentrant hk hs .absent⟩

end Schema

end JsonProjection
