/-
# `JsonProjection.Proofs.Projection.OneSource` -- several blocks applied to one source.

The trees of a schema are applied to the same source.  Without renames, all entries that write under a name
read the property of that name, so at every place, however deep, one property is asked for by all requests;
and the same is true, with renames, of a source that owns nothing.  Then the requests for a name are given by
the property and by what is asked of it, a list of blocks and copies (`ask`).

A copy forgets what stood there before, so of such a list the blocks after the last copy matter
(`ask_sinceCopy`).  Blocks alone build one object, each going on where the one before it stopped
(`ask_object`); and what is no object is not entered (`ask_of_no_object`).
-/
import JsonProjection.Proofs.Projection.Place

namespace JsonProjection

open JsonProjection.Json (Object childOf)
open JsonProjection.Projection

/-! ## Trees without renames -/

namespace Tree

/-- **No renames**: on every level the output name of every entry is the name of its property. -/
def KeepsNames (tree : Tree) : Prop :=
  tree.EveryLevel fun level => ∀ key ∈ Assoc.keys level.entries, key.output = key.name

instance (tree : Tree) : Decidable tree.KeepsNames := inferInstanceAs (Decidable (tree.EveryLevel _))

theorem KeepsNames.of_mem_steps {tree : Tree} (h : tree.KeepsNames) {step : Step} {block : Block}
    (hs : step ∈ tree.steps) (hb : step.block? = some block) : block.tree.KeepsNames := by
  obtain ⟨key, _⟩ := step
  cases hb
  exact inBlocks_iff.mp h.2 key block.tree (mem_steps_iff.mp hs)

/-- Where all entries that write under a name find the same property, the requests are what is asked of
it. -/
theorem requests_eq_map_asks {tree : Tree} {name : String} {source : Json} {property : Option Json}
    (h : ∀ step ∈ tree.steps, step.key.output = name → source.property? step.key.name = property) :
    tree.requests name source = (tree.asks name).map (Request.mk property) := by
  rw [requests, asks, List.map_map]
  refine List.map_congr_left fun step hs => ?_
  obtain ⟨hs, hname⟩ := List.mem_filter.mp hs
  show Request.mk _ _ = Request.mk _ _
  rw [h step hs (of_decide_eq_true hname)]

theorem KeepsNames.requests_eq {tree : Tree} (h : tree.KeepsNames) (name : String) (source : Json) :
    tree.requests name source = (tree.asks name).map (Request.mk (source.property? name)) := by
  refine requests_eq_map_asks fun step hs hname => ?_
  rw [← h.1 step.key (key_mem_of_mem_steps hs), hname]

end Tree

/-! ## Blocks one after the other -/

namespace Block

/-- The blocks applied to the source, one after the other, all on one object. -/
def applyAll (mode : Mode) (source : Json) (blocks : List Block) (acc : Object) : Object :=
  Job.runAll mode (blocks.map (Job.mk source)) acc

theorem applyAll_append (mode : Mode) (source : Json) (blocks more : List Block) (acc : Object) :
    applyAll mode source (blocks ++ more) acc =
      applyAll mode source more (applyAll mode source blocks acc) := by
  simp only [applyAll, Job.runAll, List.map_append, List.foldl_append]

/-- What the blocks ask for under a name. -/
def asks (name : String) (blocks : List Block) : List (Option Block) :=
  blocks.flatMap fun block => block.tree.asks name

variable {mode : Mode} {source : Json} {blocks : List Block} {acc : Object}

theorem distinctNames_applyAll (hs : source.DistinctNames) (ha : (Json.obj acc).DistinctNames) :
    (Json.obj (applyAll mode source blocks acc)).DistinctNames := by
  refine Job.distinctNames_runAll (fun job hjob => ?_) ha
  obtain ⟨block, -, rfl⟩ := List.mem_map.mp hjob
  exact hs

/-- **A name followed through several blocks** whose entries find the same property under it. -/
theorem get?_applyAll (hs : source.DistinctNames) (ha : (Json.obj acc).DistinctNames) {name : String}
    {property : Option Json}
    (hread : ∀ block ∈ blocks,
      block.tree.requests name source = (block.tree.asks name).map (Request.mk property)) :
    settlePlace mode (Assoc.get? name (applyAll mode source blocks acc)) =
      Request.answerAll mode ((asks name blocks).map (Request.mk property))
        (settlePlace mode (Assoc.get? name acc)) := by
  have hrequests : Job.requests name (blocks.map (Job.mk source)) =
      (asks name blocks).map (Request.mk property) := by
    rw [Job.requests, asks, List.flatMap_map, List.map_flatMap, List.flatMap_def, List.flatMap_def,
      List.map_congr_left hread]
  rw [← hrequests]
  refine Job.get?_runAll (fun job hjob => ?_) ha name
  obtain ⟨block, -, rfl⟩ := List.mem_map.mp hjob
  exact hs

theorem settled_applyAll (hs : source.DistinctNames) (ha : (Json.obj acc).DistinctNames)
    (h : blocks ≠ []) : Settled mode (applyAll mode source blocks acc) := by
  refine Job.settled_runAll (fun job hjob => ?_) ha fun hnil => absurd (List.map_eq_nil_iff.mp hnil) h
  obtain ⟨block, -, rfl⟩ := List.mem_map.mp hjob
  exact hs

end Block

/-- The trees of a schema are applied as its blocks are; a tree without entries does nothing. -/
theorem Schema.projectTrees_eq_applyAll (mode : Mode) (source : Json) (trees : List Tree)
    (acc : Object) :
    (projectTrees mode source trees acc).value =
      Block.applyAll mode source (trees.filterMap Tree.toBlock?) acc := by
  induction trees generalizing acc with
  | nil => rfl
  | cons tree rest ih =>
      show (projectTrees mode source rest (tree.projectInto mode source acc)).value = _
      rw [ih]
      by_cases hempty : tree = .nil
      · subst hempty
        rfl
      · rw [List.filterMap_cons, Tree.toBlock?_of_ne_nil hempty]
        rfl

/-- The trees of a schema that have an entry, in order. -/
def Schema.blocks (schema : Schema) : List Block := schema.trees.filterMap Tree.toBlock?

theorem Schema.mem_blocks {schema : Schema} {block : Block} (h : block ∈ schema.blocks) :
    block.tree ∈ schema.trees := by
  obtain ⟨tree, ht, hblock⟩ := List.mem_filterMap.mp h
  exact Tree.eq_of_toBlock?_eq_some hblock ▸ ht

/-- A schema with a tree is applied by its blocks, to the empty object at first. -/
theorem Schema.value_apply {schema : Schema} (h : schema.trees ≠ []) (mode : Mode) (source : Json) :
    (schema.apply mode source).value =
      result mode (Block.applyAll mode source schema.blocks []) := by
  have hempty : ¬schema.isEmpty = true := by simpa [isEmpty] using h
  rw [blocks, ← projectTrees_eq_applyAll]
  simp only [apply, if_neg hempty, fold, Log.Logged.value_bind, Log.Logged.value_pure]

/-- A result is the accumulator, or `null` instead of one without members. -/
theorem Schema.result_eq (mode : Mode) (acc : Object) :
    result mode acc = .obj acc ∨ acc = [] ∧ result mode acc = .null := by
  cases mode with
  | strict => exact .inl rfl
  | absent =>
      cases acc with
      | nil => exact .inr ⟨rfl, rfl⟩
      | cons member more => exact .inl rfl

/-- A result owns what the accumulator holds; `null` owns nothing, as an accumulator without members. -/
theorem Schema.property?_result (mode : Mode) (acc : Object) (name : String) :
    (result mode acc).property? name = Assoc.get? name acc := by
  rcases result_eq mode acc with hobject | ⟨rfl, hnull⟩
  · rw [hobject]
    rfl
  · rw [hnull]
    rfl

/-! ## What is asked of one property -/

namespace Projection

/-- **What several entries make of a place**, all of which find the same property. -/
def ask (mode : Mode) (property : Option Json) (asks : List (Option Block)) (place : Option Json) :
    Option Json :=
  Request.answerAll mode (asks.map (Request.mk property)) place

@[simp] theorem ask_nil (mode : Mode) (property place : Option Json) :
    ask mode property [] place = place := rfl

@[simp] theorem ask_cons (mode : Mode) (property : Option Json) (asked : Option Block)
    (rest : List (Option Block)) (place : Option Json) :
    ask mode property (asked :: rest) place =
      ask mode property rest (Request.answer mode ⟨property, asked⟩ place) := rfl

end Projection

/-- **A name followed through blocks without renames**: under every name its property is asked for. -/
theorem Block.get?_applyAll_of_keepsNames (mode : Mode) {source : Json} {blocks : List Block}
    {acc : Object} (hne : blocks ≠ []) (hk : ∀ block ∈ blocks, block.tree.KeepsNames)
    (hs : source.DistinctNames) (ha : (Json.obj acc).DistinctNames) (name : String) :
    Assoc.get? name (applyAll mode source blocks acc) =
      ask mode (source.property? name) (asks name blocks)
        (settlePlace mode (Assoc.get? name acc)) := by
  rw [← settled_applyAll hs ha hne name]
  exact get?_applyAll hs ha fun block hb => (hk block hb).requests_eq name source

namespace Projection

/-! ### Blocks of bounded nesting -/

/-- The blocks that are asked for nest less deep than the bound, and rename nothing. -/
def AsksWithin (bound : Nat) (asks : List (Option Block)) : Prop :=
  ∀ block, some block ∈ asks → block.tree.nesting < bound ∧ block.tree.KeepsNames

/-- **One level further down** the bound is smaller. -/
theorem AsksWithin.inside {bound : Nat} {asks : List (Option Block)} (h : AsksWithin (bound + 1) asks)
    {blocks : List Block} (hb : ∀ block ∈ blocks, some block ∈ asks) (name : String) :
    AsksWithin bound (Block.asks name blocks) := by
  intro inner hi
  obtain ⟨block, hblock, hi⟩ := List.mem_flatMap.mp hi
  obtain ⟨step, hs, -, hi⟩ := Tree.mem_asks_iff.mp hi
  obtain ⟨hlt, hk⟩ := h block (hb block hblock)
  have hinner := Tree.nesting_lt_of_mem_steps hs hi
  exact ⟨by omega, hk.of_mem_steps hs hi⟩

/-- A bound on blocks that are there is positive. -/
theorem AsksWithin.exists_succ {bound : Nat} {asks : List (Option Block)} (h : AsksWithin bound asks)
    {block : Block} (hb : some block ∈ asks) : ∃ below, bound = below + 1 := by
  have hlt := (h block hb).1
  exact ⟨bound - 1, by omega⟩

/-- Every list of blocks has a bound. -/
theorem exists_nesting_lt (blocks : List Block) :
    ∃ bound, ∀ block ∈ blocks, block.tree.nesting < bound := by
  induction blocks with
  | nil => exact ⟨0, nofun⟩
  | cons block rest ih =>
      obtain ⟨bound, h⟩ := ih
      refine ⟨bound + block.tree.nesting + 1, List.forall_mem_cons.mpr ⟨by omega, fun b hb => ?_⟩⟩
      have hrest := h b hb
      omega

/-- Under every name, what several blocks ask for has one bound. -/
theorem exists_asksWithin {blocks : List Block} (hk : ∀ block ∈ blocks, block.tree.KeepsNames) :
    ∃ bound, ∀ name, AsksWithin bound (Block.asks name blocks) := by
  obtain ⟨bound, hbound⟩ := exists_nesting_lt blocks
  have hw : AsksWithin (bound + 1) (blocks.map some) := by
    intro block hb
    have hb : block ∈ blocks := by simpa using hb
    exact ⟨Nat.lt_succ_of_lt (hbound block hb), hk block hb⟩
  exact ⟨bound, hw.inside fun block hb => List.mem_map.mpr ⟨block, hb, rfl⟩⟩

/-! ### Copies -/

/-- **The blocks that are asked for after the last copy.** -/
def sinceCopy : List (Option Block) → List Block
  | [] => []
  | none :: rest => sinceCopy rest
  | some block :: rest => if rest.all Option.isSome then block :: sinceCopy rest else sinceCopy rest

theorem all_isSome_iff {asks : List (Option Block)} : asks.all Option.isSome = true ↔ none ∉ asks := by
  induction asks with
  | nil => simp
  | cons asked rest ih => cases asked <;> simp [ih]

theorem mem_of_mem_sinceCopy {asks : List (Option Block)} {block : Block}
    (h : block ∈ sinceCopy asks) : some block ∈ asks := by
  induction asks with
  | nil => cases h
  | cons asked rest ih =>
      cases asked with
      | none => exact List.mem_cons_of_mem _ (ih h)
      | some first =>
          rw [sinceCopy] at h
          split at h
          case isTrue =>
            rcases List.mem_cons.mp h with rfl | h
            · exact List.mem_cons_self
            · exact List.mem_cons_of_mem _ (ih h)
          case isFalse => exact List.mem_cons_of_mem _ (ih h)

/-- Without a copy all blocks are asked for after the last one. -/
theorem map_some_sinceCopy {asks : List (Option Block)} (h : none ∉ asks) :
    (sinceCopy asks).map some = asks := by
  induction asks with
  | nil => rfl
  | cons asked rest ih =>
      rw [List.mem_cons, not_or] at h
      cases asked with
      | none => exact absurd rfl h.1
      | some block => rw [sinceCopy, if_pos (all_isSome_iff.mpr h.2), List.map_cons, ih h.2]

/-- **A copy forgets**: of a property that is there, what is asked for after the last copy is all that
matters, and the copy is where it starts from. -/
theorem ask_sinceCopy (mode : Mode) (value : Json) {asks : List (Option Block)} {place : Option Json}
    (h : none ∈ asks ∨ place = settlePlace mode (some value)) :
    ask mode (some value) asks place =
      ask mode (some value) ((sinceCopy asks).map some) (settlePlace mode (some value)) := by
  induction asks generalizing place with
  | nil =>
      rcases h with h | rfl
      · cases h
      · rfl
  | cons asked rest ih =>
      by_cases hrest : none ∈ rest
      · have hlast : sinceCopy (asked :: rest) = sinceCopy rest := by
          cases asked with
          | none => rfl
          | some block => rw [sinceCopy, if_neg fun hall => all_isSome_iff.mp hall hrest]
        rw [hlast, ask_cons]
        exact ih (.inl hrest)
      · cases asked with
        | none =>
            -- this is the last copy
            rw [sinceCopy, map_some_sinceCopy hrest]
            rfl
        | some block =>
            have hno : none ∉ some block :: rest := by simpa using hrest
            rw [map_some_sinceCopy hno, h.resolve_left hno]

/-- After a copy it does not matter what stood there. -/
theorem ask_of_copy (mode : Mode) (value : Json) {asks : List (Option Block)} (h : none ∈ asks)
    (place place' : Option Json) :
    ask mode (some value) asks place = ask mode (some value) asks place' :=
  (ask_sinceCopy mode value (.inl h)).trans (ask_sinceCopy mode value (.inl h)).symm

/-! ### Objects -/

/-- **Blocks build one object**: where a property is entered and none is copied, the blocks are applied to the
property, one after the other, going on inside the object that stands at the place. -/
theorem ask_object {mode : Mode} {property : Option Json} {asks : List (Option Block)}
    (hcopy : none ∈ asks → property = none)
    (henter : mode = .strict → ∃ members, property = some (.obj members)) (child : Object) :
    ask mode property asks (settlePlace mode (some (.obj child))) =
      settlePlace mode
        (some (.obj (Block.applyAll mode (.obj (childOf property)) (asks.filterMap id) child))) := by
  have hjob : ∀ block, Request.job? mode ⟨property, some block⟩ =
      some ⟨.obj (childOf property), block⟩ := by
    intro block
    rcases Json.object_or_no_object property with ⟨members, rfl⟩ | hno
    · rfl
    · rw [Request.job?_of_no_object hno, Json.childOf_of_no_object hno]
      cases mode with
      | strict =>
          obtain ⟨members, hm⟩ := henter rfl
          exact absurd hm (hno members)
      | absent => rfl
  have hjobs : Request.jobs mode (asks.map (Request.mk property)) =
      (asks.filterMap id).map (Job.mk (.obj (childOf property))) := by
    rw [Request.jobs]
    clear hcopy
    induction asks with
    | nil => rfl
    | cons asked rest ih =>
        cases asked with
        | none =>
            rw [List.map_cons, List.filterMap_cons, List.filterMap_cons, ih]
            cases property with
            | none => rfl
            | some value => cases value <;> rfl
        | some block =>
            rw [List.map_cons, List.filterMap_cons, List.filterMap_cons, hjob, ih]
            rfl
  rw [Block.applyAll, ← hjobs]
  refine Request.answerAll_object (fun request hr hblock => ?_) child
  obtain ⟨asked, ha, rfl⟩ := List.mem_map.mp hr
  exact hcopy (hblock ▸ ha)

/-- Blocks that are asked of an object. -/
theorem ask_blocks (mode : Mode) (members : Object) (blocks : List Block) (child : Object) :
    ask mode (some (.obj members)) (blocks.map some) (settlePlace mode (some (.obj child))) =
      settlePlace mode (some (.obj (Block.applyAll mode (.obj members) blocks child))) := by
  have hblocks : (blocks.map some).filterMap id = blocks := by
    rw [List.filterMap_map]
    exact List.filterMap_some
  have hno : none ∉ blocks.map some := by simp
  rw [ask_object (fun h => absurd h hno) (fun _ => ⟨members, rfl⟩), hblocks, Json.childOf_some_obj]

/-- A block that finds nothing starts from the empty object. -/
theorem ask_none_of_block (mode : Mode) (property : Option Json) (block : Block)
    (rest : List (Option Block)) :
    ask mode property (some block :: rest) none =
      ask mode property (some block :: rest) (settlePlace mode (some (.obj []))) := by
  cases mode with
  | strict => rfl
  | absent =>
      have hfirst : Request.answer .absent ⟨property, some block⟩ none =
          Request.answer .absent ⟨property, some block⟩ (some (.obj [])) := by
        cases property with
        | none => rfl
        | some value => cases value <;> rfl
      rw [ask_cons, hfirst]
      rfl

/-- **What is no object is not entered**: if the property is no object, what stands at the place and is no
object stays. -/
theorem ask_of_no_object {mode : Mode} {property : Option Json} {asks : List (Option Block)}
    {place : Option Json} (hproperty : ∀ members, property ≠ some (.obj members))
    (hplace : ∀ child, place ≠ some (.obj child)) (hthere : mode = .absent → place ≠ none)
    (hcopy : none ∈ asks → property = none ∨ property = place) :
    ask mode property asks place = place := by
  have hsettled : settlePlace mode place = place := settlePlace_of_ne (hplace []) mode
  have hblock : ∀ block, Request.answer mode ⟨property, some block⟩ place = place := by
    intro block
    rw [Request.answer, Request.write_of_no_object hproperty]
    cases mode with
    | strict => exact hsettled
    | absent =>
        cases place with
        | none => exact absurd rfl (hthere rfl)
        | some value =>
            cases value with
            | obj child => exact absurd rfl (hplace child)
            | _ => rfl
  have hcopied : none ∈ asks → Request.answer mode ⟨property, none⟩ place = place := by
    intro hm
    cases hp : property with
    | some value =>
        -- the copy is what stands there already
        have hsame : some value = place := hp ▸ (hcopy hm).resolve_left (by simp [hp])
        rw [← hsame] at hsettled ⊢
        exact hsettled
    | none =>
        cases mode with
        | strict => exact hsettled
        | absent =>
            obtain ⟨value, rfl⟩ := Option.ne_none_iff_exists'.mp (hthere rfl)
            rfl
  induction asks with
  | nil => rfl
  | cons asked rest ih =>
      have hfirst : Request.answer mode ⟨property, asked⟩ place = place := by
        cases asked with
        | none => exact hcopied List.mem_cons_self
        | some block => exact hblock block
      rw [ask_cons, hfirst]
      exact ih (fun h => hcopy (List.mem_cons_of_mem _ h))
        fun h => hcopied (List.mem_cons_of_mem _ h)

/-- In strict mode nothing comes of nothing. -/
theorem ask_strict_none {property : Option Json} {asks : List (Option Block)}
    (hproperty : ∀ members, property ≠ some (.obj members)) (hcopy : none ∈ asks → property = none) :
    ask .strict property asks none = none :=
  ask_of_no_object hproperty (fun _ => nofun) nofun fun h => .inl (hcopy h)

/-! ### No property -/

/-- **A leaf that comes first** marks a place without a property, and the marker stays. -/
theorem ask_none_marked (rest : List (Option Block)) :
    ask .absent none (none :: rest) none = some .null :=
  show ask .absent none rest (some .null) = some .null from
    ask_of_no_object (fun _ => nofun) (fun _ => nofun) (fun _ => nofun) fun _ => .inl rfl

/-- **A block that comes first** makes an object of a place without a property, and all blocks fill it. -/
theorem ask_none_opened (block : Block) (rest : List (Option Block)) :
    ask .absent none (some block :: rest) none =
      some (.obj (Block.applyAll .absent (.obj []) (block :: rest.filterMap id) [])) := by
  have habsent : Mode.absent = .strict → ∃ members, (none : Option Json) = some (.obj members) := nofun
  rw [ask_none_of_block, ask_object (fun _ => rfl) habsent]
  rfl

end Projection

end JsonProjection
