/-
# `JsonProjection.Proofs.Projection.Extension` -- what a further tree leaves of a result.

A further tree of a schema adds to what the trees before it have made, and takes nothing away that it selects
itself: without renames, what it writes is the property that the others read.  But strict mode prunes every
object that a block enters, the whole object and not only what the block selects.  So an empty object that an
earlier tree copied with the object around it is lost when a block enters that object; and with it, what holds
nothing but such objects.

`Swept` says what is lost in this way.  Of the values of a result, those stay that the further tree selects or
that are not swept, and no others (`Schema.apply_strict_extended`).
-/
import JsonProjection.Proofs.Json.Grows
import JsonProjection.Proofs.Json.Read
import JsonProjection.Proofs.Projection.OneSource

namespace JsonProjection

open JsonProjection.Json (Object Grows childOf at?)
open JsonProjection.Projection

/-! ## A result is part of the source -/

/-- What settling leaves is part of the place. -/
theorem Json.Grows.settled {before after : Option Json} (h : Grows before after) (mode : Mode) :
    Grows (settlePlace mode before) after := by
  cases before with
  | none => exact (settlePlace_none mode).symm ▸ h
  | some value =>
      rcases settlePlace_some mode value with hkept | ⟨-, hgone⟩
      · exact hkept.symm ▸ h
      · exact hgone.symm ▸ .of_none after

namespace Projection

/-- **An object edited** by the blocks that enter it, as it stands at its place afterwards: strict mode prunes it
if nothing is left. -/
def edited (members : Object) (blocks : List Block) (child : Object) : Option Json :=
  settlePlace .strict (some (.obj (Block.applyAll .strict (.obj members) blocks child)))

/-- Where nothing is copied, the object that stands at the place is edited. -/
theorem ask_object_of_no_copy (members : Object) {asks : List (Option Block)} (h : none ∉ asks)
    (child : Object) :
    ask .strict (some (.obj members)) asks (settlePlace .strict (some (.obj child))) =
      edited members (sinceCopy asks) child := by
  rw [edited, ← ask_blocks, map_some_sinceCopy h]

/-- Where the property is copied, the copy is edited by the blocks after the last copy. -/
theorem ask_object_of_copy (members : Object) {asks : List (Option Block)} (h : none ∈ asks)
    (place : Option Json) :
    ask .strict (some (.obj members)) asks place = edited members (sinceCopy asks) members := by
  rw [edited, ask_sinceCopy .strict _ (.inl h), ask_blocks]

/-- What strict mode makes of a property that is no object is the property, or what stood there. -/
theorem ask_strict_of_no_object {property place : Option Json} {asks : List (Option Block)}
    (hproperty : ∀ members, property ≠ some (.obj members))
    (hplace : ∀ child, place ≠ some (.obj child)) :
    ask .strict property asks place = property ∨ ask .strict property asks place = place := by
  by_cases hcopy : none ∈ asks → property = none
  · exact .inr (ask_of_no_object hproperty hplace nofun fun h => .inl (hcopy h))
  · obtain ⟨hcopied, hsome⟩ := Classical.not_imp.mp hcopy
    obtain ⟨value, rfl⟩ := Option.ne_none_iff_exists'.mp hsome
    have hsettled := settlePlace_of_ne (hproperty []) .strict
    rw [ask_sinceCopy .strict value (.inl hcopied), hsettled]
    exact .inl (ask_of_no_object hproperty hproperty nofun fun _ => .inr rfl)

/-- **What strict mode makes of a part of a property is part of it.** -/
theorem grows_ask (bound : Nat) {asks : List (Option Block)} (hw : AsksWithin bound asks)
    {property place : Option Json} (hd : ∀ value ∈ property, value.DistinctNames)
    (hp : ∀ value ∈ place, value.DistinctNames) (hsettled : settlePlace .strict place = place)
    (h : Grows place property) : Grows (ask .strict property asks place) property := by
  induction bound using Nat.strongRecOn generalizing asks property place with
  | _ bound ih =>
      rcases Json.object_or_no_object property with ⟨members, rfl⟩ | hproperty
      · let inner : List Block := sinceCopy asks
        -- the object that is edited: a copy of the property, or the object that stands there
        have hedited : ∃ child, Grows (some (.obj child)) (some (.obj members)) ∧
            (Json.obj child).DistinctNames ∧
            ask .strict (some (.obj members)) asks place = edited members inner child := by
          by_cases hcopy : none ∈ asks
          · exact ⟨members, .refl _, hd _ rfl, ask_object_of_copy members hcopy place⟩
          · have hplace : settlePlace .strict (some (.obj (childOf place))) = place := by
              cases place with
              | none => rfl
              | some value =>
                  cases value with
                  | obj child => exact hsettled
                  | _ => cases h.eq_of_no_object rfl
            refine ⟨childOf place, .obj h.member, Json.distinctNames_childOf hp, ?_⟩
            rw [← ask_object_of_no_copy members hcopy, hplace]
        obtain ⟨child, hpart, hc, hask⟩ := hedited
        rw [hask]
        refine Grows.settled ?_ .strict
        by_cases hnone : inner = []
        · rw [hnone]
          exact hpart
        · obtain ⟨block, hb⟩ := List.exists_mem_of_ne_nil inner hnone
          have hasked : ∀ block ∈ inner, some block ∈ asks := fun _ => mem_of_mem_sinceCopy
          obtain ⟨below, rfl⟩ := hw.exists_succ (hasked block hb)
          refine .obj fun name => ?_
          rw [Block.get?_applyAll_of_keepsNames .strict hnone (fun b hb => (hw b (hasked b hb)).2)
            (hd _ rfl) hc]
          exact ih below (Nat.lt_succ_self below) (hw.inside hasked name)
            (fun value hv => (hd _ rfl).property hv)
            (fun value hv => hc.property (mem_of_mem_settlePlace hv)) (settlePlace_settlePlace _ _)
            ((hpart.member name).settled .strict)
      · have hplace : ∀ child, place ≠ some (.obj child) := by
          rintro child rfl
          obtain ⟨members, hm⟩ := h.exists_members
          exact hproperty members hm
        have hask : ask .strict property asks place = property ∨ ask .strict property asks place = place :=
          ask_strict_of_no_object hproperty hplace
        rcases hask with hask | hask
        · rw [hask]
          exact .refl _
        · rw [hask]
          exact h

end Projection

/-! ## What is swept away -/

namespace Block

/-- **Swept away**: what stands under a name in an object that the blocks are applied to, and is an empty
object, or holds nothing but what is swept by the blocks inside. -/
inductive Swept : List Block → String → Json → Prop
  | empty {blocks : List Block} {name : String} : blocks ≠ [] → Swept blocks name (.obj [])
  | object {blocks : List Block} {name : String} {members : Object} : members ≠ [] →
      (∀ inner value, Assoc.get? inner members = some value →
        Swept (sinceCopy (asks name blocks)) inner value) →
      Swept blocks name (.obj members)

/-- **The blocks inside**: those that are applied to the object at a path. -/
def inside : List Block → List String → List Block
  | blocks, [] => blocks
  | blocks, name :: path => inside (sinceCopy (asks name blocks)) path

theorem inside_nil (path : List String) : inside [] path = [] := by
  induction path with
  | nil => rfl
  | cons name path ih => exact ih

variable {blocks : List Block} {name : String} {value : Json}

/-- Only blocks sweep. -/
theorem Swept.ne_nil (h : Swept blocks name value) : blocks ≠ [] := by
  induction h with
  | empty hne => exact hne
  | object hne _ ih =>
      obtain ⟨inner, value, hv⟩ := Assoc.exists_get?_of_ne_nil hne
      rintro rfl
      exact ih inner value hv rfl

theorem swept_obj_iff {members : Object} (h : members ≠ []) :
    Swept blocks name (.obj members) ↔
      ∀ inner value, Assoc.get? inner members = some value →
        Swept (sinceCopy (asks name blocks)) inner value := by
  constructor
  · intro hswept
    cases hswept with
    | empty => exact absurd rfl h
    | object _ hmembers => exact hmembers
  · exact .object h

/-- With an object its parts are swept. -/
theorem Swept.of_grows {part : Json} (h : Swept blocks name value)
    (hpart : Grows (some part) (some value)) : Swept blocks name part := by
  induction h generalizing part with
  | empty hne =>
      obtain ⟨child, rfl⟩ := hpart.exists_child
      by_cases hchild : child = []
      · rw [hchild]
        exact .empty hne
      · -- an empty object has no part with a member
        obtain ⟨inner, value, hv⟩ := Assoc.exists_get?_of_ne_nil hchild
        obtain ⟨found, hf, -⟩ := hpart.exists_member hv
        cases hf
  | object hne hmembers ih =>
      obtain ⟨child, rfl⟩ := hpart.exists_child
      by_cases hchild : child = []
      · rw [hchild]
        exact .empty (Swept.object hne hmembers).ne_nil
      · refine .object hchild fun inner value hv => ?_
        obtain ⟨found, hf, hinner⟩ := hpart.exists_member hv
        exact ih inner found hf hinner

/-! ## What stays under a name -/

/-- In strict mode an object stays if something stays in it. -/
theorem isSome_edited_iff {members child : Object} :
    (edited members blocks child).isSome ↔
      ∃ name, (Assoc.get? name (applyAll .strict (.obj members) blocks child)).isSome := by
  rw [edited]
  cases applyAll .strict (.obj members) blocks child with
  | nil => exact ⟨nofun, fun ⟨_, h⟩ => nomatch h⟩
  | cons member more =>
      have hfirst : Assoc.get? member.1 (member :: more) = some member.2 := if_pos rfl
      exact ⟨fun _ => ⟨member.1, by rw [hfirst]; rfl⟩, fun _ => rfl⟩

/-- **One level**: an object that is edited stays if the blocks select something or if it is not swept, given
that this holds under every name inside. -/
theorem isSome_edited_iff_of_member {members child : Object}
    (hk : ∀ block ∈ sinceCopy (asks name blocks), block.tree.KeepsNames)
    (hm : (Json.obj members).DistinctNames) (hc : (Json.obj child).DistinctNames)
    (hchild : child ≠ [])
    (hmember : sinceCopy (asks name blocks) ≠ [] → ∀ inner value, Assoc.get? inner child = some value →
      ((ask .strict (Assoc.get? inner members) (asks inner (sinceCopy (asks name blocks)))
          (settlePlace .strict (some value))).isSome ↔
        (ask .strict (Assoc.get? inner members) (asks inner (sinceCopy (asks name blocks)))
          none).isSome ∨ ¬Swept (sinceCopy (asks name blocks)) inner value)) :
    (edited members (sinceCopy (asks name blocks)) child).isSome ↔
      (edited members (sinceCopy (asks name blocks)) []).isSome ∨ ¬Swept blocks name (.obj child) := by
  rw [isSome_edited_iff, isSome_edited_iff, swept_obj_iff hchild]
  by_cases hnone : sinceCopy (asks name blocks) = []
  · -- no block edits the object
    obtain ⟨first, value, hv⟩ := Assoc.exists_get?_of_ne_nil hchild
    rw [hnone]
    exact iff_of_true ⟨first, Option.isSome_iff_exists.mpr ⟨value, hv⟩⟩
      (.inr fun hswept => (hswept first value hv).ne_nil rfl)
  · have hempty := Json.distinctNames_emptyObject
    simp only [get?_applyAll_of_keepsNames .strict hnone hk hm hc,
      get?_applyAll_of_keepsNames .strict hnone hk hm hempty, Assoc.get?_nil, settlePlace_none]
    constructor
    · rintro ⟨inner, hstays⟩
      cases hv : Assoc.get? inner child with
      | none =>
          rw [hv, settlePlace_none] at hstays
          exact .inl ⟨inner, hstays⟩
      | some value =>
          rw [hv] at hstays
          rcases (hmember hnone inner value hv).mp hstays with hmade | hno
          · exact .inl ⟨inner, hmade⟩
          · exact .inr fun hswept => hno (hswept inner value hv)
    · rintro (⟨inner, hmade⟩ | hno)
      · refine ⟨inner, ?_⟩
        cases hv : Assoc.get? inner child with
        | none => rwa [settlePlace_none]
        | some value => exact (hmember hnone inner value hv).mpr (.inl hmade)
      · simp only [Classical.not_forall] at hno
        obtain ⟨inner, value, hv, hno⟩ := hno
        refine ⟨inner, ?_⟩
        rw [hv]
        exact (hmember hnone inner value hv).mpr (.inr hno)

/-- **Copied or not**: what is kept of a place is known from what is kept of the objects that may be edited
there, that which stands at the place and a copy of the property. -/
theorem kept_ask_iff (kept : Option Json → Prop) {members child : Object} {asks : List (Option Block)}
    {part whole : Prop} (hsweep : whole → part)
    (hpart : kept (edited members (sinceCopy asks) child) ↔
      kept (edited members (sinceCopy asks) []) ∨ ¬part)
    (hwhole : kept (edited members (sinceCopy asks) members) ↔
      kept (edited members (sinceCopy asks) []) ∨ ¬whole) :
    kept (ask .strict (some (.obj members)) asks (settlePlace .strict (some (.obj child)))) ↔
      kept (ask .strict (some (.obj members)) asks none) ∨ ¬part := by
  by_cases hcopy : none ∈ asks
  · -- what stands at the place does not matter
    rw [ask_object_of_copy members hcopy, ask_object_of_copy members hcopy]
    exact ⟨.inl, fun h => h.elim id fun hno => hwhole.mpr (.inr (mt hsweep hno))⟩
  · have hmade := ask_object_of_no_copy members hcopy []
    rw [settlePlace_emptyObject] at hmade
    rw [ask_object_of_no_copy members hcopy, hmade]
    exact hpart

/-- **Under one name**: what stands there stays if the entries that write there select something, or if it is
not swept. -/
theorem isSome_ask_iff (bound : Nat) {blocks : List Block} (hne : blocks ≠ []) {name : String}
    (hw : AsksWithin bound (asks name blocks)) {property : Option Json}
    (hd : ∀ value ∈ property, value.DistinctNames) {value : Json} (hv : value.DistinctNames)
    (hpart : Grows (some value) property) :
    (ask .strict property (asks name blocks) (settlePlace .strict (some value))).isSome ↔
      (ask .strict property (asks name blocks) none).isSome ∨ ¬Swept blocks name value := by
  induction bound using Nat.strongRecOn generalizing blocks name property value with
  | _ bound ih =>
      by_cases hobject : ∃ child, value = .obj child
      · obtain ⟨child, rfl⟩ := hobject
        obtain ⟨members, rfl⟩ := hpart.exists_members
        have hm := hd _ rfl
        by_cases hchild : child = []
        · subst hchild
          have hswept : Swept blocks name (.obj []) := .empty hne
          simp [hswept]
        have hmembers : members ≠ [] := by
          obtain ⟨first, value, hv⟩ := Assoc.exists_get?_of_ne_nil hchild
          obtain ⟨found, hf, -⟩ := hpart.exists_member hv
          rintro rfl
          cases hf
        have hasked : ∀ block ∈ sinceCopy (asks name blocks), some block ∈ asks name blocks :=
          fun _ => mem_of_mem_sinceCopy
        -- one level further down the same holds of every part of the property
        have hedited : ∀ child, child ≠ [] → (Json.obj child).DistinctNames →
            Grows (some (.obj child)) (some (.obj members)) →
            ((edited members (sinceCopy (asks name blocks)) child).isSome ↔
              (edited members (sinceCopy (asks name blocks)) []).isSome ∨
                ¬Swept blocks name (.obj child)) := by
          intro child hchild hc hpart
          refine isSome_edited_iff_of_member (fun b hb => (hw b (hasked b hb)).2) hm hc hchild
            fun hinner inner value hv => ?_
          obtain ⟨block, hb⟩ := List.exists_mem_of_ne_nil _ hinner
          obtain ⟨below, rfl⟩ := hw.exists_succ (hasked block hb)
          have hplace := hpart.member inner
          rw [Json.childOf_some_obj, Json.childOf_some_obj, hv] at hplace
          exact ih below (Nat.lt_succ_self below) hinner (hw.inside hasked inner)
            (fun value hv => hm.property hv) (hc.property hv) hplace
        exact kept_ask_iff (fun place => place.isSome) (fun hswept => hswept.of_grows hpart)
          (hedited child hchild hv hpart) (hedited members hmembers hm (.refl _))
      · -- what is no object is the property itself, and stays
        have hno : ∀ child, some value ≠ some (.obj child) := fun child h =>
          hobject ⟨child, Option.some.inj h⟩
        have hmembers : value.members? = none := by
          cases value with
          | obj child => exact absurd ⟨child, rfl⟩ hobject
          | _ => rfl
        obtain rfl := hpart.eq_of_no_object hmembers
        have hask : ask .strict (some value) (asks name blocks) (some value) = some value :=
          (ask_strict_of_no_object hno hno).elim id id
        rw [settlePlace_of_ne (hno []), hask]
        refine iff_of_true rfl (.inr fun hswept => ?_)
        cases hswept <;> cases hmembers

/-! ## What stays at a path -/

/-- Inside an object settling makes no difference. -/
theorem bind_at?_edited (members child : Object) {path : List String} (h : path ≠ []) :
    (edited members blocks child).bind (at? path) =
      (Json.obj (applyAll .strict (.obj members) blocks child)).at? path := by
  cases path with
  | nil => exact absurd rfl h
  | cons name path =>
      rw [edited]
      cases applyAll .strict (.obj members) blocks child <;> rfl

/-- Without blocks everything stays, and nothing is swept. -/
theorem isSome_at?_applyAll_nil (source : Json) {acc : Object} {way : List String} {name : String}
    {value : Json} (hv : (Json.obj acc).at? (way ++ [name]) = some value) :
    ((Json.obj (applyAll .strict source [] acc)).at? (way ++ [name])).isSome ↔
      ((Json.obj (applyAll .strict source [] [])).at? (way ++ [name])).isSome ∨
        ¬Swept (inside [] way) name value := by
  have hthere : ((Json.obj acc).at? (way ++ [name])).isSome := Option.isSome_iff_exists.mpr ⟨value, hv⟩
  exact iff_of_true hthere (.inr fun hswept => hswept.ne_nil (inside_nil way))

/-- **At a path**: what stands there stays if the blocks alone put something there, or if it is not swept. -/
theorem isSome_at?_applyAll_iff {blocks : List Block} (hk : ∀ block ∈ blocks, block.tree.KeepsNames)
    {source : Json} (hs : source.DistinctNames) {acc : Object} (ha : (Json.obj acc).DistinctNames)
    (hpart : ∀ name, Grows (Assoc.get? name acc) (source.property? name)) {way : List String}
    {name : String} {value : Json} (hv : (Json.obj acc).at? (way ++ [name]) = some value) :
    ((Json.obj (applyAll .strict source blocks acc)).at? (way ++ [name])).isSome ↔
      ((Json.obj (applyAll .strict source blocks [])).at? (way ++ [name])).isSome ∨
        ¬Swept (inside blocks way) name value := by
  have hempty := Json.distinctNames_emptyObject
  induction way generalizing blocks source acc value with
  | nil =>
      by_cases hne : blocks = []
      · subst hne
        exact isSome_at?_applyAll_nil source hv
      have hplace : ∀ members : Object, (Json.obj members).at? [name] = Assoc.get? name members := by
        intro members
        show (Assoc.get? name members).bind (at? []) = _
        cases Assoc.get? name members <;> rfl
      have hvalue : Assoc.get? name acc = some value := (hplace acc).symm.trans hv
      obtain ⟨bound, hw⟩ := exists_asksWithin hk
      show ((Json.obj _).at? [name]).isSome ↔ ((Json.obj _).at? [name]).isSome ∨ _
      rw [hplace, hplace, get?_applyAll_of_keepsNames .strict hne hk hs ha,
        get?_applyAll_of_keepsNames .strict hne hk hs hempty, hvalue, Assoc.get?_nil, settlePlace_none]
      exact isSome_ask_iff bound hne (hw name) (fun value hp => hs.property hp) (ha.property hvalue)
        (hvalue ▸ hpart name)
  | cons first way ih =>
      by_cases hne : blocks = []
      · subst hne
        exact isSome_at?_applyAll_nil source hv
      have hplace : (Assoc.get? first acc).bind (at? (way ++ [name])) = some value := hv
      obtain ⟨found, hf, hv⟩ := Option.bind_eq_some_iff.mp hplace
      have hpath : way ++ [name] ≠ [] := by simp
      -- an object stands under the first name, and so it does in the source
      obtain ⟨child, rfl⟩ : ∃ child, found = .obj child := by
        cases found with
        | obj child => exact ⟨child, rfl⟩
        | _ => exact absurd (Json.eq_nil_of_at?_eq_some rfl hv).1 hpath
      have hchild := hpart first
      rw [hf] at hchild
      obtain ⟨members, hm⟩ := hchild.exists_members
      rw [hm] at hchild
      obtain ⟨whole, hwhole, hgrows⟩ := hchild.inside hv
      have hmembers := hs.property hm
      have hinner : ∀ block ∈ sinceCopy (asks first blocks), block.tree.KeepsNames := by
        obtain ⟨bound, hw⟩ := exists_asksWithin hk
        exact fun block hb => (hw first block (mem_of_mem_sinceCopy hb)).2
      show ((Assoc.get? first _).bind (at? (way ++ [name]))).isSome ↔
        ((Assoc.get? first _).bind (at? (way ++ [name]))).isSome ∨
          ¬Swept (inside (sinceCopy (asks first blocks)) way) name value
      rw [get?_applyAll_of_keepsNames .strict hne hk hs ha,
        get?_applyAll_of_keepsNames .strict hne hk hs hempty, hf, hm, Assoc.get?_nil, settlePlace_none]
      refine kept_ask_iff (fun place => (place.bind (at? (way ++ [name]))).isSome)
        (fun hswept => Swept.of_grows hswept hgrows) ?_ ?_
      · rw [bind_at?_edited _ _ hpath, bind_at?_edited _ _ hpath]
        exact ih hinner hmembers (ha.property hf) hchild.member hv
      · rw [bind_at?_edited _ _ hpath, bind_at?_edited _ _ hpath]
        exact ih hinner hmembers hmembers (fun _ => .refl _) hwhole

end Block

/-! ## A schema -/

/-- **Without renames the result of strict mode is part of the source.** -/
theorem Block.grows_applyAll {blocks : List Block} (hk : ∀ block ∈ blocks, block.tree.KeepsNames)
    {source : Json} (hs : source.DistinctNames) (name : String) :
    Grows (Assoc.get? name (applyAll .strict source blocks [])) (source.property? name) := by
  by_cases hne : blocks = []
  · rw [hne]
    exact .of_none _
  · obtain ⟨bound, hw⟩ := exists_asksWithin hk
    rw [get?_applyAll_of_keepsNames .strict hne hk hs Json.distinctNames_emptyObject, Assoc.get?_nil,
      settlePlace_none]
    exact grows_ask bound (hw name) (fun value hp => hs.property hp) nofun rfl (.of_none _)

namespace Schema

/-- The schema with a further tree at the end. -/
def extended (schema : Schema) (further : Tree) : Schema := ⟨schema.trees ++ [further]⟩

/-- The blocks of a further tree edit what the blocks of the schema have made. -/
theorem value_apply_extended (schema : Schema) (further : Tree) (source : Json) :
    ((schema.extended further).apply .strict source).value =
      .obj (Block.applyAll .strict source further.toBlock?.toList
        (Block.applyAll .strict source schema.blocks [])) := by
  have hblocks : (schema.extended further).blocks = schema.blocks ++ further.toBlock?.toList := by
    rw [blocks, blocks, extended, List.filterMap_append]
    rfl
  have hne : (schema.extended further).trees ≠ [] := by simp [extended]
  rw [value_apply hne, hblocks, Block.applyAll_append]
  rfl

/-- **What a further tree leaves.**  Without renames, a value of the result of strict mode stays, when a further
tree is added to the schema, just if the tree alone puts something at its path or if the value is not swept: an
empty object is, where a block of the tree enters the object around it, and so is an object whose members
are. -/
theorem apply_strict_extended (schema : Schema) (hne : schema.trees ≠ [])
    (hk : ∀ tree ∈ schema.trees, tree.KeepsNames) {further : Tree} (hf : further.KeepsNames)
    {source : Json} (hs : source.DistinctNames) {way : List String} {name : String} {value : Json}
    (hv : (schema.apply .strict source).value.at? (way ++ [name]) = some value) :
    (((schema.extended further).apply .strict source).value.at? (way ++ [name])).isSome ↔
      (((Schema.mk [further]).apply .strict source).value.at? (way ++ [name])).isSome ∨
        ¬Block.Swept (Block.inside further.toBlock?.toList way) name value := by
  have hblocks : ∀ block ∈ schema.blocks, block.tree.KeepsNames := fun block hb => hk _ (mem_blocks hb)
  have hfurther : ∀ block ∈ further.toBlock?.toList, block.tree.KeepsNames := by
    intro block hb
    have htree := Tree.eq_of_toBlock?_eq_some (Option.mem_toList.mp hb)
    exact htree ▸ hf
  have halone : ((Schema.mk [further]).apply .strict source).value =
      .obj (Block.applyAll .strict source further.toBlock?.toList []) :=
    value_apply_extended ⟨[]⟩ further source
  rw [value_apply hne] at hv
  rw [value_apply_extended, halone]
  exact Block.isSome_at?_applyAll_iff hfurther hs
    (Block.distinctNames_applyAll hs Json.distinctNames_emptyObject) (Block.grows_applyAll hblocks hs) hv

/-- A tree that copies a property. -/
def copyTree : Tree := .leaf ⟨"a", none⟩ .nil

/-- A tree that enters the same property. -/
def entryTree : Tree := .nested ⟨"a", none⟩ (.leaf ⟨"y", none⟩ .nil) .nil

/-- A document with an empty object beside what `entryTree` selects, and one further inside. -/
def crate : Json :=
  .obj [("a", .obj [("x", .obj []), ("y", .bool true), ("z", .obj [("w", .obj [])])])]

theorem ofText?_crate :
    Json.ofText? "\x7b\"a\":\x7b\"x\":\x7b\x7d,\"y\":true,\"z\":\x7b\"w\":\x7b\x7d\x7d\x7d\x7d" = some crate := rfl

/-- The empty object beside what is selected goes, and the one further inside stays. -/
theorem apply_strict_extended_crate :
    ((∀ tree ∈ [copyTree], tree.KeepsNames) ∧ entryTree.KeepsNames ∧ crate.DistinctNames) ∧
      (((Schema.mk [copyTree]).apply .strict crate).value.at? (["a"] ++ ["x"]) = some (.obj []) ∧
        ((((Schema.mk [copyTree]).extended entryTree).apply .strict crate).value.at?
            (["a"] ++ ["x"])).isSome = false) ∧
      ((Schema.mk [copyTree]).apply .strict crate).value.at? (["a"] ++ ["z"]) =
          some (.obj [("w", .obj [])]) ∧
        ((((Schema.mk [copyTree]).extended entryTree).apply .strict crate).value.at?
            (["a"] ++ ["z"])).isSome := by
  have hk : ∀ tree ∈ [copyTree], tree.KeepsNames := by decide
  have hf : entryTree.KeepsNames := by decide
  have hs : crate.DistinctNames := Json.distinctNames_of_ofTextWithin? ofText?_crate
  have hx : ((Schema.mk [copyTree]).apply .strict crate).value.at? (["a"] ++ ["x"]) = some (.obj []) :=
    rfl
  have hz : ((Schema.mk [copyTree]).apply .strict crate).value.at? (["a"] ++ ["z"]) =
      some (.obj [("w", .obj [])]) := rfl
  have hne : (Schema.mk [copyTree]).trees ≠ [] := List.cons_ne_nil _ _
  have hswept : Block.Swept (Block.inside entryTree.toBlock?.toList ["a"]) "x" (.obj []) :=
    .empty (List.cons_ne_nil _ _)
  have hkept : ¬Block.Swept (Block.inside entryTree.toBlock?.toList ["a"]) "z" (.obj [("w", .obj [])]) :=
    fun h => ((Block.swept_obj_iff (List.cons_ne_nil _ _)).mp h "w" (.obj []) rfl).ne_nil rfl
  refine ⟨⟨hk, hf, hs⟩, ⟨hx, ?_⟩, hz,
    (apply_strict_extended ⟨[copyTree]⟩ hne hk hf hs hz).mpr (.inr hkept)⟩
  refine Bool.eq_false_iff.mpr fun hthere => ?_
  rcases (apply_strict_extended ⟨[copyTree]⟩ hne hk hf hs hx).mp hthere with halone | hno
  · cases halone
  · exact hno hswept

/-- **No path is lost** when a fragment without renames is added at the end. -/
def KeepsPaths (fragments : List String) (fragment text : String) : Prop :=
  ∀ (schema longer : Schema) (source : Json),
    (compile fragments).value = .ok schema → (compile (fragments ++ [fragment])).value = .ok longer →
    (∀ tree ∈ longer.trees, tree.KeepsNames) → Json.ofText? text = some source →
    ∀ path, ((schema.apply .strict source).value.at? path).isSome →
      ((longer.apply .strict source).value.at? path).isSome

/-- Paths are lost by pruning.  And a schema without trees returns its source, of which a schema with one tree
returns what the tree selects. -/
theorem not_keepsPaths :
    ¬KeepsPaths ["a"] "a:\x7by\x7d"
        "\x7b\"a\":\x7b\"x\":\x7b\x7d,\"y\":true,\"z\":\x7b\"w\":\x7b\x7d\x7d\x7d\x7d" ∧
      ¬KeepsPaths [] "a:\x7by\x7d"
        "\x7b\"a\":\x7b\"x\":\x7b\x7d,\"y\":true,\"z\":\x7b\"w\":\x7b\x7d\x7d\x7d\x7d" := by
  have hk : ∀ tree ∈ [copyTree, entryTree], tree.KeepsNames := by decide
  constructor
  · intro h
    have hlost := h ⟨[copyTree]⟩ ⟨[copyTree, entryTree]⟩ crate rfl rfl hk ofText?_crate ["a", "x"] rfl
    cases hlost
  · intro h
    have hlost := h ⟨[]⟩ ⟨[entryTree]⟩ crate rfl rfl (fun tree ht => hk tree (List.mem_cons_of_mem _ ht))
      ofText?_crate ["a", "z"] rfl
    cases hlost

end Schema

end JsonProjection
