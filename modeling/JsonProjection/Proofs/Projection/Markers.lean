/-
# `JsonProjection.Proofs.Projection.Markers` -- what markers leave of a strict result.

Absent mode writes a marker, `null`, for whatever strict mode leaves out.  A marker is meant to fill a place
that is free, so everything that strict mode selects should stand in the result of absent mode as well.  It
does, with one exception, and this module says which.

Strict mode and absent mode part at a block that is entered and selects nothing.  Strict mode then writes
nothing, and what an earlier entry wrote under the output name stays.  Absent mode writes the markers of the
block; and if the earlier value is no object, they take its place.  Such a block is entered in vain over the
value (`InVain`): it comes after the entry that wrote the value, in the same tree or in an earlier one.  At
every other path the strict value is kept, and where it is not there is nothing but markers, the block's among
them (`Schema.apply_absent_keeps_strict`).

The proof compares the two runs entry by entry.  The relation between the accumulators, `KeptMembers`, speaks
of paths to values that are no objects; objects themselves may come and go in either run as long as nothing
is lost inside them.
-/
import JsonProjection.Proofs.Json.Grows
import JsonProjection.Proofs.Json.Read
import JsonProjection.Proofs.Projection.Added
import JsonProjection.Proofs.Projection.Declared

namespace JsonProjection

open JsonProjection.Json (Object childOf at?)
open JsonProjection.Log (Logged)
open JsonProjection.Projection

/-- Filling only adds: no value that is there is lost. -/
theorem Json.grows_allowsFilling : Json.AllowsFilling Json.Grows where
  refl := .refl
  trans := .trans
  obj := .obj
  marker := .of_none _
  made _ := .of_none _

/-! ## Blocks entered in vain -/

/-- **A block entered in vain over a value.**  A tree is applied in strict mode to an accumulator.  One of its
entries holds a block and finds an object under its name, but the block selects nothing of it, and where the
block writes, the accumulator holds the value, which is no object, by the time the entry is reached.  The entry is
an entry of the tree or of a block that is entered on the way. -/
inductive Tree.InVain : Tree → Json → Object → List String → Json → Tree → Prop
  | here {key : Key} {block rest : Tree} {source value : Json} {acc members : Object} :
      block ≠ .nil → source.property? key.name = some (.obj members) →
      Assoc.get? key.output acc = some value → value.members? = none →
      block.projectInto .strict (.obj members) [] = [] →
      InVain (.nested key block rest) source acc [key.output] value block
  | inside {key : Key} {block rest inner : Tree} {source value : Json} {acc members : Object}
      {path : List String} :
      source.property? key.name = some (.obj members) →
      InVain block (.obj members) (childOf (Assoc.get? key.output acc)) path value inner →
      InVain (.nested key block rest) source acc (key.output :: path) value inner
  | later {key : Key} {selection : Selection} {rest block : Tree} {source value : Json} {acc : Object}
      {path : List String} :
      InVain rest source ((cons key selection .nil).projectInto .strict source acc) path value block →
      InVain (cons key selection rest) source acc path value block

/-- A block of one of the trees is entered in vain over a value that an earlier tree or an earlier entry wrote. -/
def Schema.InVain (trees : List Tree) (source : Json) (acc : Object) (path : List String) (value : Json)
    (block : Tree) : Prop :=
  ∃ before tree after, trees = before ++ tree :: after ∧
    tree.InVain source (projectTrees .strict source before acc).value path value block

theorem Schema.InVain.later {trees : List Tree} {tree block : Tree} {source value : Json} {acc : Object}
    {path : List String} (h : InVain trees source (tree.projectInto .strict source acc) path value block) :
    InVain (tree :: trees) source acc path value block := by
  obtain ⟨before, found, after, rfl, hfound⟩ := h
  exact ⟨tree :: before, found, after, rfl, hfound⟩

/-! ## The relation between the two runs -/

/-- **Kept, with exceptions**: what is no object in the first place stands in the second, at the same path;
where a block is excepted, an object with the output names of the block may stand there instead. -/
def Json.Kept (excepted : List String → Json → Tree → Prop) (strict absent : Option Json) : Prop :=
  ∀ path value, strict.bind (at? path) = some value → value.members? = none →
    absent.bind (at? path) = some value ∨
      ∃ block members, excepted path value block ∧ absent.bind (at? path) = some (.obj members) ∧
        ∀ name ∈ block.outputs, name ∈ Assoc.keys members

/-- Kept under every name of two objects. -/
def Json.KeptMembers (excepted : List String → Json → Tree → Prop) (strict absent : Object) : Prop :=
  ∀ name, Kept (fun path => excepted (name :: path)) (Assoc.get? name strict)
    (Assoc.get? name absent)

namespace Json

/-- The names of an object that grows stay. -/
theorem Grows.mem_keys {members members' : Object}
    (h : Grows (some (.obj members)) (some (.obj members'))) {name : String}
    (hn : name ∈ Assoc.keys members) : name ∈ Assoc.keys members' := by
  cases hvalue : Assoc.get? name members with
  | none => exact absurd hn ((Assoc.get?_eq_none_iff name members).mp hvalue)
  | some value =>
      obtain ⟨found, hfound, -⟩ := h.exists_member hvalue
      exact List.mem_map.mpr ⟨(name, found), Assoc.mem_of_get?_eq_some hfound, rfl⟩

variable {excepted : List String → Json → Tree → Prop} {strict absent : Option Json}

theorem Kept.refl (place : Option Json) : Kept excepted place place := fun _ _ h _ => .inl h

theorem Kept.filter (h : Kept excepted strict absent) (p : Json → Bool) :
    Kept excepted (strict.filter p) absent := by
  intro path value hv hm
  obtain ⟨found, hf, hp⟩ := Option.bind_eq_some_iff.mp hv
  refine h path value ?_ hm
  rw [(Option.filter_eq_some_iff.mp hf).1, Option.bind_some, hp]

theorem Kept.grows (h : Kept excepted strict absent) {absent' : Option Json}
    (hg : Grows absent absent') : Kept excepted strict absent' := by
  intro path value hv hm
  rcases h path value hv hm with ha | ⟨block, members, hex, ha, hnames⟩
  · rcases hg path value ha with ha | ⟨⟨members, rfl⟩, -⟩
    · exact .inl ha
    · cases hm
  · obtain ⟨found, hfound, hinside⟩ := hg.inside ha
    obtain ⟨members', hmembers'⟩ := hinside.exists_members
    cases hmembers'
    exact .inr ⟨block, members', hex, hfound, fun name hname => hinside.mem_keys (hnames name hname)⟩

theorem KeptMembers.obj {members members' : Object} (h : KeptMembers excepted members members') :
    Kept excepted (some (.obj members)) (some (.obj members')) := by
  intro path value hv hm
  cases path with
  | nil =>
      cases hv
      cases hm
  | cons name path => exact h name path value hv hm

/-- What is kept at a place is kept inside the objects that stand there. -/
theorem Kept.childOf (h : Kept excepted strict absent) :
    KeptMembers excepted (childOf strict) (childOf absent) := by
  intro name path value hv hm
  have hplace := h (name :: path) value ((bind_at?_cons strict name path).trans hv) hm
  simp only [bind_at?_cons] at hplace
  exact hplace

/-- What is no object may give way to an object where that is excepted. -/
theorem Kept.replaced (hno : ∀ inside, strict ≠ some (.obj inside)) {block : Tree} {members : Object}
    (hex : ∀ value, strict = some value → value.members? = none → excepted [] value block)
    (hnames : ∀ name ∈ block.outputs, name ∈ Assoc.keys members) :
    Kept excepted strict (some (.obj members)) := by
  intro path value hv hm
  obtain ⟨found, rfl, hp⟩ := Option.bind_eq_some_iff.mp hv
  have hfound : found.members? = none := by
    cases found with
    | obj inside => exact absurd rfl (hno inside)
    | _ => rfl
  obtain ⟨rfl, rfl⟩ := eq_nil_of_at?_eq_some hfound hp
  exact .inr ⟨block, members, hex _ rfl hm, rfl, hnames⟩

end Json

/-! ## One entry -/

/-- Applying a block in absent mode writes all its output names. -/
theorem Tree.mem_keys_projectInto_absent {tree : Tree} {name : String} (h : name ∈ tree.outputs)
    (source : Json) (acc : Object) : name ∈ Assoc.keys (tree.projectInto .absent source acc) := by
  rw [keys_projectInto_absent, foldl_declare]
  by_cases hthere : name ∈ Assoc.keys acc
  · exact List.mem_append_left _ hthere
  · refine List.mem_append_right _ (List.mem_eraseDups.mpr (List.mem_filter.mpr ⟨h, ?_⟩))
    simpa using hthere

namespace Json.KeptMembers

variable {excepted : List String → Json → Tree → Prop} {strict absent : Object} {source : Json} {key : Key}
  {block : Tree}

theorem copyProperty (h : KeptMembers excepted strict absent) :
    KeptMembers excepted (copyProperty .strict source key strict).value
      (Projection.copyProperty .absent source key absent).value := by
  intro name
  by_cases hn : key.output = name
  · subst hn
    rw [get?_copyProperty_self, get?_copyProperty_self]
    cases source.property? key.name with
    | some value => exact .refl _
    | none =>
        refine (h key.output).grows ?_
        cases Assoc.get? key.output absent with
        | none => exact .of_none _
        | some value => exact .refl _
  · rw [get?_copyProperty_of_ne hn, get?_copyProperty_of_ne hn]
    exact h name

/-- Entering a block keeps what is kept if the block keeps it, except under the output name of a block in
vain. -/
theorem enterProperty
    (hd : ∀ members, source.property? key.name = some (.obj members) →
      KeptMembers (fun path => excepted (key.output :: path))
        (block.projectInto .strict (.obj members) (childOf (Assoc.get? key.output strict)))
        (block.projectInto .absent (.obj members) (childOf (Assoc.get? key.output absent))))
    (hvain : ∀ members value, source.property? key.name = some (.obj members) →
      Assoc.get? key.output strict = some value → value.members? = none →
      block.projectInto .strict (.obj members) [] = [] → excepted [key.output] value block)
    (h : KeptMembers excepted strict absent) :
    KeptMembers excepted (enterProperty .strict source key (block.project .strict) block.fill strict).value
      (Projection.enterProperty .absent source key (block.project .absent) block.fill absent).value := by
  intro name
  by_cases hn : key.output = name
  · subst hn
    rcases Json.object_or_no_object (source.property? key.name) with ⟨members, ho⟩ | hno
    · -- absent mode writes what descending gives in any case
      have hstrict := hd members ho
      generalize hchild :
        block.projectInto .strict (.obj members) (childOf (Assoc.get? key.output strict)) = child at hstrict
      rw [value_enterProperty_absent_of_object ho, Assoc.get?_set_self]
      rcases value_enterProperty_of_object ho hchild .strict block.fill with hw | ⟨-, rfl, hno, hw⟩
      · rw [hw, Assoc.get?_set_self]
        exact hstrict.obj
      · -- strict mode leaves the earlier value, which absent mode has replaced
        rw [childOf_of_no_object hno] at hchild
        rw [hw]
        exact .replaced hno (fun value hvalue hm => hvain members value ho hvalue hm hchild)
          fun name hname => Tree.mem_keys_projectInto_absent hname _ _
    · rw [value_enterProperty_of_no_object hno, value_enterProperty_of_no_object hno]
      have hblock := grows_allowsFilling.fill block
      exact (h key.output).grows (grows_allowsFilling.fillMember_self hblock key.output absent)
  · rw [get?_enterProperty_of_ne hn, get?_enterProperty_of_ne hn]
    exact h name

/-- Pruning takes from the strict accumulator what holds nothing. -/
theorem settle (h : KeptMembers excepted strict absent) (hd : (Json.obj strict).DistinctNames) :
    KeptMembers excepted (settle .strict strict) (Projection.settle .absent absent) := by
  intro name
  have hprune := Json.get?_prune (Json.distinctNames_obj_iff.mp hd).1 name
  rw [Projection.settle, Projection.settle, hprune]
  exact (h name).filter _

end Json.KeptMembers

/-! ## A whole tree -/

/-- **The run**: what is kept before a tree is applied is kept afterwards, except where a block of the tree is
entered in vain. -/
theorem Tree.keptMembers_projectInto (tree : Tree) {source : Json}
    {excepted : List String → Json → Tree → Prop} (hs : source.DistinctNames) {strict absent : Object}
    (hex : ∀ path value block, tree.InVain source strict path value block → excepted path value block)
    (hd : (Json.obj strict).DistinctNames) (h : Json.KeptMembers excepted strict absent) :
    Json.KeptMembers excepted (tree.projectInto .strict source strict)
      (tree.projectInto .absent source absent) := by
  induction tree generalizing source excepted strict absent with
  | nil => exact h
  | leaf key rest ih =>
      have hcopied : (Json.obj (copyProperty .strict source key strict).value).DistinctNames :=
        distinctNames_copyProperty hs hd
      rw [projectInto_leaf, projectInto_leaf]
      -- pruning needs that no name of the strict accumulator is repeated
      refine ih hs (fun path value block hv => ?_) (distinctNames_settle hcopied)
        (h.copyProperty.settle hcopied)
      have hlater : (cons key .leaf rest).InVain source strict path value block := .later hv
      exact hex path value block hlater
  | nested key block rest ihb ihr =>
      have hrest : ∀ path value inner, rest.InVain source
          ((Tree.nested key block .nil).projectInto .strict source strict) path value inner →
          excepted path value inner := by
        intro path value inner hv
        have hlater : (cons key (.nested block) rest).InVain source strict path value inner := .later hv
        exact hex path value inner hlater
      by_cases he : block = .nil
      · subst he
        have hcopied : (Json.obj (copyProperty .strict source key strict).value).DistinctNames :=
          distinctNames_copyProperty hs hd
        rw [projectInto_nested_nil, projectInto_nested_nil, projectInto_leaf, projectInto_leaf]
        exact ihr hs hrest (distinctNames_settle hcopied) (h.copyProperty.settle hcopied)
      · have hentered : (Json.obj (enterProperty .strict source key (block.project .strict)
            block.fill strict).value).DistinctNames :=
          distinctNames_enterProperty (distinctNames_projectInto .strict block)
            block.distinctNames_fill hs hd
        -- a block in vain inside this block is one of the tree, with the output name in front of its path
        have hkept : Json.KeptMembers excepted
            (enterProperty .strict source key (block.project .strict) block.fill strict).value
            (enterProperty .absent source key (block.project .absent) block.fill absent).value :=
          h.enterProperty
            (fun members ho => ihb (hs.property ho)
              (fun path value inner hv => hex _ value inner (.inside ho hv))
              (hd.childOf key.output) (h key.output).childOf)
            fun members value ho hvalue hm hempty => hex _ value block (.here he ho hvalue hm hempty)
        rw [projectInto_nested .strict key he, projectInto_nil] at hrest
        rw [projectInto_nested .strict key he, projectInto_nested .absent key he]
        exact ihr hs hrest (distinctNames_settle hentered) (hkept.settle hentered)

/-! ## A schema -/

namespace Schema

/-- What is kept before several trees are applied is kept afterwards. -/
theorem keptMembers_projectTrees {source : Json} {excepted : List String → Json → Tree → Prop}
    (hs : source.DistinctNames) {trees : List Tree} {strict absent : Object}
    (hex : ∀ path value block, InVain trees source strict path value block → excepted path value block)
    (hd : (Json.obj strict).DistinctNames) (h : Json.KeptMembers excepted strict absent) :
    Json.KeptMembers excepted (projectTrees .strict source trees strict).value
      (projectTrees .absent source trees absent).value := by
  induction trees generalizing strict absent with
  | nil => exact h
  | cons tree rest ih =>
      refine ih (fun path value block hv => hex path value block hv.later)
        (tree.distinctNames_projectInto .strict hs hd) (tree.keptMembers_projectInto hs ?_ hd h)
      intro path value block hv
      exact hex path value block ⟨[], tree, rest, rfl, hv⟩

/-- What lies inside the accumulator at the end lies inside the result: `null` replaces an accumulator
without members only. -/
theorem at?_result_cons (mode : Mode) (acc : Object) (name : String) (path : List String) :
    (result mode acc).at? (name :: path) = (Assoc.get? name acc).bind (Json.at? path) := by
  cases mode with
  | strict => rfl
  | absent => cases acc <;> rfl

/-- **Markers destroy nothing, save where a block is entered in vain.**  What the strict result holds at a
path, and is no object, the result with markers holds at the same path.  There is one exception: a block that is
entered after the value was written, and selects nothing of the object that it enters, puts markers in its place.
Then an object stands there that has the output names of the block, and whatever is no object in it is `null`. -/
theorem apply_absent_keeps_strict (schema : Schema) (source : Json) (hs : source.DistinctNames)
    (path : List String) (value : Json)
    (hv : (schema.apply .strict source).value.at? path = some value)
    (hm : value.members? = none) :
    (schema.apply .absent source).value.at? path = some value ∨
      ∃ block members, InVain schema.trees source [] path value block ∧
        (schema.apply .absent source).value.at? path = some (.obj members) ∧
        (∀ name ∈ block.outputs, name ∈ Assoc.keys members) ∧
        ∀ deeper found, (Json.obj members).at? deeper = some found → found.members? = none →
          found = .null := by
  by_cases hempty : schema.isEmpty
  · -- without trees both results are the source itself
    left
    simpa only [apply, if_pos hempty] using hv
  · have hkept : Json.KeptMembers (InVain schema.trees source [])
        (projectTrees .strict source schema.trees []).value
        (projectTrees .absent source schema.trees []).value :=
      keptMembers_projectTrees hs (fun _ _ _ hvain => hvain) Json.distinctNames_emptyObject
        (fun _ => .refl _)
    cases path with
    | nil =>
        -- the strict result as a whole is an object
        rw [value_apply_eq_result hempty] at hv
        cases hv
        cases hm
    | cons name path =>
        have hplace := hkept name path value
        rw [← at?_result_cons .strict, ← at?_result_cons .absent, ← value_apply_eq_result hempty,
          ← value_apply_eq_result hempty] at hplace
        rcases hplace hv hm with ha | ⟨block, members, hvain, ha, hnames⟩
        · exact .inl ha
        · refine .inr ⟨block, members, hvain, ha, hnames, fun deeper found hf hfm => ?_⟩
          -- a value in there that is no marker would stand in the strict result, inside a value that is no object
          refine Classical.byContradiction fun hnull => ?_
          have hinside : (some (schema.apply .absent source).value).bind (at? (name :: path ++ deeper)) =
              some found := by
            rw [Json.bind_at?_append, Option.bind_some, ha, Option.bind_some, hf]
          have hstrict := schema.addsMarkers_apply hs _ found hinside hfm hnull
          rw [Json.bind_at?_append, Option.bind_some, hv, Option.bind_some] at hstrict
          obtain ⟨rfl, rfl⟩ := Json.eq_nil_of_at?_eq_some hm hstrict
          cases hf
          cases hfm

/-- The schema of two fragments that write the same name, a property and a block of another. -/
def shared : Schema :=
  ⟨[.leaf ⟨"x", none⟩ .nil, .nested ⟨"a", some "x"⟩ (.leaf ⟨"c", none⟩ .nil) .nil]⟩

theorem compile_shared : (compile ["x", "a->x:{c}"]).value = .ok shared := rfl

/-- A document in which the block of `shared` is entered and finds nothing. -/
def hollow : Json := .obj [("x", .bool true), ("a", .obj [])]

theorem ofText?_hollow : Json.ofText? "\x7b\"x\":true,\"a\":\x7b\x7d\x7d" = some hollow := rfl

/-- The flag that strict mode keeps gives way to the markers of the block that comes after it. -/
theorem apply_absent_keeps_strict_hollow :
    hollow.DistinctNames ∧
      (shared.apply .strict hollow).value.at? ["x"] = some (.bool true) ∧
      ∃ block members, InVain shared.trees hollow [] ["x"] (.bool true) block ∧
        (shared.apply .absent hollow).value.at? ["x"] = some (.obj members) ∧
        (∀ name ∈ block.outputs, name ∈ Assoc.keys members) ∧
        ∀ deeper found, (Json.obj members).at? deeper = some found → found.members? = none →
          found = .null := by
  have hnames : hollow.DistinctNames := Json.distinctNames_of_ofTextWithin? ofText?_hollow
  have hstrict : (shared.apply .strict hollow).value.at? ["x"] = some (.bool true) := rfl
  have habsent : (shared.apply .absent hollow).value.at? ["x"] = some (.obj [("c", .null)]) := rfl
  refine ⟨hnames, hstrict, ?_⟩
  rcases apply_absent_keeps_strict shared hollow hnames ["x"] (.bool true) hstrict rfl with h | h
  · cases habsent.symm.trans h
  · exact h

/-- The exception is needed: markers do not always leave what strict mode selects. -/
theorem not_apply_absent_keeps_every_strict :
    ¬ ∀ (fragments : List String) (schema : Schema) (text : String) (source : Json),
      (compile fragments).value = .ok schema → Json.ofText? text = some source →
      ∀ (path : List String) (value : Json),
        (schema.apply .strict source).value.at? path = some value → value.members? = none →
        (schema.apply .absent source).value.at? path = some value := by
  intro h
  have hkept := h _ shared _ hollow compile_shared ofText?_hollow ["x"] (.bool true) rfl rfl
  have habsent : (shared.apply .absent hollow).value.at? ["x"] = some (.obj [("c", .null)]) := rfl
  rw [habsent] at hkept
  cases hkept

end Schema

end JsonProjection
