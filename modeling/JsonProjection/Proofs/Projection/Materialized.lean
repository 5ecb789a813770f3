/-
# `JsonProjection.Proofs.Projection.Materialized` -- the shape of a schema without a source.

Where a source owns nothing, absent mode writes the shape of the schema: `null` for every leaf, an object for
every block.  Of one tree without shared output names the whole shape stands there afterwards.  Of several
trees it need not, since markers fill what is free and overwrite nothing, and a marker takes a place as a value
does.  A leaf that comes before a block of the same output name leaves `null` there, and the block is not
written.

So whoever writes first decides (`Open`): a block is materialized, with every name that it declares, just if at
its path and at every place on the way the first entry that writes there has a block.  Otherwise `null` stands
on the way (`Schema.apply_absent_materialized`).
-/
import JsonProjection.Json.Reader
import JsonProjection.Proofs.Projection.OneSource
import JsonProjection.Proofs.Projection.Outputs

namespace JsonProjection

open JsonProjection.Json (Object)
open JsonProjection.Projection

/-- What owns nothing repeats no name. -/
theorem Json.distinctNames_of_no_property {source : Json} (h : ∀ name, source.property? name = none) :
    source.DistinctNames := by
  cases source with
  | obj members =>
      obtain rfl : members = [] := Assoc.eq_nil_of_get?_eq_none h
      exact distinctNames_emptyObject
  | _ => exact distinctNames_of_no_object rfl

/-- Something is asked for under every output name. -/
theorem Tree.asks_ne_nil {tree : Tree} {name : String} (h : name ∈ tree.outputs) :
    tree.asks name ≠ [] := by
  rw [outputs, ← map_key_steps, List.map_map] at h
  obtain ⟨step, hs, hname⟩ := List.mem_map.mp h
  exact List.ne_nil_of_mem (mem_asks_iff.mpr ⟨step, hs, hname, rfl⟩)

/-- What is asked for where nothing stands leaves something there, a marker or an object. -/
theorem Projection.ask_none_ne_none {asks : List (Option Block)} (h : asks ≠ []) :
    ask .absent none asks none ≠ none := by
  cases asks with
  | nil => exact absurd rfl h
  | cons asked rest =>
      cases asked with
      | none =>
          rw [ask_none_marked]
          nofun
      | some block =>
          rw [ask_none_opened]
          nofun

namespace Block

/-! ## Places without a source -/

section

variable {source : Json} (hs : ∀ name, source.property? name = none) {blocks : List Block}
  {name : String}

include hs

/-- **A name followed through blocks that find nothing.** -/
theorem get?_applyAll_of_no_property (blocks : List Block) (name : String) :
    Assoc.get? name (applyAll .absent source blocks []) = ask .absent none (asks name blocks) none := by
  have hread : ∀ block ∈ blocks,
      block.tree.requests name source = (block.tree.asks name).map (Request.mk none) :=
    fun _ _ => Tree.requests_eq_map_asks fun step _ _ => hs step.key.name
  have hname : settlePlace .absent _ = _ :=
    get?_applyAll (Json.distinctNames_of_no_property hs) Json.distinctNames_emptyObject hread
  exact hname

/-- **Every declared name is there**, whatever the other blocks write. -/
theorem mem_keys_applyAll_of_no_property {block : Block} (hb : block ∈ blocks)
    (hn : name ∈ block.tree.outputs) : name ∈ Assoc.keys (applyAll .absent source blocks []) := by
  obtain ⟨asked, ha⟩ := List.exists_mem_of_ne_nil _ (Tree.asks_ne_nil hn)
  have hasked : asks name blocks ≠ [] := List.ne_nil_of_mem (List.mem_flatMap.mpr ⟨block, hb, ha⟩)
  have hthere := ask_none_ne_none hasked
  rw [← get?_applyAll_of_no_property hs] at hthere
  exact Classical.not_not.mp fun hmissing => hthere ((Assoc.get?_eq_none_iff _ _).mpr hmissing)

/-- Behind a place that a block opened all blocks go on, without a source. -/
theorem at?_applyAll_opened {first : Block} {rest : List (Option Block)}
    (h : asks name blocks = some first :: rest) (path : List String) :
    (Json.obj (applyAll .absent source blocks [])).at? (name :: path) =
      (Json.obj (applyAll .absent (.obj []) (first :: rest.filterMap id) [])).at? path := by
  show (Assoc.get? name _).bind (Json.at? path) = _
  rw [get?_applyAll_of_no_property hs, h, ask_none_opened, Option.bind_some]

theorem at?_applyAll_marked {rest : List (Option Block)} (h : asks name blocks = none :: rest) :
    (Json.obj (applyAll .absent source blocks [])).at? [name] = some .null := by
  show (Assoc.get? name _).bind (Json.at? []) = _
  rw [get?_applyAll_of_no_property hs, h, ask_none_marked]
  rfl

end

/-! ## Who writes first -/

/-- **An open path**: at every place on the way, the first of the entries that write there has a block. -/
def Open : List Block → List String → Prop
  | _, [] => True
  | blocks, name :: path =>
    match asks name blocks with
    | some block :: rest => Open (block :: rest.filterMap id) path
    | _ => False

theorem open_cons_iff {blocks : List Block} {name : String} {path : List String} :
    Open blocks (name :: path) ↔
      ∃ first rest, asks name blocks = some first :: rest ∧ Open (first :: rest.filterMap id) path := by
  rw [Open]
  split
  case h_1 first rest hasks =>
    constructor
    · exact fun h => ⟨first, rest, hasks, h⟩
    · rintro ⟨first', rest', hasks', h⟩
      cases hasks.symm.trans hasks'
      exact h
  case h_2 hno => exact ⟨False.elim, fun ⟨first, rest, hasks, _⟩ => hno first rest hasks⟩

theorem some_mem_asks {blocks : List Block} {outer inner : Block} (ho : outer ∈ blocks) {key : Key}
    (he : (key, Selection.nested inner.tree) ∈ outer.tree.entries) :
    some inner ∈ asks key.output blocks :=
  List.mem_flatMap.mpr ⟨outer, ho, Tree.some_mem_asks he⟩

/-- The blocks that are asked for go on behind the place. -/
theorem mem_opened {name : String} {blocks : List Block} {first block : Block}
    {rest : List (Option Block)} (h : asks name blocks = some first :: rest)
    (hb : some block ∈ asks name blocks) : block ∈ first :: rest.filterMap id := by
  rw [h] at hb
  simpa using hb

variable {source : Json} (hs : ∀ name, source.property? name = none) {blocks : List Block}
  {tree : Tree} {hne : tree ≠ .nil} (ht : ⟨tree, hne⟩ ∈ blocks) {path : List String} {block : Block}
  (hp : tree.BlockAt path block)

include hs ht hp

/-- **A block on an open path is materialized**, with every name that it declares. -/
theorem materialized_of_open (hopen : Open blocks path) :
    ∃ members, (Json.obj (applyAll .absent source blocks [])).at? path = some (.obj members) ∧
      ∀ name ∈ block.tree.outputs, name ∈ Assoc.keys members := by
  induction hp generalizing source blocks with
  | here => exact ⟨_, rfl, fun name hn => mem_keys_applyAll_of_no_property hs ht hn⟩
  | inside he _ ih =>
      obtain ⟨first, rest, hasks, hopen⟩ := open_cons_iff.mp hopen
      rw [at?_applyAll_opened hs hasks]
      exact ih (fun _ => rfl) (mem_opened hasks (some_mem_asks ht he)) hopen

/-- **On the way to any other block stands a marker.** -/
theorem marked_of_not_open (hclosed : ¬Open blocks path) :
    ∃ way, way <+: path ∧ way ≠ [] ∧
      (Json.obj (applyAll .absent source blocks [])).at? way = some .null := by
  induction hp generalizing source blocks with
  | here => exact absurd trivial hclosed
  | @inside _ key _ _ path he _ ih =>
      have hasked := some_mem_asks ht he
      cases hasks : asks key.output blocks with
      | nil => exact absurd hasks (List.ne_nil_of_mem hasked)
      | cons asked rest =>
          cases asked with
          | none =>
              exact ⟨[key.output], List.prefix_append [key.output] path, nofun,
                at?_applyAll_marked hs hasks⟩
          | some first =>
              have hnothing : ∀ name, (Json.obj []).property? name = none := fun _ => rfl
              obtain ⟨way, hway, -, hnull⟩ := ih hnothing (mem_opened hasks hasked) fun hopen =>
                hclosed (open_cons_iff.mpr ⟨first, rest, hasks, hopen⟩)
              exact ⟨key.output :: way, List.cons_prefix_cons.mpr ⟨rfl, hway⟩, nofun,
                (at?_applyAll_opened hs hasks way).trans hnull⟩

end Block

/-! ## A schema -/

namespace Schema

/-- **A block is materialized unless a leaf comes first.**  Of a source that owns nothing, absent mode makes an
object at the path of every block, with every name that the block declares, if at every place on the way the
first entry that writes there has a block; otherwise `null` stands on the way. -/
theorem apply_absent_materialized (schema : Schema) {source : Json}
    (hs : ∀ name, source.property? name = none) {tree : Tree} (ht : tree ∈ schema.trees)
    {path : List String} {block : Block} (hp : tree.BlockAt path block) :
    (Block.Open schema.blocks path →
        ∃ members, (schema.apply .absent source).value.at? path = some (.obj members) ∧
          ∀ name ∈ block.tree.outputs, name ∈ Assoc.keys members) ∧
      (¬Block.Open schema.blocks path →
        ∃ way, way <+: path ∧ way ≠ [] ∧
          (schema.apply .absent source).value.at? way = some .null) := by
  have hblock : ⟨tree, hp.ne_nil⟩ ∈ schema.blocks :=
    List.mem_filterMap.mpr ⟨tree, ht, Tree.toBlock?_of_ne_nil hp.ne_nil⟩
  have hresult : (schema.apply .absent source).value =
      .obj (Block.applyAll .absent source schema.blocks []) := by
    rw [value_apply (List.ne_nil_of_mem ht)]
    refine (result_eq .absent _).resolve_right fun ⟨hnil, _⟩ => ?_
    -- an entry of the tree has left something under its name
    obtain ⟨name, hn⟩ := List.exists_mem_of_ne_nil _ (Tree.outputs_ne_nil hp.ne_nil)
    have hkey := Block.mem_keys_applyAll_of_no_property hs hblock hn
    rw [hnil] at hkey
    cases hkey
  rw [hresult]
  exact ⟨Block.materialized_of_open hs hblock hp, Block.marked_of_not_open hs hblock hp⟩

/-- A block that comes after a leaf of the same name in `late`. -/
def lateBlock : Block := ⟨.leaf ⟨"b", none⟩ .nil, Tree.noConfusion⟩

/-- A block inside a block that comes after another of the same name in `late`. -/
def innerBlock : Block := ⟨.leaf ⟨"g", none⟩ .nil, Tree.noConfusion⟩

/-- A tree with both blocks. -/
def lateTree : Tree :=
  .nested ⟨"a", none⟩ lateBlock.tree
    (.nested ⟨"e", some "c"⟩ (.nested ⟨"f", none⟩ innerBlock.tree .nil) .nil)

/-- The tree with both blocks after a tree with a leaf and a block. -/
def late : Schema :=
  ⟨[.leaf ⟨"a", none⟩ (.nested ⟨"c", none⟩ (.leaf ⟨"d", none⟩ .nil) .nil), lateTree]⟩

theorem compile_late : (compile ["a,c:\x7bd\x7d", "a:\x7bb\x7d,e->c:\x7bf:\x7bg\x7d\x7d"]).value = .ok late :=
  rfl

theorem blockAt_lateBlock : lateTree.BlockAt ["a"] lateBlock := by
  have he : (Key.mk "a" none, Selection.nested lateBlock.tree) ∈ lateTree.entries :=
    List.mem_cons_self
  exact .inside he (.here lateBlock)

theorem blockAt_innerBlock : lateTree.BlockAt ["c", "f"] innerBlock := by
  let around : Block := ⟨.nested ⟨"f", none⟩ innerBlock.tree .nil, Tree.noConfusion⟩
  have he : (Key.mk "e" (some "c"), Selection.nested around.tree) ∈ lateTree.entries :=
    List.mem_cons_of_mem _ List.mem_cons_self
  have hf : (Key.mk "f" none, Selection.nested innerBlock.tree) ∈ around.tree.entries :=
    List.mem_cons_self
  exact .inside he (.inside hf (.here innerBlock))

/-- One of the blocks is materialized, and the other is not. -/
theorem apply_absent_materialized_late :
    ((∀ name, Json.null.property? name = none) ∧ lateTree ∈ late.trees) ∧
      (Block.Open late.blocks ["c", "f"] ∧
        ∃ members, (late.apply .absent .null).value.at? ["c", "f"] = some (.obj members) ∧
          ∀ name ∈ innerBlock.tree.outputs, name ∈ Assoc.keys members) ∧
      ¬Block.Open late.blocks ["a"] ∧
        ∃ way, way <+: ["a"] ∧ way ≠ [] ∧ (late.apply .absent .null).value.at? way = some .null := by
  have hs : ∀ name, Json.null.property? name = none := fun _ => rfl
  have ht : lateTree ∈ late.trees := List.mem_cons_of_mem _ List.mem_cons_self
  have hopen : Block.Open late.blocks ["c", "f"] := trivial
  have hclosed : ¬Block.Open late.blocks ["a"] := id
  exact ⟨⟨hs, ht⟩, ⟨hopen, (apply_absent_materialized late hs ht blockAt_innerBlock).1 hopen⟩, hclosed,
    (apply_absent_materialized late hs ht blockAt_lateBlock).2 hclosed⟩

/-- The condition is needed: a block that comes late is not materialized. -/
theorem not_apply_absent_materializes_every_block :
    ¬ ∀ (fragments : List String) (schema : Schema) (text : String) (source : Json),
      (compile fragments).value = .ok schema → Json.ofText? text = some source →
      (∀ name, source.property? name = none) →
      ∀ (tree : Tree) (path : List String) (block : Block), tree ∈ schema.trees →
        tree.BlockAt path block →
        ∃ members, (schema.apply .absent source).value.at? path = some (.obj members) ∧
          ∀ name ∈ block.tree.outputs, name ∈ Assoc.keys members := by
  intro h
  have hnull : Json.ofText? "null" = some .null := rfl
  obtain ⟨members, hm, -⟩ := h _ late _ .null compile_late hnull (fun _ => rfl) lateTree ["a"]
    lateBlock (List.mem_cons_of_mem _ List.mem_cons_self) blockAt_lateBlock
  have hmarker : (late.apply .absent .null).value.at? ["a"] = some .null := rfl
  cases hmarker.symm.trans hm

end Schema

end JsonProjection
