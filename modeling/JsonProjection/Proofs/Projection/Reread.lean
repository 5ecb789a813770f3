/-
# `JsonProjection.Proofs.Projection.Reread` -- the output of a projection as a document.

The text that a projection returns is a document again, if the reader admits its nesting.  The result of a
projection is as deep as its source at most, save in absent mode, where the blocks of the fragments may lie deeper
than anything in the source (`height_apply_le`).  Fragments may hold one level of blocks more than a document may
hold levels of objects, and every block stands inside one object more, so in absent mode two levels of blocks are
too many: their markers are written and refused when they are read.
-/
import JsonProjection.Proofs.Fragment.Canonical
import JsonProjection.Proofs.Json.Read
import JsonProjection.Proofs.Json.RoundTrip
import JsonProjection.Proofs.Projection.Entries
import JsonProjection.Proofs.Projection.Height

namespace JsonProjection

open JsonProjection.Json (Object)

/-! ## What a result inherits -/

namespace Json

theorem inherited_unambiguous : Inherited fun _ => Unambiguous :=
  .of_obj_iff unambiguous_obj_iff (fun _ => unambiguous_null) Assoc.nodup_keys_set
    (fun hkept hnames => hnames.sublist hkept)

theorem inherited_readableNumbers : Inherited fun _ => ReadableNumbers :=
  .of_obj_iff (C := fun _ _ => True) (by intro d members; rw [readableNumbers_obj_iff, true_and])
    (fun _ => readableNumbers_null) (fun _ _ _ => trivial) (fun _ _ => trivial)

end Json

namespace Schema

variable {schema : Schema} {mode : Mode} {source : Json}

theorem unambiguous_apply (h : source.Unambiguous) : (schema.apply mode source).value.Unambiguous :=
  Json.inherited_unambiguous.apply (fun _ _ _ _ _ => Json.unambiguous_emptyObject)
    Json.unambiguous_emptyObject Json.unambiguous_null h

theorem readableNumbers_apply (h : source.ReadableNumbers) :
    (schema.apply mode source).value.ReadableNumbers :=
  Json.inherited_readableNumbers.apply (fun _ _ _ _ _ => Json.readableNumbers_emptyObject)
    Json.readableNumbers_emptyObject Json.readableNumbers_null h

end Schema

namespace Projection

/-! ## Reading the output -/

/-- Without fragments a text is read and written, so the text of a value comes back if the reader admits its
nesting. -/
theorem projectText_compact_nil (mode : Mode) {value : Json} (hu : value.Unambiguous)
    (hn : value.ReadableNumbers) :
    projectText mode value.compact [] =
      if value.height ≤ Json.nestingLimit then .ok value.compact else .error .malformedJson := by
  have hschema : compileSchema [] = .ok ⟨[]⟩ := rfl
  rw [projectText, hschema, Json.ofText?, Json.ofTextWithin?_compact hu hn]
  split_ifs <;> rfl

/-- **The output is a document again, if it is not nested too deeply.**  Projecting the output of a projection
without fragments gives it back, or refuses it as malformed if the result has more levels than a document may have.
It never has in strict mode, nor in absent mode unless a fragment has at least as many levels of blocks as a
document may have of arrays and objects. -/
theorem projectText_projectText {mode : Mode} {text : String} {fragments : List String} {out : String}
    (h : projectText mode text fragments = .ok out)
    (hnumbers : ∀ source, Json.ofText? text = some source → source.ReadableNumbers) :
    ∃ schema source, compileSchema fragments = .ok schema ∧ Json.ofText? text = some source ∧
      (∀ again, projectText again out [] =
        if (schema.apply mode source).value.height ≤ Json.nestingLimit then .ok out
        else .error .malformedJson) ∧
      (mode = .strict ∨ (∀ tree ∈ schema.trees, tree.nesting < Json.nestingLimit) →
        (schema.apply mode source).value.height ≤ Json.nestingLimit) := by
  obtain ⟨schema, source, hschema, hsource, rfl⟩ := projectText_eq_ok_iff.mp h
  have hfits := Json.fits_of_ofTextWithin? hsource
  refine ⟨schema, source, hschema, hsource, fun again => ?_, fun hbound => ?_⟩
  · exact projectText_compact_nil again (Schema.unambiguous_apply hfits.unambiguous)
      (Schema.readableNumbers_apply (hnumbers source hsource))
  · have hheight : source.height ≤ Json.nestingLimit := by simpa using hfits.height_le
    refine Schema.height_apply_le (by decide) hheight fun hm => ?_
    rcases hbound with hstrict | hblocks
    · cases hm.symm.trans hstrict
    · exact hblocks

/-- One half. -/
def half : Json.Double :=
  ⟨false, 4503599627370496, -53, by decide, by decide, by decide, by decide⟩

/-- A document with a number of either kind, and nothing called `c`. -/
def measuredText : String := "\x7b\"a\": \x7b\"b\": [-2, \x7b\x7d]\x7d, \"x\": 0.50\x7d"

def measured : Json :=
  .obj [("a", .obj [("b", .arr [.num (.int (-2) (by decide) (by decide)), .obj []])]),
    ("x", .num (.float half))]

def measuredOut : String :=
  "\x7b\"a\":\x7b\"b\":[-2,\x7b\x7d],\"d\":\x7b\"e\":null\x7d\x7d,\"x\":0.5\x7d"

theorem ofText?_measuredText : Json.ofText? measuredText = some measured := rfl

/-- The schema of one fragment with two levels of blocks. -/
def reaching : Schema :=
  ⟨[.nested ⟨"a", none⟩
      (.leaf ⟨"b", none⟩ <| .nested ⟨"c", some "d"⟩ (.leaf ⟨"e", none⟩ .nil) .nil) <|
    .leaf ⟨"x", none⟩ .nil]⟩

theorem compileSchema_reaching : compileSchema ["a:\x7bb,c->d:\x7be\x7d\x7d,x"] = .ok reaching := rfl

theorem readableNumbers_measured : measured.ReadableNumbers := by
  have hint : (Json.Token.num (.int (-2) (by decide) (by decide))).ReadsBack :=
    Json.Number.ofChars?_chars_int _ _ _
  have hhalf : (Json.Token.num (.float half)).ReadsBack :=
    show Json.Number.ofChars? half.chars = some (.float half) by decide +kernel
  simp [measured, Json.readableNumbers_obj_iff, Json.readableNumbers_arr_iff,
    Json.readableNumbers_num_iff, hint, hhalf]

/-- Markers, an array that holds an empty object and numbers of either kind, written and read again. -/
theorem projectText_projectText_measured :
    (projectText .absent measuredText ["a:\x7bb,c->d:\x7be\x7d\x7d,x"] = .ok measuredOut ∧
        ∀ source, Json.ofText? measuredText = some source → source.ReadableNumbers) ∧
      ∀ again, projectText again measuredOut [] = .ok measuredOut := by
  have hcompact : (reaching.apply .absent measured).value.compact = measuredOut := by decide +kernel
  have hout := projectText_eq_ok_iff.mpr
    ⟨reaching, measured, compileSchema_reaching, ofText?_measuredText, hcompact⟩
  have hnumbers : ∀ source, Json.ofText? measuredText = some source → source.ReadableNumbers := by
    intro source hs
    rw [ofText?_measuredText] at hs
    exact Option.some.inj hs ▸ readableNumbers_measured
  obtain ⟨schema, source, hschema, -, hagain, hbound⟩ := projectText_projectText hout hnumbers
  have heq : reaching = schema := Except.ok.inj (compileSchema_reaching.symm.trans hschema)
  have hblocks : ∀ tree ∈ reaching.trees, tree.nesting < Json.nestingLimit := by decide
  have hheight := hbound (.inr (heq ▸ hblocks))
  refine ⟨⟨hout, hnumbers⟩, fun again => ?_⟩
  rw [hagain, if_pos hheight]

end Projection

namespace Tree

/-- So many blocks inside one another, around one leaf. -/
def chain : Nat → Tree
  | 0 => .leaf ⟨"a", none⟩ .nil
  | n + 1 => .nested ⟨"a", none⟩ (chain n) .nil

theorem chain_ne_nil (n : Nat) : chain n ≠ .nil := by
  cases n <;> exact nofun

theorem nesting_chain (n : Nat) : (chain n).nesting = n := by
  induction n with
  | zero => rfl
  | succ n ih =>
      have he : ¬(chain n).isEmpty = true := mt (isEmpty_iff _).mp (chain_ne_nil n)
      rw [chain, nesting, if_neg he, ih]
      rfl

/-- Every level of a chain is a chain. -/
theorem everyLevel_chain {P : Tree → Prop} (h : ∀ n, P (chain n)) (n : Nat) :
    (chain n).EveryLevel P := by
  induction n with
  | zero => exact ⟨h 0, trivial⟩
  | succ n ih => exact ⟨h (n + 1), ih, trivial⟩

theorem keys_chain (n : Nat) : Assoc.keys (chain n).entries = [⟨"a", none⟩] := by
  cases n <;> rfl

theorem canonical_chain {n : Nat} (h : n ≤ maxNesting) : (chain n).Canonical where
  ne_nil := chain_ne_nil n
  distinctKeys := everyLevel_chain (fun m => by rw [keys_chain]; decide) n
  wellNamed := everyLevel_chain (fun m key hk => by
    rw [keys_chain, List.mem_singleton] at hk
    exact hk ▸ by decide) n
  noEmptyBlocks := (everyLevel_chain chain_ne_nil n).2
  nesting_le := (nesting_chain n).symm ▸ h

theorem fill_chain_succ (n : Nat) :
    (chain (n + 1)).fill [] = [("a", .obj ((chain n).fill []))] := by
  cases n <;> rfl

/-- Filling a chain builds an object around every block and one around them all. -/
theorem height_fill_chain (n : Nat) : (Json.obj ((chain n).fill [])).height = n + 1 := by
  induction n with
  | zero => rfl
  | succ n ih => rw [fill_chain_succ, Json.height, Json.membersHeight, Json.membersHeight, ih, Nat.max_zero]

end Tree

namespace Projection

/-- A tree that the compiler returns makes a schema of its own text. -/
theorem compileSchema_text {tree : Tree} (h : tree.Canonical) :
    compileSchema [tree.text] = .ok ⟨[tree]⟩ := by
  have hcompile : (Schema.compile [tree.text]).value = .ok ⟨[tree]⟩ := by
    simp [Schema.compile, Schema.compileTrees, h.compile_text, Except.map]
  rw [compileSchema, hcompile]

theorem value_apply_chain (n : Nat) :
    ((Schema.mk [Tree.chain n]).apply .absent .null).value = .obj ((Tree.chain n).fill []) := by
  cases n with
  | zero => rfl
  | succ n => cases n <;> rfl

/-- Not every output is a document again: with as many blocks inside one another as a document may have levels, the
markers have one level more. -/
theorem not_projectText_projectText_every :
    ¬ ∀ (mode : Mode) (text : String) (fragments : List String) (out : String),
      (∀ source, Json.ofText? text = some source → source.ReadableNumbers) →
        projectText mode text fragments = .ok out → projectText mode out [] = .ok out := by
  intro h
  have hnull : Json.ofText? "null" = some .null := rfl
  have hcompile := compileSchema_text (Tree.canonical_chain (n := 127) (by decide))
  have hout : projectText .absent "null" [(Tree.chain 127).text] =
      .ok ((Schema.mk [Tree.chain 127]).apply .absent .null).value.compact :=
    projectText_eq_ok_iff.mpr ⟨_, _, hcompile, hnull, rfl⟩
  have hnumbers : ∀ source, Json.ofText? "null" = some source → source.ReadableNumbers := by
    intro source hs
    rw [hnull] at hs
    exact Option.some.inj hs ▸ Json.readableNumbers_null
  have hagain := h .absent _ _ _ hnumbers hout
  rw [projectText_compact_nil .absent (Schema.unambiguous_apply Json.unambiguous_null)
    (Schema.readableNumbers_apply Json.readableNumbers_null), value_apply_chain,
    Tree.height_fill_chain, if_neg (by decide)] at hagain
  cases hagain

end Projection

end JsonProjection
