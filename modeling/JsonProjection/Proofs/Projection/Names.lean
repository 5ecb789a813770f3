/-
# `JsonProjection.Proofs.Projection.Names` -- a projection names no member twice.

What a projection writes are values of the source and objects that it builds itself, by writing members one
by one.  So if neither the source nor the accumulator names a member twice, at any depth, the result does not
either, in both modes: distinctness of names is inherited, and there is always room for one more object.
-/
import JsonProjection.Proofs.Projection.Inherited

namespace JsonProjection

open JsonProjection.Json (Object)
open JsonProjection.Log (Logged)
open JsonProjection.Projection

theorem Json.inherited_distinctNames : Json.Inherited fun _ => Json.DistinctNames where
  null _ := distinctNames_of_no_object rfl
  emptied _ := distinctNames_emptyObject
  property hs hv := DistinctNames.property hs hv
  set ha hv := DistinctNames.set ha hv
  prune := DistinctNames.prune

/-! ## One entry -/

namespace Projection

variable {mode : Mode} {source : Json} {key : Key} {acc : Object}

theorem distinctNames_copyProperty (hs : source.DistinctNames) (ha : (Json.obj acc).DistinctNames) :
    (Json.obj (copyProperty mode source key acc).value).DistinctNames :=
  Json.inherited_distinctNames.copyProperty (d := 0) hs ha mode key

theorem distinctNames_enterProperty {descend : Json → Object → Logged Object}
    {fill : Object → Object}
    (hd : ∀ {value : Json} {inside : Object}, value.DistinctNames →
      (Json.obj inside).DistinctNames → (Json.obj (descend value inside).value).DistinctNames)
    (hf : ∀ {inside : Object}, (Json.obj inside).DistinctNames →
      (Json.obj (fill inside)).DistinctNames)
    (hs : source.DistinctNames) (ha : (Json.obj acc).DistinctNames) :
    (Json.obj (enterProperty mode source key descend fill acc).value).DistinctNames :=
  Json.inherited_distinctNames.enterProperty (d := 0) hd (fun _ => hf)
    (fun _ => Json.distinctNames_emptyObject) hs ha key

theorem distinctNames_settle (ha : (Json.obj acc).DistinctNames) :
    (Json.obj (settle mode acc)).DistinctNames :=
  Json.inherited_distinctNames.settle (d := 0) ha mode

end Projection

/-! ## A whole tree -/

namespace Tree

theorem distinctNames_fill (tree : Tree) {acc : Object} (h : (Json.obj acc).DistinctNames) :
    (Json.obj (tree.fill acc)).DistinctNames :=
  Json.inherited_distinctNames.fill (d := 0) tree (fun _ _ => Json.distinctNames_emptyObject) h

/-- **A projection names no member twice**, if the source and the accumulator do not. -/
theorem distinctNames_projectInto (mode : Mode) (tree : Tree) {source : Json} {acc : Object}
    (hs : source.DistinctNames) (ha : (Json.obj acc).DistinctNames) :
    (Json.obj (tree.projectInto mode source acc)).DistinctNames :=
  Json.inherited_distinctNames.projectInto (d := 0) tree
    (fun _ _ _ => Json.distinctNames_emptyObject) hs ha

end Tree

end JsonProjection
