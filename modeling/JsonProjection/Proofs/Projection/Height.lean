/-
# `JsonProjection.Proofs.Projection.Height` -- how deep a result is.

A property of the source lands in the result as deep as it was, because a projection goes down in both by the same
steps, whatever the names are that it reads and writes.  A bound on the height of the source, the objects around
it counted in, is therefore inherited (`Json.inherited_height`), and a strict result is no higher than its source.
The one exception is a scalar, which has height 0 and gives the empty object.

In absent mode the markers of a block stand as deep as the block lies, even where the source has nothing, and then
the result is one object higher than the blocks nest.
-/
import JsonProjection.Proofs.Json.Parts
import JsonProjection.Proofs.Projection.Inherited

namespace JsonProjection

/-- A bound on the levels of a document, those around a value included. -/
theorem Json.inherited_height (limit : Nat) : Inherited fun d value => d + value.height ≤ limit :=
  .of_obj_iff (C := fun d _ => d < limit) add_height_obj_le_iff id (fun h _ _ => h) (fun _ h => h)

namespace Schema

variable {schema : Schema} {mode : Mode} {source : Json}

/-- **Results are no deeper than their source**, and in absent mode no deeper than the blocks and the object around
them. -/
theorem height_apply_le {n : Nat} (hn : 0 < n) (hs : source.height ≤ n)
    (hblocks : mode = .absent → ∀ tree ∈ schema.trees, tree.nesting < n) :
    (schema.apply mode source).value.height ≤ n := by
  have hempty : (Json.obj []).height = 1 := rfl
  have hroom : mode = .absent → ∀ tree ∈ schema.trees,
      tree.RoomFor (fun d value => d + value.height ≤ n) 0 := by
    intro hm tree htree k hk
    have hlt := hblocks hm tree htree
    show 0 + k + (Json.obj []).height ≤ n
    omega
  have hsource : 0 + source.height ≤ n := by omega
  have hle : 0 + (schema.apply mode source).value.height ≤ n :=
    (Json.inherited_height n).apply hroom (by omega) (Nat.zero_le n) hsource
  omega

/-- **The nesting of a schema**: the greatest nesting of its trees. -/
def nesting (schema : Schema) : Nat := (schema.trees.map Tree.nesting).foldr max 0

theorem nesting_le_of_mem {tree : Tree} (h : tree ∈ schema.trees) : tree.nesting ≤ schema.nesting := by
  obtain ⟨trees⟩ := schema
  induction trees with
  | nil => cases h
  | cons first rest ih =>
      show tree.nesting ≤ max first.nesting (Schema.mk rest).nesting
      rcases List.mem_cons.mp h with rfl | h
      · omega
      · have hrest := ih h
        omega

/-- **The height of a result.**  A strict result is no higher than its source, or an object without anything inside.
An absent result is no higher than its source, or one object higher than the blocks of the trees nest. -/
theorem height_apply (schema : Schema) (source : Json) :
    (schema.apply .strict source).value.height ≤ max 1 source.height ∧
      (schema.apply .absent source).value.height ≤ max source.height (1 + schema.nesting) := by
  constructor
  · exact height_apply_le (by omega) (by omega) nofun
  · refine height_apply_le (by omega) (by omega) fun _ tree htree => ?_
    have hnesting := nesting_le_of_mem htree
    omega

end Schema

end JsonProjection
