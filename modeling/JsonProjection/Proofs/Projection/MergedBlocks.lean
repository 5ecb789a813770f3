/-
# `JsonProjection.Proofs.Projection.MergedBlocks` -- two blocks of one key.

An entry with one block and then an entry of the same key with another are one entry with both blocks.  Something
happens between the two that does not happen inside of the one: the accumulator settles.  Strict mode may write
nothing for the first block, or take its empty result away, and the second block then starts anew.  But what it
starts from is an empty object in either case (`Request.answer_childOf`), so what stands under the name at the end
is the same (`Request.answer_append`), and only the place of the member may differ: one that was taken away comes
back at the end.

If nothing stood under the name at first, not even the places differ.  An entry acts on the members behind those
with other names as it acts on them alone (`Step.apply_append`), so the accumulator can be left out, and without
it there is one member at most.

A value under the name that is no object would make a difference: strict mode keeps it where a block selects
nothing, and the first block may select something that the second takes away.
-/
import JsonProjection.Proofs.Projection.Appended
import JsonProjection.Proofs.Projection.Independence

namespace JsonProjection

open JsonProjection.Json (Object childOf)
open JsonProjection.Log (Logged)
open JsonProjection.Projection

/-! ## Two blocks at one place -/

/-- **One block behind another.** -/
def Block.append (block other : Block) : Block :=
  ⟨block.tree.append other.tree, Tree.append_ne_nil other.ne_nil⟩

namespace Projection.Request

/-- To a block, nothing is as good as an empty object. -/
theorem answer_childOf (mode : Mode) (property : Option Json) (block : Block) {place : Option Json}
    (h : ∀ value ∈ place, ∃ child, value = .obj child) :
    answer mode ⟨property, some block⟩ place =
      answer mode ⟨property, some block⟩ (some (.obj (childOf place))) := by
  cases place with
  | some value =>
      obtain ⟨child, rfl⟩ := h value rfl
      rfl
  | none =>
      cases mode with
      | strict => exact answer_settlePlace .strict ⟨property, some block⟩ (some (.obj []))
      | absent =>
          rcases Json.object_or_no_object property with ⟨members, rfl⟩ | hno
          · rfl
          · rw [answer, answer, write_of_no_object hno, write_of_no_object hno]
            rfl

/-- **Two blocks at one place**, one after the other, do what one does that has the entries of both. -/
theorem answer_append (mode : Mode) (property : Option Json) (first second : Block)
    {place : Option Json} (h : ∀ value ∈ place, ∃ child, value = .obj child) :
    answer mode ⟨property, some second⟩ (answer mode ⟨property, some first⟩ place) =
      answer mode ⟨property, some (first.append second)⟩ place := by
  have hblock : ∀ block : Block,
      (⟨property, some block⟩ : Request).block? = none →
        (⟨property, some block⟩ : Request).property = none := fun _ => nofun
  rw [answer_childOf mode property first h, answer_childOf mode property (first.append second) h,
    answer_object (hblock first), answer_settlePlace, answer_object (hblock second),
    answer_object (hblock (first.append second))]
  -- both blocks are applied to the property, or neither is
  rcases Json.object_or_no_object property with ⟨members, rfl⟩ | hno
  · show settlePlace mode (some (.obj (second.tree.projectInto mode (.obj members)
        (first.tree.projectInto mode (.obj members) (childOf place))))) =
      settlePlace mode (some (.obj ((first.tree.append second.tree).projectInto mode (.obj members)
        (childOf place))))
    rw [Tree.projectInto_append]
  · simp only [job?_of_no_object hno]
    cases mode with
    | strict => rfl
    | absent =>
        show some (Json.obj (second.tree.projectInto .absent (.obj [])
            (first.tree.projectInto .absent (.obj []) (childOf place)))) =
          some (.obj ((first.tree.append second.tree).projectInto .absent (.obj []) (childOf place)))
        rw [Tree.projectInto_append]

end Projection.Request

/-! ## Members behind others -/

namespace Projection

section Behind

variable {name : String} {base : Object} (h : name ∉ Assoc.keys base)
include h

theorem fillMember_append (fill : Object → Object) (acc : Object) :
    fillMember name fill (base ++ acc) = base ++ fillMember name fill acc := by
  unfold fillMember
  rw [Assoc.get?_append_of_not_mem h]
  split
  · exact Assoc.set_append_of_not_mem h _ acc
  · rfl
  · exact Assoc.set_append_of_not_mem h _ acc

theorem writeChild_append (mode : Mode) (child acc : Object) :
    writeChild mode name child (base ++ acc) = base ++ writeChild mode name child acc := by
  unfold writeChild
  split
  · exact Assoc.set_append_of_not_mem h _ acc
  · split
    · rfl
    · exact Assoc.set_append_of_not_mem h _ acc

end Behind

section Behind

variable {key : Key} {base : Object} (h : key.output ∉ Assoc.keys base)
include h

theorem value_copyProperty_append (mode : Mode) (source : Json) (acc : Object) :
    (copyProperty mode source key (base ++ acc)).value =
      base ++ (copyProperty mode source key acc).value := by
  rw [value_copyProperty, value_copyProperty]
  split
  · exact Assoc.set_append_of_not_mem h _ acc
  · rfl
  · exact Assoc.ensure_append_of_not_mem h _ acc

theorem value_enterProperty_append (mode : Mode) (source : Json)
    (descend : Json → Object → Logged Object) (fill : Object → Object) (acc : Object) :
    (enterProperty mode source key descend fill (base ++ acc)).value =
      base ++ (enterProperty mode source key descend fill acc).value := by
  unfold enterProperty
  rw [Assoc.get?_append_of_not_mem h]
  split
  · split
    · exact Assoc.set_append_of_not_mem h _ acc
    · exact writeChild_append h mode _ acc
  · cases mode with
    | strict => rfl
    | absent => exact fillMember_append h fill acc

end Behind

theorem settle_append (mode : Mode) (base acc : Object) :
    settle mode (base ++ acc) = settle mode base ++ settle mode acc := by
  cases mode with
  | strict => exact Object.prune_append base acc
  | absent => rfl

/-- What has settled stays. -/
theorem settle_settle (mode : Mode) (acc : Object) : settle mode (settle mode acc) = settle mode acc := by
  cases mode with
  | absent => rfl
  | strict =>
      show acc.prune.prune = acc.prune
      rw [Object.prune, Object.prune, List.filter_filter]
      simp only [Bool.and_self]

end Projection

/-- **A step acts on the members behind others** as it acts on them alone. -/
theorem Step.apply_append {step : Step} {base : Object} (h : step.key.output ∉ Assoc.keys base)
    (mode : Mode) (source : Json) (acc : Object) :
    step.apply mode source (base ++ acc) = base ++ step.apply mode source acc := by
  unfold apply
  split
  · exact value_copyProperty_append h mode source acc
  · exact value_enterProperty_append h mode source _ _ acc

/-! ## One entry with a block -/

namespace Block

/-- The tree with one entry, which has the block. -/
def under (block : Block) (key : Key) : Tree := .nested key block.tree .nil

variable {mode : Mode} {source : Json} {key : Key} {acc : Object}

/-- One step, after which the accumulator settles. -/
theorem projectInto_under (block : Block) (mode : Mode) (source : Json) (key : Key) (acc : Object) :
    (block.under key).projectInto mode source acc =
      settle mode (Step.apply mode source ⟨key, some block⟩ acc) := by
  rw [under, Tree.projectInto_nested mode key block.ne_nil]
  rfl

/-- What the entry leaves under every name. -/
theorem get?_projectInto_under (block : Block) (source : Json) (key : Key)
    (ha : (Assoc.keys acc).Nodup) (name : String) :
    Assoc.get? name ((block.under key).projectInto mode source acc) =
      if key.output = name then
        Request.answer mode ⟨source.property? key.name, some block⟩ (Assoc.get? name acc)
      else settlePlace mode (Assoc.get? name acc) := by
  rw [projectInto_under, get?_settle (Step.nodup_keys_apply _ mode source ha)]
  split
  case isTrue hname =>
    subst hname
    rw [Step.get?_apply_self mode source ⟨key, some block⟩ acc]
    rfl
  case isFalse hname => rw [Step.get?_apply_of_ne hname]

/-- The entry acts on the members behind others as on them alone. -/
theorem projectInto_under_append (block : Block) (mode : Mode) (source : Json)
    {base : Object} (h : key.output ∉ Assoc.keys base) (acc : Object) :
    (block.under key).projectInto mode source (base ++ acc) =
      settle mode base ++ (block.under key).projectInto mode source acc := by
  rw [projectInto_under, projectInto_under, Step.apply_append h, settle_append]

end Block

/-! ## Two entries of one key -/

namespace Tree

variable {mode : Mode} {key : Key} {first second : Block} {source : Json} {acc : Object}

/-- **Two entries of one key, name by name**: under every name they leave what one entry with both blocks
leaves, if no value stands under the name of the key that is no object. -/
theorem get?_projectInto_twoBlocks (ha : (Assoc.keys acc).Nodup)
    (hplace : ∀ value ∈ Assoc.get? key.output acc, ∃ child, value = .obj child) (name : String) :
    Assoc.get? name ((second.under key).projectInto mode source
        ((first.under key).projectInto mode source acc)) =
      Assoc.get? name (((first.append second).under key).projectInto mode source acc) := by
  have hone := (first.under key).nodup_keys_projectInto mode source ha
  rw [Block.get?_projectInto_under second source key hone,
    Block.get?_projectInto_under first source key ha,
    Block.get?_projectInto_under (first.append second) source key ha]
  by_cases hname : key.output = name
  · subst hname
    rw [if_pos rfl, if_pos rfl, if_pos rfl]
    exact Request.answer_append mode _ first second hplace
  · rw [if_neg hname, if_neg hname, if_neg hname, settlePlace_settlePlace]

/-- From the empty accumulator there is one member at most, so the values decide. -/
theorem projectInto_twoBlocks_nil (mode : Mode) (key : Key) (first second : Block) (source : Json) :
    (second.under key).projectInto mode source ((first.under key).projectInto mode source []) =
      ((first.append second).under key).projectInto mode source [] := by
  have hempty : (Assoc.keys ([] : Object)).Nodup := List.nodup_nil
  have hget : ∀ name, Assoc.get? name ((second.under key).projectInto mode source
        ((first.under key).projectInto mode source [])) =
      Assoc.get? name (((first.append second).under key).projectInto mode source []) :=
    get?_projectInto_twoBlocks hempty nofun
  have htwo := (second.under key).nodup_keys_projectInto mode source
    ((first.under key).nodup_keys_projectInto mode source hempty)
  have hboth := ((first.append second).under key).nodup_keys_projectInto mode source hempty
  have hother : ∀ name, name ≠ key.output →
      Assoc.get? name (((first.append second).under key).projectInto mode source []) = none := by
    intro name hname
    rw [Block.get?_projectInto_under _ source key hempty, if_neg hname.symm]
    exact settlePlace_none mode
  rw [Assoc.eq_of_only_key htwo fun name hname => (hget name).trans (hother name hname),
    Assoc.eq_of_only_key hboth hother, hget]

/-- **Blocks of one key merge.**  Let no value stand under the name of a key that is no object.  Two entries of
the key with a block each, one after the other, leave what one entry leaves that has the entries of both blocks, up
to the order of the members; and in the same order if nothing stood under the name.  Where the blocks share no key,
the entries of both are the second block merged into the first (`merge_eq_append`). -/
theorem projectInto_twoBlocks (mode : Mode) (key : Key) {first second : Tree} (hfirst : first ≠ .nil)
    (hsecond : second ≠ .nil) (source : Json) {acc : Object} (ha : (Assoc.keys acc).Nodup)
    (hplace : ∀ value ∈ Assoc.get? key.output acc, ∃ child, value = .obj child) :
    let entry (block : Tree) : Tree := .nested key block .nil
    let two := (entry second).projectInto mode source ((entry first).projectInto mode source acc)
    let one := (entry (first.append second)).projectInto mode source acc
    two.Perm one ∧ (Assoc.get? key.output acc = none → two = one) := by
  let firstBlock : Block := ⟨first, hfirst⟩
  let secondBlock : Block := ⟨second, hsecond⟩
  intro entry two one
  have hget : ∀ name, Assoc.get? name ((secondBlock.under key).projectInto mode source
        ((firstBlock.under key).projectInto mode source acc)) =
      Assoc.get? name (((firstBlock.append secondBlock).under key).projectInto mode source acc) :=
    get?_projectInto_twoBlocks ha hplace
  have hnodup := (entry first).nodup_keys_projectInto mode source ha
  refine ⟨Assoc.perm_of_get?_eq ((entry second).nodup_keys_projectInto mode source hnodup)
    ((entry (first.append second)).nodup_keys_projectInto mode source ha) hget, fun hnone => ?_⟩
  have hfree : key.output ∉ Assoc.keys acc := (Assoc.get?_eq_none_iff _ _).mp hnone
  have hsettled : key.output ∉ Assoc.keys (settle mode acc) := by
    rw [← Assoc.get?_eq_none_iff, get?_settle ha, hnone, settlePlace_none]
  calc two
    _ = (secondBlock.under key).projectInto mode source
          ((firstBlock.under key).projectInto mode source (acc ++ [])) := by
        rw [List.append_nil]
        rfl
    _ = settle mode acc ++ (secondBlock.under key).projectInto mode source
          ((firstBlock.under key).projectInto mode source []) := by
        rw [Block.projectInto_under_append firstBlock mode source hfree,
          Block.projectInto_under_append secondBlock mode source hsettled, settle_settle]
    _ = settle mode acc ++ ((firstBlock.append secondBlock).under key).projectInto mode source [] := by
        rw [projectInto_twoBlocks_nil]
    _ = ((firstBlock.append secondBlock).under key).projectInto mode source (acc ++ []) :=
        (Block.projectInto_under_append _ mode source hfree []).symm
    _ = one := by
        rw [List.append_nil]
        rfl

/-- The first block takes away what the accumulator holds, and with it the member, which comes back at the end;
where nothing stood under the name the member comes last in any case. -/
theorem projectInto_twoBlocks_emptied :
    let key : Key := ⟨"owner", some "customer"⟩
    let address : Tree := .leaf ⟨"address", none⟩ .nil
    let name : Tree := .leaf ⟨"name", none⟩ .nil
    let source : Json := .obj [("owner", .obj [("address", .obj []), ("name", .str "Ann")])]
    let acc : Object := [("customer", .obj [("address", .str "unknown")]), ("id", .null)]
    let entry (block : Tree) : Tree := .nested key block .nil
    let two (acc : Object) : Object :=
      (entry name).projectInto .strict source ((entry address).projectInto .strict source acc)
    let one (acc : Object) : Object := (entry (address.append name)).projectInto .strict source acc
    ((address ≠ .nil ∧ name ≠ .nil) ∧ (Assoc.keys acc).Nodup ∧
        Assoc.get? key.output acc = some (.obj [("address", .str "unknown")]) ∧
        Assoc.get? key.output [("id", Json.null)] = none) ∧
      two acc = [("id", .null), ("customer", .obj [("name", .str "Ann")])] ∧
      one acc = [("customer", .obj [("name", .str "Ann")]), ("id", .null)] ∧
      (two acc).Perm (one acc) ∧ two [("id", .null)] = one [("id", .null)] := by
  intro key address name source acc entry two one
  have haddress : address ≠ .nil := Tree.noConfusion
  have hname : name ≠ .nil := Tree.noConfusion
  have ha : (Assoc.keys acc).Nodup := by decide
  have hplace : ∀ value ∈ Assoc.get? key.output acc, ∃ child, value = .obj child := by
    rintro _ ⟨⟩
    exact ⟨_, rfl⟩
  obtain ⟨hperm, -⟩ := projectInto_twoBlocks .strict key haddress hname source ha hplace
  have hfree : Assoc.get? key.output [("id", Json.null)] = none := rfl
  have ha' : (Assoc.keys [("id", Json.null)]).Nodup := by decide
  obtain ⟨-, horder⟩ := projectInto_twoBlocks .strict key haddress hname source ha' nofun
  exact ⟨⟨⟨haddress, hname⟩, ha, rfl, hfree⟩, rfl, rfl, hperm, horder hfree⟩

end Tree

end JsonProjection
