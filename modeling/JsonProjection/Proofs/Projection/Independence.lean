/-
# `JsonProjection.Proofs.Projection.Independence` -- output names do not meddle with one another.

Strict mode prunes the whole accumulator after every entry, so an entry may take away members that it does not
write.  It does so only where an empty object stands; and where none stood at first none ever stands under a
name that the entry does not write.  So what a tree makes of one member of a settled accumulator is what the
entries for that name make of that member alone (`get?_projectInto_of_settled`).

It follows that a tree can be cut down to the entries of one name, and the accumulator to its member, without a
change at that name; that a name which no entry writes keeps its value; and that two trees which share no output
name can be applied in either order.
-/
import JsonProjection.Proofs.Projection.Idempotence
import JsonProjection.Proofs.Projection.Strict

namespace JsonProjection

open JsonProjection.Json (Object)
open JsonProjection.Projection
open JsonProjection.Projection.Request (answerAll)

/-! ## One name of an object -/

namespace Json.Object

/-- The members under one name. -/
def only (name : String) (members : Object) : Object := members.filter fun m => m.1 = name

theorem get?_only (name : String) (members : Object) :
    Assoc.get? name (members.only name) = Assoc.get? name members :=
  Assoc.get?_filter_key (fun other => decide (other = name)) (decide_eq_true rfl) members

theorem nodup_keys_only {members : Object} (h : (Assoc.keys members).Nodup) (name : String) :
    (Assoc.keys (members.only name)).Nodup :=
  h.sublist (List.filter_sublist.map Prod.fst)

theorem Pruned.only {members : Object} (h : members.Pruned) (name : String) :
    (members.only name).Pruned := fun m hm => h m (List.mem_filter.mp hm).1

/-- A pruned object is settled. -/
theorem Pruned.settled {members : Object} (h : members.Pruned) : Settled .strict members := by
  intro name
  refine settlePlace_of_ne (fun hempty => ?_) .strict
  cases h _ (Assoc.mem_of_get?_eq_some hempty)

end Json.Object

/-! ## One name of a tree -/

namespace Tree

/-- **The entries that write under one name**, in declaration order. -/
def only (name : String) (tree : Tree) : Tree :=
  ofEntries (tree.entries.filter fun entry => entry.1.output = name)

theorem steps_only (name : String) (tree : Tree) :
    (tree.only name).steps = tree.steps.filter fun step => step.key.output = name := by
  rw [steps_eq_map, steps_eq_map, only, entries_ofEntries, List.filter_map]
  simp only [Function.comp_def, key_stepOf]

theorem requests_only (name : String) (source : Json) (tree : Tree) :
    (tree.only name).requests name source = tree.requests name source := by
  rw [requests, requests, steps_only, List.filter_filter]
  simp only [Bool.and_self]

/-- Nothing is requested for a name that no entry writes. -/
theorem requests_eq_nil {name : String} {tree : Tree} (h : name ∉ tree.outputs) (source : Json) :
    tree.requests name source = [] := by
  rw [requests, List.map_eq_nil_iff, List.filter_eq_nil_iff]
  intro step hs he
  exact h (List.mem_map.mpr ⟨step.key, key_mem_of_mem_steps hs, of_decide_eq_true he⟩)

/-! ## A name of a settled accumulator -/

variable {mode : Mode} {acc : Object}

theorem nodup_keys_projectInto (mode : Mode) (tree : Tree) (source : Json)
    (ha : (Assoc.keys acc).Nodup) : (Assoc.keys (tree.projectInto mode source acc)).Nodup := by
  rw [projectInto_eq_applyAll]
  exact Step.nodup_keys_applyAll mode source tree.steps ha

/-- A settled accumulator stays settled. -/
theorem settled_projectInto (tree : Tree) (source : Json) (ha : (Assoc.keys acc).Nodup)
    (h : Settled mode acc) : Settled mode (tree.projectInto mode source acc) := by
  rw [projectInto_eq_applyAll]
  exact Step.settled_applyAll ha fun _ => h

/-- **One member of a settled accumulator** answers the requests for its name. -/
theorem get?_projectInto_of_settled (tree : Tree) (source : Json) (ha : (Assoc.keys acc).Nodup)
    (h : Settled mode acc) (name : String) :
    Assoc.get? name (tree.projectInto mode source acc) =
      answerAll mode (tree.requests name source) (Assoc.get? name acc) := by
  rw [← settled_projectInto tree source ha h name, get?_projectInto mode tree source ha, h name]

/-- The trees in either order, at one name: at most one of them has requests for it. -/
theorem get?_projectInto_comm {tree other : Tree}
    (hdisjoint : ∀ name ∈ tree.outputs, name ∉ other.outputs) (source : Json)
    (ha : (Assoc.keys acc).Nodup) (h : Settled mode acc) (name : String) :
    Assoc.get? name (other.projectInto mode source (tree.projectInto mode source acc)) =
      Assoc.get? name (tree.projectInto mode source (other.projectInto mode source acc)) := by
  have hboth : ∀ first second : Tree,
      Assoc.get? name (second.projectInto mode source (first.projectInto mode source acc)) =
        answerAll mode (second.requests name source)
          (answerAll mode (first.requests name source) (Assoc.get? name acc)) := by
    intro first second
    rw [get?_projectInto_of_settled second source (nodup_keys_projectInto mode first source ha)
      (settled_projectInto first source ha h), get?_projectInto_of_settled first source ha h]
  rw [hboth, hboth]
  by_cases hn : name ∈ tree.outputs
  · rw [requests_eq_nil (hdisjoint name hn)]
    rfl
  · rw [requests_eq_nil hn]
    rfl

/-- **Output names do not meddle with one another.** In an accumulator that repeats no name, and in strict mode
holds no empty object: what a tree leaves under a name is what its entries for that name make of the member under
it alone; a name that no entry writes keeps its value; and two trees that share no output name can be applied in
either order, with results that differ at most in the order of their members. -/
theorem projectInto_name_by_name (mode : Mode) (source : Json) {acc : Object}
    (ha : (Assoc.keys acc).Nodup) (hp : mode = .strict → acc.Pruned) :
    (∀ (tree : Tree) (name : String),
      Assoc.get? name (tree.projectInto mode source acc) =
        Assoc.get? name ((tree.only name).projectInto mode source (acc.only name))) ∧
    (∀ (tree : Tree) (name : String), name ∉ tree.outputs →
      Assoc.get? name (tree.projectInto mode source acc) = Assoc.get? name acc) ∧
    (∀ tree other : Tree, (∀ name ∈ tree.outputs, name ∉ other.outputs) →
      (other.projectInto mode source (tree.projectInto mode source acc)).Perm
        (tree.projectInto mode source (other.projectInto mode source acc))) := by
  have hsettled : ∀ {members : Object}, (mode = .strict → members.Pruned) → Settled mode members := by
    intro members hm
    cases mode with
    | strict => exact (hm rfl).settled
    | absent => exact fun _ => rfl
  refine ⟨fun tree name => ?_, fun tree name hn => ?_, fun tree other hdisjoint => ?_⟩
  · rw [get?_projectInto_of_settled tree source ha (hsettled hp),
      get?_projectInto_of_settled _ source (Object.nodup_keys_only ha name)
        (hsettled fun hm => (hp hm).only name),
      requests_only, Object.get?_only]
  · rw [get?_projectInto_of_settled tree source ha (hsettled hp), requests_eq_nil hn]
    rfl
  · have hboth := fun first second : Tree =>
      nodup_keys_projectInto mode second source (nodup_keys_projectInto mode first source ha)
    exact Assoc.perm_of_get?_eq (hboth tree other) (hboth other tree)
      (get?_projectInto_comm hdisjoint source ha (hsettled hp))

/-- A tree that shares no output name with the contested one. -/
def aside : Tree :=
  .nested ⟨"b", some "k"⟩ (.leaf ⟨"r", none⟩ <| .leaf ⟨"p", some "s"⟩ .nil) .nil

/-- The contested tree first drops the member `o` and then writes it anew; the other tree replaces the member `k`
meanwhile or afterwards. -/
theorem projectInto_name_by_name_contested :
    let acc : Object := [("o", .bool false), ("k", .arr [.null]), ("free", .null)]
    let run (tree : Tree) (acc : Object) : Object := tree.projectInto .strict Json.contest acc
    ((Assoc.keys acc).Nodup ∧ acc.Pruned ∧ ∀ name ∈ contested.outputs, name ∉ aside.outputs) ∧
      Assoc.get? "o" (run contested acc) = Assoc.get? "o" (run (contested.only "o") (acc.only "o")) ∧
      Assoc.get? "free" (run contested acc) = some .null ∧
      (run aside (run contested acc)).Perm (run contested (run aside acc)) ∧
      run aside (run contested acc) =
        [("k", .obj [("s", .bool true)]), ("free", .null), ("o", .obj [("q", .bool true)]),
          ("z", .null)] := by
  intro acc run
  have ha : (Assoc.keys acc).Nodup := by decide
  have hp : acc.Pruned := by simp [acc, Json.Object.Pruned, Json.isEmptyObject]
  have hdisjoint : ∀ name ∈ contested.outputs, name ∉ aside.outputs := by decide
  obtain ⟨hmember, hkept, hcomm⟩ := projectInto_name_by_name .strict Json.contest ha fun _ => hp
  exact ⟨⟨ha, hp, hdisjoint⟩, hmember contested "o", hkept contested "free" (by decide),
    hcomm contested aside hdisjoint, rfl⟩

end Tree

end JsonProjection
