/-
# `JsonProjection.Proofs.Json.Read` -- what a text can describe.

The type of values allows an object to name a member twice, and sets no bound to nesting; a value that was read
from a text names no member twice and is nested no deeper than the reader admits.  A value inside `depth` open
arrays and objects must leave room for them (`Fits`).  All that the reader holds at any moment fits where it
stands, the arrays and objects on its stack and the one at hand, as far as they have been read (`State.Fits`), and
every token leaves it so.
-/
import JsonProjection.Json.Reader
import JsonProjection.Proofs.Json.Parts

namespace JsonProjection.Json

variable {limit depth : Nat}

/-- **Fitting**: a value that may stand inside `depth` open arrays and objects. -/
structure Fits (limit depth : Nat) (value : Json) : Prop where
  unambiguous : value.Unambiguous
  height_le : depth + value.height ≤ limit

theorem fits_of_scalar {value : Json} (hu : value.Unambiguous) (hheight : value.height = 0)
    (h : depth ≤ limit) : Fits limit depth value :=
  ⟨hu, by rwa [hheight, Nat.add_zero]⟩

theorem fits_arr_iff {items : List Json} :
    Fits limit depth (.arr items) ↔ depth < limit ∧ ∀ item ∈ items, Fits limit (depth + 1) item := by
  constructor
  · rintro ⟨hu, hh⟩
    obtain ⟨hlt, hitems⟩ := add_height_arr_le_iff.mp hh
    exact ⟨hlt, fun item hitem => ⟨unambiguous_arr_iff.mp hu item hitem, hitems item hitem⟩⟩
  · rintro ⟨hlt, hitems⟩
    exact ⟨unambiguous_arr_iff.mpr fun item hitem => (hitems item hitem).unambiguous,
      add_height_arr_le_iff.mpr ⟨hlt, fun item hitem => (hitems item hitem).height_le⟩⟩

theorem fits_obj_iff {members : Object} :
    Fits limit depth (.obj members) ↔
      depth < limit ∧ (Assoc.keys members).Nodup ∧
        ∀ member ∈ members, Fits limit (depth + 1) member.2 := by
  constructor
  · rintro ⟨hu, hh⟩
    obtain ⟨hnames, hvalues⟩ := unambiguous_obj_iff.mp hu
    obtain ⟨hlt, hmembers⟩ := add_height_obj_le_iff.mp hh
    exact ⟨hlt, hnames, fun member hmember => ⟨hvalues member hmember, hmembers member hmember⟩⟩
  · rintro ⟨hlt, hnames, hmembers⟩
    have hvalues : ∀ member ∈ members, member.2.Unambiguous :=
      fun member hmember => (hmembers member hmember).unambiguous
    exact ⟨unambiguous_obj_iff.mpr ⟨hnames, hvalues⟩,
      add_height_obj_le_iff.mpr ⟨hlt, fun member hmember => (hmembers member hmember).height_le⟩⟩

/-- One more item. -/
theorem Fits.consItem {items : List Json} (h : Fits limit depth (.arr items)) {item : Json}
    (hitem : Fits limit (depth + 1) item) : Fits limit depth (.arr (item :: items)) := by
  obtain ⟨hlt, hitems⟩ := fits_arr_iff.mp h
  exact fits_arr_iff.mpr ⟨hlt, List.forall_mem_cons.mpr ⟨hitem, hitems⟩⟩

theorem Fits.reverse {items : List Json} (h : Fits limit depth (.arr items)) :
    Fits limit depth (.arr items.reverse) := by
  obtain ⟨hlt, hitems⟩ := fits_arr_iff.mp h
  exact fits_arr_iff.mpr ⟨hlt, fun item hitem => hitems item (List.mem_reverse.mp hitem)⟩

/-- One member written. -/
theorem Fits.setMember {members : Object} (h : Fits limit depth (.obj members)) {value : Json}
    (hvalue : Fits limit (depth + 1) value) (name : String) :
    Fits limit depth (.obj (Assoc.set name value members)) := by
  obtain ⟨hlt, hnames, hmembers⟩ := fits_obj_iff.mp h
  refine fits_obj_iff.mpr ⟨hlt, Assoc.nodup_keys_set hnames name value, fun member hmember => ?_⟩
  rcases Assoc.mem_of_mem_set hmember with rfl | hmember
  · exact hvalue
  · exact hmembers member hmember

namespace Reader

/-- The unfinished array or object of a frame, as far as it has been read, fits under `depth` frames. -/
def Frame.Fits (limit depth : Nat) : Frame → Prop
  | .array items => Json.Fits limit depth (.arr items)
  | .object members _ => Json.Fits limit depth (.obj members)

/-- Every frame fits under the frames below it. -/
def StackFits (limit : Nat) : List Frame → Prop
  | [] => True
  | frame :: stack => frame.Fits limit stack.length ∧ StackFits limit stack

/-- What the phase holds fits under `depth` frames. -/
def Phase.Fits (limit depth : Nat) : Phase → Prop
  | .value => True
  | .firstItem => Json.Fits limit depth (.arr [])
  | .afterItem items => Json.Fits limit depth (.arr items)
  | .firstName => Json.Fits limit depth (.obj [])
  | .nextName members => Json.Fits limit depth (.obj members)
  | .colon members _ => Json.Fits limit depth (.obj members)
  | .afterMember members => Json.Fits limit depth (.obj members)
  | .done json => Json.Fits limit depth json

/-- **The invariant of the reader**: all that it holds fits where it stands. -/
structure State.Fits (limit : Nat) (state : State) : Prop where
  frames : StackFits limit state.stack
  phase : state.phase.Fits limit state.stack.length

/-- There are no more frames than the reader admits. -/
theorem StackFits.length_le {stack : List Frame} (h : StackFits limit stack) :
    stack.length ≤ limit := by
  cases stack with
  | nil => exact Nat.zero_le limit
  | cons frame stack =>
      cases frame with
      | array items => exact (fits_arr_iff.mp h.1).1
      | object members name => exact (fits_obj_iff.mp h.1).1

namespace State

theorem fits_initial : initial.Fits limit := ⟨trivial, trivial⟩

variable {stack : List Frame}

/-- Taking a value into the innermost frame. -/
theorem fits_plug (hs : StackFits limit stack) {json : Json} (hj : Json.Fits limit stack.length json) :
    (plug stack json).Fits limit := by
  cases stack with
  | nil => exact ⟨trivial, hj⟩
  | cons frame stack =>
      obtain ⟨hframe, hrest⟩ := hs
      cases frame with
      | array items => exact ⟨hrest, hframe.consItem hj⟩
      | object members name => exact ⟨hrest, hframe.setMember hj name⟩

theorem fits_startValue? (hs : StackFits limit stack) {token : Token} {next : State}
    (h : startValue? limit stack token = some next) : next.Fits limit := by
  unfold startValue? at h
  split at h
  case h_5 =>
    split at h <;> cases h
    case isTrue hlt => exact ⟨hs, fits_arr_iff.mpr ⟨hlt, nofun⟩⟩
  case h_6 =>
    split at h <;> cases h
    case isTrue hlt => exact ⟨hs, fits_obj_iff.mpr ⟨hlt, List.nodup_nil, nofun⟩⟩
  case h_7 => cases h
  all_goals
    cases h
    exact fits_plug hs (fits_of_scalar nofun rfl hs.length_le)

/-- **One token** leaves everything fitting. -/
theorem Fits.step? {state : State} (hf : state.Fits limit) {token : Token} {next : State}
    (h : state.step? limit token = some next) : next.Fits limit := by
  obtain ⟨stack, phase⟩ := state
  obtain ⟨hs, hp⟩ := hf
  cases phase <;> simp only [State.step?] at h
  case value => exact fits_startValue? hs h
  case firstItem =>
    split at h
    · cases h
      exact fits_plug hs hp
    · have hstack : StackFits limit (.array [] :: stack) := ⟨hp, hs⟩
      exact fits_startValue? hstack h
  case afterItem items =>
    split at h <;> cases h
    · exact ⟨⟨hp, hs⟩, trivial⟩
    · exact fits_plug hs hp.reverse
  case firstName =>
    split at h <;> cases h
    · exact fits_plug hs hp
    · exact ⟨hs, hp⟩
  case nextName members =>
    split at h <;> cases h
    exact ⟨hs, hp⟩
  case colon members name =>
    split at h <;> cases h
    exact ⟨⟨hp, hs⟩, trivial⟩
  case afterMember members =>
    split at h <;> cases h
    · exact ⟨hs, hp⟩
    · exact fits_plug hs hp
  case done json => cases h

/-- The tokens one after the other. -/
theorem Fits.run? {state : State} (hf : state.Fits limit) {tokens : List Token} {last : State}
    (h : state.run? limit tokens = some last) : last.Fits limit := by
  induction tokens generalizing state with
  | nil =>
      cases h
      exact hf
  | cons token rest ih =>
      unfold State.run? at h
      split at h
      case h_1 next hnext => exact ih (hf.step? hnext) h
      case h_2 => cases h

end State

end Reader

/-- **What a text describes** names no member twice and is nested no deeper than the reader admits. -/
theorem fits_of_ofTextWithin? {text : String} {value : Json}
    (h : ofTextWithin? limit text = some value) : Fits limit 0 value := by
  obtain ⟨tokens, -, h⟩ := Option.bind_eq_some_iff.mp h
  obtain ⟨state, hrun, hfinish⟩ := Option.bind_eq_some_iff.mp h
  have hphase := (Reader.State.fits_initial.run? hrun).phase
  unfold Reader.State.finish? at hfinish
  split at hfinish
  case h_1 json hjson =>
    cases hfinish
    rw [hjson] at hphase
    have hheight := hphase.height_le
    exact ⟨hphase.unambiguous, by omega⟩
  case h_2 => cases hfinish

/-- A path that enters objects only finds no member named twice. -/
theorem distinctNames_of_ofTextWithin? {text : String} {value : Json}
    (h : ofTextWithin? limit text = some value) : value.DistinctNames :=
  (fits_of_ofTextWithin? h).unambiguous.distinctNames

end JsonProjection.Json
