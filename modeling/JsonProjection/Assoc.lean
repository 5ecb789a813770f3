/-
# `JsonProjection.Assoc` -- association lists that remember the order of first insertion.

A JSON object and a selection tree follow the same rule: a key written again keeps the place where it
first appeared and takes the value written last.  The rule is stated once, on a list of pairs, and the
three operations below are all that the rest of the library uses: reading (`get?`), writing (`set`) and
writing only where nothing stands yet (`ensure`).  The lemmas give every operation through `get?` (what
stands at a key) and through `keys` (in which order keys stand); no other module unfolds an operation.
-/
namespace JsonProjection.Assoc

variable {κ α : Type} [DecidableEq κ]

/-! ## Operations -/

/-- The keys, in the order in which they stand. -/
def keys (l : List (κ × α)) : List κ := l.map Prod.fst

/-- The value at the first pair whose key is `k`. -/
def get? (k : κ) : List (κ × α) → Option α
  | [] => none
  | (k', a) :: l => if k' = k then some a else get? k l

/-- **Writing.** The value at `k` becomes `a`; a new key goes to the end. -/
def set (k : κ) (a : α) : List (κ × α) → List (κ × α)
  | [] => [(k, a)]
  | (k', b) :: l => if k' = k then (k', a) :: l else (k', b) :: set k a l

/-- **Writing only where nothing stands.** An occupied key is left alone. -/
def ensure (k : κ) (a : α) (l : List (κ × α)) : List (κ × α) :=
  match get? k l with
  | some _ => l
  | none => l ++ [(k, a)]

/-! ## What stands at a key -/

omit [DecidableEq κ] in
@[simp] theorem keys_nil : keys ([] : List (κ × α)) = [] := rfl

omit [DecidableEq κ] in
@[simp] theorem keys_cons (p : κ × α) (l : List (κ × α)) : keys (p :: l) = p.1 :: keys l := rfl

omit [DecidableEq κ] in
@[simp] theorem keys_append (l m : List (κ × α)) : keys (l ++ m) = keys l ++ keys m := by
  simp only [keys, List.map_append]

@[simp] theorem get?_nil (k : κ) : get? k ([] : List (κ × α)) = none := rfl

theorem get?_cons (k k' : κ) (a : α) (l : List (κ × α)) :
    get? k ((k', a) :: l) = if k' = k then some a else get? k l := rfl

/-- Nothing stands at `k` exactly when `k` is no key. -/
theorem get?_eq_none_iff (k : κ) (l : List (κ × α)) : get? k l = none ↔ k ∉ keys l := by
  induction l with
  | nil => simp
  | cons p l ih =>
      obtain ⟨k', a⟩ := p
      by_cases h : k' = k
      · simp [get?_cons, h]
      · simp only [get?_cons, h, if_false, ih, keys_cons, List.mem_cons, not_or]
        exact ⟨fun hl => ⟨fun e => h e.symm, hl⟩, fun hl => hl.2⟩

/-- Where nothing stands at any key there is no pair. -/
theorem eq_nil_of_get?_eq_none {l : List (κ × α)} (h : ∀ k, get? k l = none) : l = [] := by
  cases l with
  | nil => rfl
  | cons p l =>
      have hp : p.1 ∉ keys (p :: l) := (get?_eq_none_iff p.1 _).mp (h p.1)
      exact absurd List.mem_cons_self hp

/-- Where there is a pair something stands at a key. -/
theorem exists_get?_of_ne_nil {l : List (κ × α)} (h : l ≠ []) : ∃ k a, get? k l = some a := by
  cases l with
  | nil => exact absurd rfl h
  | cons p l => exact ⟨p.1, p.2, if_pos rfl⟩

theorem get?_append (k : κ) (l m : List (κ × α)) :
    get? k (l ++ m) = (get? k l).or (get? k m) := by
  induction l with
  | nil => simp
  | cons p l ih =>
      obtain ⟨k', a⟩ := p
      by_cases h : k' = k
      · simp [get?_cons, h]
      · simp [get?_cons, h, ih]

theorem get?_set (k k' : κ) (a : α) (l : List (κ × α)) :
    get? k' (set k a l) = if k = k' then some a else get? k' l := by
  induction l with
  | nil => simp [set, get?_cons]
  | cons p l ih =>
      obtain ⟨j, b⟩ := p
      by_cases hj : j = k
      · subst hj
        by_cases hk : j = k' <;> simp [set, get?_cons, hk]
      · by_cases hk : j = k'
        · subst hk
          simp [set, get?_cons, hj, Ne.symm hj]
        · simp [set, get?_cons, hj, hk, ih]

@[simp] theorem get?_set_self (k : κ) (a : α) (l : List (κ × α)) : get? k (set k a l) = some a := by
  simp [get?_set]

theorem get?_set_of_ne {k k' : κ} (h : k ≠ k') (a : α) (l : List (κ × α)) :
    get? k' (set k a l) = get? k' l := by
  simp [get?_set, h]

/-- `ensure` never changes what stands at a key that was already there. -/
theorem get?_ensure_self (k : κ) (a : α) (l : List (κ × α)) :
    get? k (ensure k a l) = some ((get? k l).getD a) := by
  unfold ensure
  split
  case h_1 b hb => simp [hb]
  case h_2 hb => simp [get?_append, hb, get?_cons]

theorem get?_ensure_of_ne {k k' : κ} (h : k ≠ k') (a : α) (l : List (κ × α)) :
    get? k' (ensure k a l) = get? k' l := by
  unfold ensure
  split
  · rfl
  · simp [get?_append, get?_cons, h]

/-! ## Where keys stand -/

/-- Writing keeps every key in its place, and a new key comes last. -/
theorem keys_set (k : κ) (a : α) (l : List (κ × α)) :
    keys (set k a l) = if k ∈ keys l then keys l else keys l ++ [k] := by
  induction l with
  | nil => simp [set]
  | cons p l ih =>
      obtain ⟨k', b⟩ := p
      by_cases h : k' = k
      · simp [set, h]
      · have h' : ¬ k = k' := fun e => h e.symm
        by_cases hk : k ∈ keys l
        · simp [set, h, h', ih, hk]
        · simp [set, h, h', ih, hk]

/-- Writing repeats no key. -/
theorem nodup_keys_set {l : List (κ × α)} (h : (keys l).Nodup) (k : κ) (a : α) :
    (keys (set k a l)).Nodup := by
  rw [keys_set]
  split
  case isTrue => exact h
  case isFalse hk =>
    refine List.nodup_append.mpr ⟨h, List.pairwise_singleton _ k, fun j hj j' hj' he => hk ?_⟩
    rw [← List.mem_singleton.mp hj', ← he]
    exact hj

theorem keys_ensure (k : κ) (a : α) (l : List (κ × α)) :
    keys (ensure k a l) = if k ∈ keys l then keys l else keys l ++ [k] := by
  unfold ensure
  cases hk : get? k l with
  | none =>
      have hm := (get?_eq_none_iff k l).mp hk
      simp [hm]
  | some b =>
      have hm : k ∈ keys l := by
        by_cases hm : k ∈ keys l
        · exact hm
        · rw [(get?_eq_none_iff k l).mpr hm] at hk
          cases hk
      simp [hm]

theorem nodup_keys_ensure {l : List (κ × α)} (h : (keys l).Nodup) (k : κ) (a : α) :
    (keys (ensure k a l)).Nodup := by
  have hset := nodup_keys_set h k a
  rw [keys_set] at hset
  rwa [keys_ensure]

/-- A new key goes to the end, together with its value. -/
theorem set_of_not_mem {k : κ} {l : List (κ × α)} (h : k ∉ keys l) (a : α) :
    set k a l = l ++ [(k, a)] := by
  induction l with
  | nil => rfl
  | cons p l ih =>
      obtain ⟨k', b⟩ := p
      rw [keys_cons, List.mem_cons, not_or] at h
      rw [set, if_neg fun e => h.1 e.symm, ih h.2, List.cons_append]

/-- What was written before under the same key is forgotten. -/
theorem set_set (k : κ) (a b : α) (l : List (κ × α)) : set k a (set k b l) = set k a l := by
  induction l with
  | nil => simp [set]
  | cons p l ih =>
      obtain ⟨k', c⟩ := p
      by_cases h : k' = k
      · simp [set, h]
      · simp [set, h, ih]

/-- Writing what stands there already changes nothing. -/
theorem set_eq_self {k : κ} {a : α} {l : List (κ × α)} (h : get? k l = some a) : set k a l = l := by
  induction l with
  | nil => cases h
  | cons p l ih =>
      obtain ⟨k', b⟩ := p
      rw [get?_cons] at h
      by_cases hk : k' = k
      · rw [if_pos hk] at h
        cases h
        rw [set, if_pos hk]
      · rw [if_neg hk] at h
        rw [set, if_neg hk, ih h]

/-- Writing under a key that is there and under another one can be done in either order. -/
theorem set_comm {k k' : κ} {l : List (κ × α)} (h : k ≠ k') (hk : k ∈ keys l) (a b : α) :
    set k a (set k' b l) = set k' b (set k a l) := by
  induction l with
  | nil => cases hk
  | cons p l ih =>
      obtain ⟨j, c⟩ := p
      by_cases hj : j = k
      · subst hj
        simp [set, h]
      · have hk : k ∈ keys l := (List.mem_cons.mp hk).resolve_left fun he => hj he.symm
        by_cases hj' : j = k'
        · subst hj'
          simp [set, hj]
        · simp [set, hj, hj', ih hk]

theorem ensure_of_not_mem {k : κ} {l : List (κ × α)} (h : k ∉ keys l) (a : α) :
    ensure k a l = l ++ [(k, a)] := by
  unfold ensure
  rw [(get?_eq_none_iff k l).mpr h]

/-! ### Behind pairs with other keys -/

section Behind

variable {k : κ} {l : List (κ × α)} (h : k ∉ keys l)
include h

theorem get?_append_of_not_mem (m : List (κ × α)) : get? k (l ++ m) = get? k m := by
  rw [get?_append, (get?_eq_none_iff k l).mpr h, Option.none_or]

theorem set_append_of_not_mem (a : α) (m : List (κ × α)) : set k a (l ++ m) = l ++ set k a m := by
  induction l with
  | nil => rfl
  | cons p l ih =>
      obtain ⟨k', b⟩ := p
      rw [keys_cons, List.mem_cons, not_or] at h
      rw [List.cons_append, set, if_neg fun e => h.1 e.symm, ih h.2, List.cons_append]

theorem ensure_append_of_not_mem (a : α) (m : List (κ × α)) :
    ensure k a (l ++ m) = l ++ ensure k a m := by
  unfold ensure
  rw [get?_append_of_not_mem h]
  cases get? k m with
  | some b => rfl
  | none => exact List.append_assoc l m [(k, a)]

end Behind

/-- Leaving out pairs by their values leaves out what stands at their keys, where no key is repeated. -/
theorem get?_filter (p : α → Bool) {l : List (κ × α)} (h : (keys l).Nodup) (k : κ) :
    get? k (l.filter fun m => p m.2) = (get? k l).filter p := by
  induction l with
  | nil => rfl
  | cons q l ih =>
      obtain ⟨k', a⟩ := q
      rw [keys_cons, List.nodup_cons] at h
      have hrest := ih h.2
      by_cases hk : k' = k
      · have hnone : get? k l = none := (get?_eq_none_iff k l).mpr (hk ▸ h.1)
        rw [hnone] at hrest
        cases hp : p a <;> simp [get?_cons, hk, hp, hrest, Option.filter]
      · cases hp : p a <;> simp [get?_cons, hk, hp, hrest, Option.filter]

/-- Leaving out the pairs of other keys leaves what stands at a key. -/
theorem get?_filter_key (p : κ → Bool) {k : κ} (hk : p k = true) (l : List (κ × α)) :
    get? k (l.filter fun m => p m.1) = get? k l := by
  induction l with
  | nil => rfl
  | cons q l ih =>
      obtain ⟨k', a⟩ := q
      by_cases h : k' = k
      · rw [List.filter_cons_of_pos (by rwa [h]), get?_cons, get?_cons, if_pos h, if_pos h]
      · cases hp : p k'
        · rw [List.filter_cons_of_neg (by simp [hp]), get?_cons, if_neg h, ih]
        · rw [List.filter_cons_of_pos (by simp [hp]), get?_cons, get?_cons, if_neg h, if_neg h, ih]

/-! ## Pairs -/

/-- What stands at a key stands there in a pair. -/
theorem mem_of_get?_eq_some {k : κ} {a : α} {l : List (κ × α)} (h : get? k l = some a) :
    (k, a) ∈ l := by
  induction l with
  | nil => cases h
  | cons p l ih =>
      obtain ⟨k', b⟩ := p
      rw [get?_cons] at h
      split at h
      case isTrue hk =>
        cases h
        exact hk ▸ List.mem_cons_self
      case isFalse => exact List.mem_cons_of_mem _ (ih h)

/-- What stands at a key stands in the first pair that has the key. -/
theorem get?_eq_some_iff {k : κ} {a : α} {l : List (κ × α)} :
    get? k l = some a ↔ ∃ before after, l = before ++ (k, a) :: after ∧ k ∉ keys before := by
  constructor
  · intro h
    induction l with
    | nil => cases h
    | cons p l ih =>
        obtain ⟨k', b⟩ := p
        rw [get?_cons] at h
        split at h
        case isTrue hk =>
          cases h
          exact ⟨[], l, by rw [hk, List.nil_append], List.not_mem_nil⟩
        case isFalse hk =>
          obtain ⟨before, after, rfl, hb⟩ := ih h
          refine ⟨(k', b) :: before, after, rfl, ?_⟩
          simp [hb, Ne.symm hk]
  · rintro ⟨before, after, rfl, hb⟩
    rw [get?_append_of_not_mem hb, get?_cons, if_pos rfl]

/-- Where no key is repeated, the pairs are what stands at the keys. -/
theorem mem_iff_get?_eq_some {l : List (κ × α)} (h : (keys l).Nodup) {k : κ} {a : α} :
    (k, a) ∈ l ↔ get? k l = some a := by
  refine ⟨fun hm => ?_, mem_of_get?_eq_some⟩
  induction l with
  | nil => cases hm
  | cons p l ih =>
      rw [keys_cons, List.nodup_cons] at h
      rcases List.mem_cons.mp hm with rfl | hm
      · rw [get?_cons, if_pos rfl]
      · have hne : p.1 ≠ k := fun he => h.1 (he ▸ List.mem_map.mpr ⟨(k, a), hm, rfl⟩)
        rw [get?_cons, if_neg hne, ih h.2 hm]

omit [DecidableEq κ] in
/-- Where no key is repeated, a key that comes later is none of those before. -/
theorem not_mem_keys_of_nodup_append {l m : List (κ × α)} {k : κ} {a : α}
    (h : (keys (l ++ (k, a) :: m)).Nodup) : k ∉ keys l := by
  rw [keys_append, List.nodup_append] at h
  exact fun hk => h.2.2 k hk k List.mem_cons_self rfl

omit [DecidableEq κ] in
/-- No pair is repeated where no key is. -/
theorem nodup_of_nodup_keys {l : List (κ × α)} (h : (keys l).Nodup) : l.Nodup :=
  List.Pairwise.of_map Prod.fst (fun _ _ hne he => hne (congrArg Prod.fst he)) h

/-- **Equal up to order**: lists without repeated keys in which the same stands at every key. -/
theorem perm_of_get?_eq {l m : List (κ × α)} (hl : (keys l).Nodup) (hm : (keys m).Nodup)
    (h : ∀ k, get? k l = get? k m) : l.Perm m := by
  refine (List.perm_ext_iff_of_nodup (nodup_of_nodup_keys hl) (nodup_of_nodup_keys hm)).mpr ?_
  rintro ⟨k, a⟩
  rw [mem_iff_get?_eq_some hl, mem_iff_get?_eq_some hm, h]

/-- A list whose only key is `k` holds what stands there, if anything does. -/
theorem eq_of_only_key {k : κ} {l : List (κ × α)} (h : (keys l).Nodup)
    (hk : ∀ k', k' ≠ k → get? k' l = none) : l = (get? k l).toList.map (Prod.mk k) := by
  have honly : ∀ k' ∈ keys l, k' = k := fun k' hk' =>
    Decidable.byContradiction fun hne => (get?_eq_none_iff k' l).mp (hk k' hne) hk'
  cases l with
  | nil => rfl
  | cons p l =>
      obtain ⟨k', a⟩ := p
      rw [keys_cons, List.nodup_cons] at h
      obtain rfl : k' = k := honly k' List.mem_cons_self
      cases l with
      | nil => rw [get?_cons, if_pos rfl]; rfl
      | cons q l =>
          have hq : q.1 = k' := honly q.1 (List.mem_cons_of_mem _ List.mem_cons_self)
          exact absurd (hq ▸ List.mem_cons_self) h.1

/-- After writing, a pair is the written one or was there before. -/
theorem mem_of_mem_set {k : κ} {a : α} {l : List (κ × α)} {p : κ × α} (h : p ∈ set k a l) :
    p = (k, a) ∨ p ∈ l := by
  induction l with
  | nil => exact Or.inl (List.mem_singleton.mp h)
  | cons q l ih =>
      obtain ⟨k', b⟩ := q
      rw [set] at h
      split at h
      case isTrue hk =>
        rcases List.mem_cons.mp h with rfl | h
        · exact Or.inl (by rw [hk])
        · exact Or.inr (List.mem_cons_of_mem _ h)
      case isFalse hk =>
        rcases List.mem_cons.mp h with rfl | h
        · exact Or.inr List.mem_cons_self
        · exact (ih h).imp_right (List.mem_cons_of_mem _)

end JsonProjection.Assoc
