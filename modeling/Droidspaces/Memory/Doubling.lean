import Mathlib.Algebra.Order.Ring.Nat

/-!
# Arrays that grow by doubling

An array with room for `cap` items, some of it in use.  Once it is full its capacity is doubled for
the next item, unless that is more than `max`.  So items can be left without room although they
would fit into `max`: `HasRoom` says how many there is room for, and `pushAll_of_hasRoom` and
`pushAll_of_not_hasRoom` that these are all put there, and no more.
-/

namespace Memory

variable {α : Type} {max cap n : ℕ}

/-- The capacity with which there is room for one more. -/
def double (max count cap : ℕ) : Option ℕ :=
  if count < cap then some cap
  else if max < cap * 2 then none
  else some (cap * 2)

/-- The items one after the other, until there is no room. -/
def pushAll (max : ℕ) : List α → List α × ℕ → Option (List α × ℕ)
  | [], array => some array
  | x :: xs, (items, cap) =>
    match double max items.length cap with
    | none => none
    | some cap => pushAll max xs (items ++ [x], cap)

/-- One of the capacities is large enough. -/
def HasRoom (max cap n : ℕ) : Prop := ∃ k, cap * 2 ^ k ≤ max ∧ n ≤ cap * 2 ^ k

theorem hasRoom_of_le (hcap : cap ≤ max) (hn : n ≤ cap) : HasRoom max cap n :=
  ⟨0, by simpa using hcap, by simpa using hn⟩

theorem HasRoom.cap_le (h : HasRoom max cap n) : cap ≤ max := by
  obtain ⟨k, hmax, -⟩ := h
  exact (Nat.le_mul_of_pos_right _ (Nat.two_pow_pos k)).trans hmax

theorem cap_pow_succ (cap k : ℕ) : cap * 2 ^ (k + 1) = cap * 2 * 2 ^ k := by
  rw [pow_succ', mul_assoc]

theorem HasRoom.le (h : HasRoom max cap n) : n ≤ max := by
  obtain ⟨k, hmax, hn⟩ := h
  exact hn.trans hmax

/-- There is room for just as many after the capacity has been doubled. -/
theorem hasRoom_double (h : cap * 2 ≤ max) : HasRoom max (cap * 2) n ↔ HasRoom max cap n := by
  constructor
  · rintro ⟨k, hmax, hn⟩
    exact ⟨k + 1, by rwa [cap_pow_succ], by rwa [cap_pow_succ]⟩
  · rintro ⟨k, hmax, hn⟩
    cases k with
    | zero => exact hasRoom_of_le h (by rw [pow_zero] at hn; omega)
    | succ k => exact ⟨k, by rwa [← cap_pow_succ], by rwa [← cap_pow_succ]⟩

/-- There is no room for more than a capacity that cannot be doubled. -/
theorem HasRoom.le_of_lt (h : HasRoom max cap n) (hmax : max < cap * 2) : n ≤ cap := by
  obtain ⟨k, hle, hn⟩ := h
  cases k with
  | zero => rwa [pow_zero, mul_one] at hn
  | succ k =>
    rw [cap_pow_succ] at hle
    exact absurd ((Nat.le_mul_of_pos_right _ (Nat.two_pow_pos k)).trans hle) (Nat.not_le.2 hmax)

/-- A step leaves the array in order, and the room as it was. -/
theorem double_eq_some {count cap' : ℕ} (hpos : 0 < cap) (hcap : cap ≤ max) (hcount : count ≤ cap)
    (h : double max count cap = some cap') :
    0 < cap' ∧ cap' ≤ max ∧ count + 1 ≤ cap' ∧ ∀ n, HasRoom max cap' n ↔ HasRoom max cap n := by
  unfold double at h
  split at h
  · next hlt =>
    obtain rfl := Option.some.inj h
    exact ⟨hpos, hcap, hlt, fun n => Iff.rfl⟩
  · split at h
    · cases h
    · next hmax =>
      obtain rfl := Option.some.inj h
      exact ⟨by omega, by omega, by omega, fun n => hasRoom_double (by omega)⟩

theorem double_eq_none {count : ℕ} (h : double max count cap = none) (hcount : count ≤ cap) :
    count = cap ∧ max < cap * 2 := by
  unfold double at h
  split at h
  · cases h
  · split at h
    · exact ⟨by omega, by assumption⟩
    · cases h

/-- **What there is room for is put into the array.** -/
theorem pushAll_of_hasRoom {xs items : List α} (hpos : 0 < cap) (hcap : cap ≤ max)
    (hcount : items.length ≤ cap) (h : HasRoom max cap (items.length + xs.length)) :
    (pushAll max xs (items, cap)).map Prod.fst = some (items ++ xs) := by
  induction xs generalizing items cap with
  | nil => simp [pushAll]
  | cons x xs ih =>
    rw [List.length_cons] at h
    rw [pushAll]
    cases hdouble : double max items.length cap with
    | none =>
      obtain ⟨hfull, hmax⟩ := double_eq_none hdouble hcount
      have hle := h.le_of_lt hmax
      omega
    | some cap' =>
      obtain ⟨hpos', hcap', hcount', hroom⟩ := double_eq_some hpos hcap hcount hdouble
      have hrest : HasRoom max cap' ((items ++ [x]).length + xs.length) := by
        rw [hroom, List.length_append, List.length_singleton]
        convert h using 1
        omega
      simpa using ih hpos' hcap' (by simpa using hcount') hrest

theorem pushAll_of_not_hasRoom {xs items : List α} (hpos : 0 < cap) (hcap : cap ≤ max)
    (hcount : items.length ≤ cap) (h : ¬ HasRoom max cap (items.length + xs.length)) :
    pushAll max xs (items, cap) = none := by
  induction xs generalizing items cap with
  | nil => exact absurd (hasRoom_of_le hcap hcount) h
  | cons x xs ih =>
    rw [List.length_cons] at h
    rw [pushAll]
    cases hdouble : double max items.length cap with
    | none => rfl
    | some cap' =>
      obtain ⟨hpos', hcap', hcount', hroom⟩ := double_eq_some hpos hcap hcount hdouble
      refine ih hpos' hcap' (by simpa using hcount') ?_
      rw [hroom, List.length_append, List.length_singleton]
      convert h using 2
      omega

/-- An array that starts empty ends with all the items, or there is no room for them. -/
theorem pushAll_eq_some {xs ys : List α} (hpos : 0 < cap) (hcap : cap ≤ max) :
    (pushAll max xs ([], cap)).map Prod.fst = some ys ↔ ys = xs ∧ HasRoom max cap xs.length := by
  have hnil : ([] : List α).length ≤ cap := Nat.zero_le cap
  have hlen : ([] : List α).length + xs.length = xs.length := Nat.zero_add _
  by_cases h : HasRoom max cap xs.length
  · rw [pushAll_of_hasRoom hpos hcap hnil (hlen.symm ▸ h), List.nil_append]
    simp [h, eq_comm]
  · rw [pushAll_of_not_hasRoom hpos hcap hnil (hlen.symm ▸ h)]
    simp [h]

theorem pushAll_append (max : ℕ) (xs ys : List α) (array : List α × ℕ) :
    pushAll max (xs ++ ys) array = (pushAll max xs array).bind (pushAll max ys) := by
  induction xs generalizing array with
  | nil => rfl
  | cons x xs ih =>
    obtain ⟨items, cap⟩ := array
    rw [List.cons_append, pushAll, pushAll]
    cases double max items.length cap with
    | none => rfl
    | some cap => exact ih _

end Memory
