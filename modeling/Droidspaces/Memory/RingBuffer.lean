import Mathlib.Data.Fin.Basic
import Mathlib.Data.Int.ModEq
import Mathlib.Data.List.Range
import Mathlib.Logic.Function.Basic

/-!
# Ring buffers

An array of `n` slots that is used as a queue: what is put in goes to `head` and what is taken comes
from `tail`, and both go on around the array.  One slot is left free, so that a full ring can be
told from an empty one.
-/

namespace Memory

structure RingBuffer (α : Type*) (n : ℕ) where
  slots : Fin n → α
  head : Fin n
  tail : Fin n

namespace RingBuffer

variable {α : Type*} {n : ℕ}

/-- The slot behind a slot. -/
def next (i : Fin n) : Fin n := ⟨(i + 1) % n, Nat.mod_lt _ i.pos⟩

/-- The slot `k` slots on. -/
def slot (i : Fin n) (k : ℕ) : Fin n := ⟨(i + k) % n, Nat.mod_lt _ i.pos⟩

/-- How many slots are used. -/
def count (r : RingBuffer α n) : ℕ :=
  if r.tail ≤ r.head then r.head - r.tail else r.head + n - r.tail

/-- What is in the ring, in order. -/
def pending (r : RingBuffer α n) : List α :=
  (List.range r.count).map fun k => r.slots (slot r.tail k)

/-- Put something in, unless the ring is full. -/
def push (r : RingBuffer α n) (a : α) : Option (RingBuffer α n) :=
  if next r.head = r.tail then none
  else some { r with slots := Function.update r.slots r.head a, head := next r.head }

/-- Take up to `k` things out. -/
def take : ℕ → RingBuffer α n → List α × RingBuffer α n
  | 0, r => ([], r)
  | k + 1, r =>
    if r.tail = r.head then ([], r)
    else
      let (batch, r') := take k { r with tail := next r.tail }
      (r.slots r.tail :: batch, r')

/-! ## Slots -/

theorem val_next (i : Fin n) : (next i).val = if i.val + 1 = n then 0 else i.val + 1 := by
  have hi := i.isLt
  unfold next
  split
  · next h => simp [h]
  · exact Nat.mod_eq_of_lt (by omega)

theorem slot_zero (i : Fin n) : slot i 0 = i := Fin.ext (Nat.mod_eq_of_lt i.isLt)

theorem slot_succ (i : Fin n) (k : ℕ) : slot i (k + 1) = slot (next i) k := by
  refine Fin.ext ?_
  unfold slot next
  simp only [Nat.mod_add_mod]
  rw [Nat.add_assoc, Nat.add_comm 1]

theorem slot_inj {i : Fin n} {k l : ℕ} (hk : k < n) (hl : l < n) (h : slot i k = slot i l) :
    k = l := by
  have hmod : (i + k) % n = (i + l) % n := Fin.val_eq_of_eq h
  exact (Nat.ModEq.add_left_cancel' i.val hmod).eq_of_lt_of_lt hk hl

theorem count_lt (r : RingBuffer α n) : r.count < n := by
  have hhead := r.head.isLt
  have htail := r.tail.isLt
  unfold count
  split
  · omega
  · next h =>
    rw [Fin.le_def] at h
    omega

theorem slot_count (r : RingBuffer α n) : slot r.tail r.count = r.head := by
  have hhead := r.head.isLt
  refine Fin.ext ?_
  unfold slot count
  split
  · next h =>
    rw [Fin.le_def] at h
    exact (congrArg (· % n) (Nat.add_sub_of_le h)).trans (Nat.mod_eq_of_lt hhead)
  · next h =>
    rw [Fin.le_def] at h
    have hsum : r.tail + (r.head + n - r.tail) = r.head + n := by omega
    exact (congrArg (· % n) hsum).trans ((Nat.add_mod_right _ _).trans (Nat.mod_eq_of_lt hhead))

@[simp] theorem length_pending (r : RingBuffer α n) : r.pending.length = r.count := by
  simp [pending]

theorem pending_eq_nil_iff (r : RingBuffer α n) : r.pending = [] ↔ r.tail = r.head := by
  rw [← List.length_eq_zero_iff, length_pending, count, Fin.ext_iff]
  have hhead := r.head.isLt
  have htail := r.tail.isLt
  split
  · next h =>
    rw [Fin.le_def] at h
    omega
  · next h =>
    rw [Fin.le_def] at h
    omega

/-! ## Putting in and taking out -/

theorem push_eq_none_iff (r : RingBuffer α n) (a : α) :
    r.push a = none ↔ r.pending.length + 1 = n := by
  have hhead := r.head.isLt
  have htail := r.tail.isLt
  have hnext := val_next r.head
  unfold push
  rw [length_pending, count]
  simp only [ite_eq_left_iff, reduceCtorEq, imp_false, not_not, Fin.ext_iff, hnext, Fin.le_def]
  split_ifs <;> omega

/-- **What is put in comes last.** -/
theorem pending_push {r r' : RingBuffer α n} {a : α} (h : r.push a = some r') :
    r'.pending = r.pending ++ [a] := by
  have hroom : ¬ next r.head = r.tail := fun hfull => by
    rw [push, if_pos hfull] at h
    cases h
  rw [push, if_neg hroom, Option.some.injEq] at h
  subst h
  have hcount : count ⟨Function.update r.slots r.head a, next r.head, r.tail⟩ = r.count + 1 := by
    have hhead := r.head.isLt
    have htail := r.tail.isLt
    rw [Fin.ext_iff] at hroom
    unfold count
    simp only [Fin.le_def, val_next] at hroom ⊢
    split_ifs at hroom ⊢ <;> omega
  unfold pending
  rw [hcount, List.range_succ, List.map_append, List.map_singleton]
  simp only [slot_count, Function.update_self]
  congr 1
  refine List.map_congr_left fun k hk => ?_
  have hlt := List.mem_range.1 hk
  have hcount := r.count_lt
  refine Function.update_of_ne (fun heq => ?_) _ _
  rw [← r.slot_count] at heq
  exact hlt.ne (slot_inj (hlt.trans hcount) hcount heq)

theorem pending_cons {r : RingBuffer α n} (h : r.tail ≠ r.head) :
    r.pending = r.slots r.tail :: pending { r with tail := next r.tail } := by
  have hcount : r.count = count { r with tail := next r.tail } + 1 := by
    have hhead := r.head.isLt
    have htail := r.tail.isLt
    rw [ne_eq, Fin.ext_iff] at h
    unfold count
    simp only [Fin.le_def, val_next]
    split_ifs <;> omega
  unfold pending
  rw [hcount, List.range_succ_eq_map, List.map_cons, List.map_map, slot_zero]
  congr 1
  refine List.map_congr_left fun k _ => ?_
  exact congrArg r.slots (slot_succ r.tail k)

/-- **What is taken out came first.** -/
theorem pending_take (k : ℕ) (r : RingBuffer α n) :
    r.pending = (take k r).1 ++ (take k r).2.pending := by
  induction k generalizing r with
  | zero => rfl
  | succ k ih =>
    unfold take
    split
    · rfl
    · next h =>
      rw [pending_cons h, ih]
      rfl

theorem take_eq_nil_iff {k : ℕ} (hk : 0 < k) (r : RingBuffer α n) :
    (take k r).1 = [] ↔ r.pending = [] := by
  obtain ⟨k, rfl⟩ := Nat.exists_eq_add_one.2 hk
  rw [pending_eq_nil_iff, take]
  split
  · next h => simp [h]
  · next h => simp [h]

end RingBuffer

end Memory
