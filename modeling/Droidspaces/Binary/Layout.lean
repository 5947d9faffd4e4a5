import Mathlib.Algebra.BigOperators.Group.List.Basic
import Mathlib.Algebra.Order.Ring.Int
import Mathlib.Data.List.Forall2
import Mathlib.Data.List.InsertIdx
import Mathlib.Data.Nat.Notation

/-!
# Records that lie one after the other

A sequence of records of different sizes, and what becomes of the place of a record when records are
deleted or inserted.  Deletion is by a list of marks: `kept` are the records that are left, `rank`
is the index that a record, or the first one left after it, then has, and `gone` the size of what
was deleted before it.

`kept_kept` and `kept_insertIdx` say how deletions compose, and that a deletion takes an insertion
back.
-/

namespace Binary

variable {α β : Type}

/-! ## Where a record starts -/

/-- Where record `i` starts. -/
def start (sizes : List ℕ) (i : ℕ) : ℕ := (sizes.take i).sum

@[simp] theorem start_zero (sizes : List ℕ) : start sizes 0 = 0 := rfl

@[simp] theorem start_nil (i : ℕ) : start [] i = 0 := by
  rw [start, List.take_nil, List.sum_nil]

@[simp] theorem start_cons_succ (s : ℕ) (sizes : List ℕ) (i : ℕ) :
    start (s :: sizes) (i + 1) = s + start sizes i := by
  rw [start, List.take_succ_cons, List.sum_cons, start]

theorem start_length (sizes : List ℕ) : start sizes sizes.length = sizes.sum := by
  rw [start, List.take_length]

theorem start_succ {sizes : List ℕ} {i : ℕ} (hi : i < sizes.length) :
    start sizes (i + 1) = start sizes i + sizes[i] := by
  rw [start, start, List.take_succ_eq_append_getElem hi, List.sum_append, List.sum_singleton]

theorem start_mono (sizes : List ℕ) {i j : ℕ} (hij : i ≤ j) : start sizes i ≤ start sizes j := by
  induction sizes generalizing i j with
  | nil => simp
  | cons s sizes ih =>
    cases i with
    | zero => simp
    | succ i =>
      obtain ⟨j, rfl⟩ : ∃ k, j = k + 1 := ⟨j - 1, by omega⟩
      have hrest := ih (show i ≤ j by omega)
      rw [start_cons_succ, start_cons_succ]
      omega

theorem start_lt_start {sizes : List ℕ} (hpos : ∀ s ∈ sizes, 0 < s) {i j : ℕ} (hij : i < j)
    (hi : i < sizes.length) : start sizes i < start sizes j := by
  induction sizes generalizing i j with
  | nil => exact absurd hi (Nat.not_lt_zero i)
  | cons s sizes ih =>
    obtain ⟨hs, hsizes⟩ := List.forall_mem_cons.1 hpos
    obtain ⟨j, rfl⟩ : ∃ k, j = k + 1 := ⟨j - 1, by omega⟩
    cases i with
    | zero =>
      rw [start_zero, start_cons_succ]
      omega
    | succ i =>
      have hrest := ih hsizes (show i < j by omega) (Nat.lt_of_succ_lt_succ hi)
      rw [start_cons_succ, start_cons_succ]
      omega

/-- Two records start at one place only if they are the same. -/
theorem start_inj {sizes : List ℕ} (hpos : ∀ s ∈ sizes, 0 < s) {i j : ℕ} (hi : i ≤ sizes.length)
    (hj : j ≤ sizes.length) (h : start sizes i = start sizes j) : i = j := by
  rcases Nat.lt_trichotomy i j with hlt | rfl | hlt
  · exact absurd h (Nat.ne_of_lt (start_lt_start hpos hlt (by omega)))
  · rfl
  · exact absurd h.symm (Nat.ne_of_lt (start_lt_start hpos hlt (by omega)))

theorem start_le_start_iff {sizes : List ℕ} (hpos : ∀ s ∈ sizes, 0 < s) {i j : ℕ}
    (hj : j < sizes.length) : start sizes i ≤ start sizes j ↔ i ≤ j := by
  refine ⟨fun h => ?_, start_mono sizes⟩
  by_contra hlt
  exact absurd (start_lt_start hpos (Nat.lt_of_not_le hlt) hj) (Nat.not_lt.2 h)

/-- The record that starts at an offset. -/
def indexAt (sizes : List ℕ) (off : ℕ) : ℕ :=
  ((List.range sizes.length).find? fun i => start sizes i == off).getD 0

theorem indexAt_start {sizes : List ℕ} (hpos : ∀ s ∈ sizes, 0 < s) {i : ℕ}
    (hi : i < sizes.length) : indexAt sizes (start sizes i) = i := by
  rw [indexAt]
  cases hfind : (List.range sizes.length).find? fun j => start sizes j == start sizes i with
  | none =>
    have hnone := List.find?_eq_none.1 hfind i (List.mem_range.2 hi)
    simp at hnone
  | some j =>
    have hj := List.mem_range.1 (List.mem_of_find?_eq_some hfind)
    have heq : start sizes j = start sizes i := by simpa using List.find?_some hfind
    exact start_inj hpos (Nat.le_of_lt hj) (Nat.le_of_lt hi) heq

/-! ## Deletion -/

/-- The records that are left; a record without a mark is. -/
def kept : List Bool → List α → List α
  | [], as => as
  | _ :: _, [] => []
  | m :: ms, a :: as => if m then kept ms as else a :: kept ms as

/-- The number of records left before record `i`. -/
def rank : List Bool → ℕ → ℕ
  | [], i => i
  | _ :: _, 0 => 0
  | m :: ms, i + 1 => (if m then 0 else 1) + rank ms i

/-- The size of what is deleted before record `i`. -/
def gone : List Bool → List ℕ → ℕ → ℕ
  | m :: ms, s :: sizes, i + 1 => (if m then s else 0) + gone ms sizes i
  | _, _, _ => 0

@[simp] theorem kept_nil (as : List α) : kept [] as = as := rfl

@[simp] theorem kept_nil_right (ms : List Bool) : kept ms ([] : List α) = [] := by
  cases ms <;> rfl

@[simp] theorem kept_true (ms : List Bool) (a : α) (as : List α) :
    kept (true :: ms) (a :: as) = kept ms as := rfl

@[simp] theorem kept_false (ms : List Bool) (a : α) (as : List α) :
    kept (false :: ms) (a :: as) = a :: kept ms as := rfl

@[simp] theorem rank_nil (i : ℕ) : rank [] i = i := rfl

@[simp] theorem rank_zero (ms : List Bool) : rank ms 0 = 0 := by
  cases ms <;> rfl

@[simp] theorem rank_true (ms : List Bool) (i : ℕ) : rank (true :: ms) (i + 1) = rank ms i :=
  Nat.zero_add _

@[simp] theorem rank_false (ms : List Bool) (i : ℕ) :
    rank (false :: ms) (i + 1) = rank ms i + 1 :=
  Nat.add_comm _ _

@[simp] theorem gone_nil (sizes : List ℕ) (i : ℕ) : gone [] sizes i = 0 := rfl

@[simp] theorem gone_zero (ms : List Bool) (sizes : List ℕ) : gone ms sizes 0 = 0 := by
  cases ms with
  | nil => rfl
  | cons m ms => cases sizes <;> rfl

@[simp] theorem gone_cons (m : Bool) (ms : List Bool) (s : ℕ) (sizes : List ℕ) (i : ℕ) :
    gone (m :: ms) (s :: sizes) (i + 1) = (if m then s else 0) + gone ms sizes i := rfl

theorem kept_map (f : α → β) (ms : List Bool) (as : List α) :
    kept ms (as.map f) = (kept ms as).map f := by
  induction ms generalizing as with
  | nil => simp
  | cons m ms ih =>
    cases as with
    | nil => simp
    | cons a as => cases m <;> simp [ih]

/-- What is left has moved by the size of what is gone. -/
theorem start_kept (ms : List Bool) {sizes : List ℕ} {i : ℕ} (hi : i ≤ sizes.length) :
    start (kept ms sizes) (rank ms i) + gone ms sizes i = start sizes i := by
  induction ms generalizing sizes i with
  | nil => simp
  | cons m ms ih =>
    cases i with
    | zero => simp
    | succ i =>
      cases sizes with
      | nil => exact absurd hi (Nat.not_succ_le_zero i)
      | cons s sizes =>
        have hrest := ih (Nat.le_of_succ_le_succ hi)
        cases m with
        | true =>
          rw [kept_true, rank_true, gone_cons, if_pos rfl, start_cons_succ]
          omega
        | false =>
          rw [kept_false, rank_false, gone_cons, if_neg Bool.false_ne_true, start_cons_succ,
            start_cons_succ]
          omega

theorem length_kept (ms : List Bool) (as : List α) :
    (kept ms as).length + (ms.take as.length).count true = as.length := by
  induction ms generalizing as with
  | nil => simp
  | cons m ms ih =>
    cases as with
    | nil => simp
    | cons a as =>
      have hrest := ih as
      cases m with
      | true =>
        rw [kept_true, List.length_cons, List.take_succ_cons, List.count_cons_self]
        omega
      | false =>
        rw [kept_false, List.length_cons, List.length_cons, List.take_succ_cons,
          List.count_cons_of_ne Bool.false_ne_true]
        omega

theorem kept_take_succ {ms : List Bool} {as : List α} {i : ℕ} (hms : i < ms.length)
    (has : i < as.length) :
    kept (ms.take (i + 1)) (as.take (i + 1)) =
      kept (ms.take i) (as.take i) ++ if ms[i] then [] else [as[i]] := by
  induction i generalizing ms as with
  | zero =>
    obtain ⟨m, ms, rfl⟩ := List.exists_cons_of_length_pos hms
    obtain ⟨a, as, rfl⟩ := List.exists_cons_of_length_pos has
    cases m <;> simp
  | succ i ih =>
    obtain ⟨m, ms, rfl⟩ := List.exists_cons_of_length_pos (Nat.zero_lt_of_lt hms)
    obtain ⟨a, as, rfl⟩ := List.exists_cons_of_length_pos (Nat.zero_lt_of_lt has)
    have hrest := ih (Nat.lt_of_succ_lt_succ hms) (Nat.lt_of_succ_lt_succ has)
    rw [List.take_succ_cons, List.take_succ_cons, List.take_succ_cons, List.take_succ_cons]
    cases m <;> simpa using hrest

theorem gone_succ {ms : List Bool} {sizes : List ℕ} {i : ℕ} (hms : i < ms.length)
    (hi : i < sizes.length) :
    gone ms sizes (i + 1) = gone ms sizes i + if ms[i] then sizes[i] else 0 := by
  induction i generalizing ms sizes with
  | zero =>
    obtain ⟨m, ms, rfl⟩ := List.exists_cons_of_length_pos hms
    obtain ⟨s, sizes, rfl⟩ := List.exists_cons_of_length_pos hi
    simp
  | succ i ih =>
    obtain ⟨m, ms, rfl⟩ := List.exists_cons_of_length_pos (Nat.zero_lt_of_lt hms)
    obtain ⟨s, sizes, rfl⟩ := List.exists_cons_of_length_pos (Nat.zero_lt_of_lt hi)
    have hrest := ih (Nat.lt_of_succ_lt_succ hms) (Nat.lt_of_succ_lt_succ hi)
    rw [gone_cons, gone_cons, hrest, Nat.add_assoc]
    rfl

theorem kept_sublist (ms : List Bool) (as : List α) : List.Sublist (kept ms as) as := by
  induction ms generalizing as with
  | nil => simp
  | cons m ms ih =>
    cases as with
    | nil => simp
    | cons a as =>
      cases m with
      | true =>
        rw [kept_true]
        exact (ih as).cons a
      | false =>
        rw [kept_false]
        exact (ih as).cons_cons a

theorem mem_of_mem_kept {ms : List Bool} {as : List α} {a : α} (h : a ∈ kept ms as) : a ∈ as :=
  (kept_sublist ms as).mem h

/-- Records with a property are all left if no marked record has it. -/
theorem filter_kept_eq_iff (p : α → Bool) (ms : List Bool) (as : List α) :
    (kept ms as).filter p = as.filter p ↔
      ∀ (i : ℕ) a, ms[i]? = some true → as[i]? = some a → p a = false := by
  induction ms generalizing as with
  | nil => simp
  | cons m ms ih =>
    cases as with
    | nil => simp
    | cons a as =>
      have hshift : (∀ (i : ℕ) b, (m :: ms)[i]? = some true → (a :: as)[i]? = some b → p b = false) ↔
          (m = true → p a = false) ∧
            ∀ (i : ℕ) b, ms[i]? = some true → as[i]? = some b → p b = false := by
        constructor
        · intro h
          refine ⟨fun hm => h 0 a (by simp [hm]) rfl, fun i b hi hb => ?_⟩
          exact h (i + 1) b (by simpa using hi) (by simpa using hb)
        · rintro ⟨hfirst, hrest⟩ i b hi hb
          cases i with
          | zero =>
            obtain rfl : a = b := by simpa using hb
            exact hfirst (by simpa using hi)
          | succ i => exact hrest i b (by simpa using hi) (by simpa using hb)
      rw [hshift, ← ih]
      cases m with
      | false => cases hp : p a <;> simp [hp]
      | true =>
        cases hp : p a with
        | false => simp [hp]
        | true =>
          have hshort := ((kept_sublist ms as).filter p).length_le
          have hne : (kept ms as).filter p ≠ a :: as.filter p := by
            intro heq
            rw [heq, List.length_cons] at hshort
            omega
          simp [hp, hne]

theorem sum_kept_le (ms : List Bool) (sizes : List ℕ) : (kept ms sizes).sum ≤ sizes.sum := by
  induction ms generalizing sizes with
  | nil => simp
  | cons m ms ih =>
    cases sizes with
    | nil => simp
    | cons s sizes =>
      have hrest := ih sizes
      cases m with
      | true =>
        rw [kept_true, List.sum_cons]
        omega
      | false =>
        rw [kept_false, List.sum_cons, List.sum_cons]
        omega

theorem getElem?_kept {ms : List Bool} {i : ℕ} (hi : ms[i]? ≠ some true) (as : List α) :
    (kept ms as)[rank ms i]? = as[i]? := by
  induction ms generalizing as i with
  | nil => simp
  | cons m ms ih =>
    cases as with
    | nil => simp
    | cons a as =>
      cases i with
      | zero =>
        cases m with
        | true => exact absurd rfl hi
        | false => simp
      | succ i =>
        have hrest := ih (i := i) (by simpa using hi) as
        cases m <;> simpa using hrest

theorem rank_mono (ms : List Bool) {i j : ℕ} (hij : i ≤ j) : rank ms i ≤ rank ms j := by
  induction ms generalizing i j with
  | nil => simpa using hij
  | cons m ms ih =>
    cases i with
    | zero => simp
    | succ i =>
      obtain ⟨j, rfl⟩ : ∃ k, j = k + 1 := ⟨j - 1, by omega⟩
      have hrest := ih (show i ≤ j by omega)
      cases m <;> simpa using hrest

/-- A record that is left is before all that were behind it. -/
theorem rank_lt_rank {ms : List Bool} {i j : ℕ} (hij : i < j) (hi : ms[i]? ≠ some true) :
    rank ms i < rank ms j := by
  induction ms generalizing i j with
  | nil => simpa using hij
  | cons m ms ih =>
    obtain ⟨j, rfl⟩ : ∃ k, j = k + 1 := ⟨j - 1, by omega⟩
    cases i with
    | zero =>
      cases m with
      | true => exact absurd rfl hi
      | false => simp
    | succ i =>
      have hrest := ih (show i < j by omega) (by simpa using hi)
      cases m <;> simpa using hrest

/-- Every record that is left was there. -/
theorem exists_of_lt_length_kept {ms : List Bool} {as : List α} {k : ℕ}
    (hk : k < (kept ms as).length) : ∃ i < as.length, ms[i]? ≠ some true ∧ rank ms i = k := by
  induction ms generalizing as k with
  | nil => exact ⟨k, hk, by simp, rfl⟩
  | cons m ms ih =>
    cases as with
    | nil => exact absurd hk (Nat.not_lt_zero k)
    | cons a as =>
      cases m with
      | true =>
        rw [kept_true] at hk
        obtain ⟨i, hi, hmark, rfl⟩ := ih hk
        exact ⟨i + 1, Nat.succ_lt_succ hi, by simpa using hmark, rank_true ms i⟩
      | false =>
        cases k with
        | zero => exact ⟨0, Nat.zero_lt_succ _, by simp, rank_zero _⟩
        | succ k =>
          rw [kept_false] at hk
          obtain ⟨i, hi, hmark, rfl⟩ := ih (Nat.lt_of_succ_lt_succ hk)
          exact ⟨i + 1, Nat.succ_lt_succ hi, by simpa using hmark, rank_false ms i⟩

section Unmarked

variable {ms : List Bool} (h : true ∉ ms)
include h

theorem kept_of_not_mem (as : List α) : kept ms as = as := by
  induction ms generalizing as with
  | nil => rfl
  | cons m ms ih =>
    obtain ⟨hm, hms⟩ := List.ne_and_not_mem_of_not_mem_cons h
    obtain rfl := Bool.eq_false_of_not_eq_true hm.symm
    cases as with
    | nil => rfl
    | cons a as => rw [kept_false, ih hms]

theorem rank_of_not_mem (i : ℕ) : rank ms i = i := by
  induction ms generalizing i with
  | nil => rfl
  | cons m ms ih =>
    obtain ⟨hm, hms⟩ := List.ne_and_not_mem_of_not_mem_cons h
    obtain rfl := Bool.eq_false_of_not_eq_true hm.symm
    cases i with
    | zero => rfl
    | succ i => rw [rank_false, ih hms]

end Unmarked

/-- A deletion of some of the marked records, and then of the others. -/
theorem kept_kept {ds ms : List Bool} (h : List.Forall₂ (fun d m => d = true → m = true) ds ms)
    (as : List α) : kept (kept ds ms) (kept ds as) = kept ms as := by
  induction h generalizing as with
  | nil => simp
  | @cons d m ds ms hdm h ih =>
    cases as with
    | nil => simp
    | cons a as =>
      cases d with
      | true =>
        obtain rfl := hdm rfl
        simp [ih]
      | false => cases m <;> simp [ih]

theorem rank_kept {ds ms : List Bool} (h : List.Forall₂ (fun d m => d = true → m = true) ds ms)
    (i : ℕ) : rank (kept ds ms) (rank ds i) = rank ms i := by
  induction h generalizing i with
  | nil => simp
  | @cons d m ds ms hdm h ih =>
    cases i with
    | zero => simp
    | succ i =>
      cases d with
      | true =>
        obtain rfl := hdm rfl
        simp [ih]
      | false => cases m <;> simp [ih]

/-! ## Insertion -/

theorem start_insertIdx_of_le (s : ℕ) {sizes : List ℕ} {i k : ℕ} (hik : i ≤ k) :
    start (sizes.insertIdx k s) i = start sizes i := by
  induction sizes generalizing i k with
  | nil =>
    cases i with
    | zero => simp
    | succ i =>
      obtain ⟨k, rfl⟩ : ∃ l, k = l + 1 := ⟨k - 1, by omega⟩
      simp
  | cons t sizes ih =>
    cases i with
    | zero => simp
    | succ i =>
      obtain ⟨k, rfl⟩ : ∃ l, k = l + 1 := ⟨k - 1, by omega⟩
      rw [List.insertIdx_succ_cons, start_cons_succ, start_cons_succ,
        ih (show i ≤ k by omega)]

theorem start_insertIdx_succ (s : ℕ) {sizes : List ℕ} {i k : ℕ} (hki : k ≤ i)
    (hk : k ≤ sizes.length) : start (sizes.insertIdx k s) (i + 1) = start sizes i + s := by
  induction sizes generalizing i k with
  | nil =>
    obtain rfl : k = 0 := Nat.le_zero.1 hk
    simp
  | cons t sizes ih =>
    cases k with
    | zero =>
      rw [List.insertIdx_zero, start_cons_succ, Nat.add_comm]
    | succ k =>
      obtain ⟨i, rfl⟩ : ∃ l, i = l + 1 := ⟨i - 1, by omega⟩
      have hrest := ih (show k ≤ i by omega) (Nat.le_of_succ_le_succ hk)
      rw [List.insertIdx_succ_cons, start_cons_succ, start_cons_succ, hrest, Nat.add_assoc]

/-- Deleting what was inserted. -/
theorem kept_insertIdx {ms : List Bool} {as : List α} {k : ℕ} (hms : k ≤ ms.length)
    (has : k ≤ as.length) (a : α) :
    kept (ms.insertIdx k true) (as.insertIdx k a) = kept ms as := by
  induction k generalizing ms as with
  | zero => simp
  | succ k ih =>
    obtain ⟨m, ms, rfl⟩ := List.exists_cons_of_length_pos (Nat.lt_of_lt_of_le k.succ_pos hms)
    obtain ⟨b, as, rfl⟩ := List.exists_cons_of_length_pos (Nat.lt_of_lt_of_le k.succ_pos has)
    have hrest := ih (Nat.le_of_succ_le_succ hms) (Nat.le_of_succ_le_succ has)
    cases m <;> simp [hrest]

theorem rank_insertIdx_of_le {ms : List Bool} {i k : ℕ} (hik : i ≤ k) (hk : k ≤ ms.length)
    (m : Bool) : rank (ms.insertIdx k m) i = rank ms i := by
  induction k generalizing ms i with
  | zero =>
    obtain rfl : i = 0 := Nat.le_zero.1 hik
    simp
  | succ k ih =>
    obtain ⟨m', ms, rfl⟩ := List.exists_cons_of_length_pos (Nat.lt_of_lt_of_le k.succ_pos hk)
    cases i with
    | zero => simp
    | succ i =>
      have hrest := ih (show i ≤ k by omega) (Nat.le_of_succ_le_succ hk)
      cases m' <;> simp [hrest]

theorem rank_insertIdx_succ {ms : List Bool} {i k : ℕ} (hki : k ≤ i) (hk : k ≤ ms.length) :
    rank (ms.insertIdx k true) (i + 1) = rank ms i := by
  induction k generalizing ms i with
  | zero => simp
  | succ k ih =>
    obtain ⟨m', ms, rfl⟩ := List.exists_cons_of_length_pos (Nat.lt_of_lt_of_le k.succ_pos hk)
    obtain ⟨i, rfl⟩ : ∃ l, i = l + 1 := ⟨i - 1, by omega⟩
    have hrest := ih (show k ≤ i by omega) (Nat.le_of_succ_le_succ hk)
    cases m' <;> simp [hrest]

end Binary
