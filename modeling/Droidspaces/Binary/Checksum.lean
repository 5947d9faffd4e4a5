import Droidspaces.Binary.Fields

/-!
# The checksum of Internet headers

Words of 16 bits are added and the carries are brought round (`foldCarry`); a header is intact if
all bits of its sum are set (`Intact`).  The sender may add the words in its own byte order and
store the complement of the sum in the same order: `intact_of_complement` says that whoever adds
them in network order finds the header intact.
-/

namespace Binary

/-! ## Sums of words -/

/-- The sum of the words of 16 bits, each with the lower byte first; a byte without a second one is
a word too. -/
def wordSum : Bytes → ℕ
  | [] => 0
  | [a] => a.toNat
  | a :: b :: bs => a.toNat + 256 * b.toNat + wordSum bs

/-- The sum in network order, where the higher byte is first. -/
def networkSum : Bytes → ℕ
  | [] => 0
  | [a] => 256 * a.toNat
  | a :: b :: bs => 256 * a.toNat + b.toNat + networkSum bs

theorem wordSum_append {front : Bytes} (h : front.length % 2 = 0) (rest : Bytes) :
    wordSum (front ++ rest) = wordSum front + wordSum rest := by
  induction front using wordSum.induct with
  | case1 => exact (Nat.zero_add _).symm
  | case2 a => simp at h
  | case3 a b bs ih =>
    rw [List.length_cons, List.length_cons] at h
    rw [List.cons_append, List.cons_append, wordSum, wordSum, ih (by omega)]
    omega

theorem wordSum_le (bs : Bytes) : wordSum bs ≤ 65535 * bs.length := by
  induction bs using wordSum.induct with
  | case1 => exact Nat.zero_le _
  | case2 a =>
    have ha := a.toNat_lt
    rw [wordSum, List.length_singleton]
    omega
  | case3 a b bs ih =>
    have ha := a.toNat_lt
    have hb := b.toNat_lt
    rw [wordSum, List.length_cons, List.length_cons]
    omega

/-- Bringing the bytes of every word into the other order multiplies the sum by 256, up to carries
that are brought round. -/
theorem exists_networkSum (bs : Bytes) : ∃ k, 256 * wordSum bs = networkSum bs + 65535 * k := by
  induction bs using wordSum.induct with
  | case1 => exact ⟨0, rfl⟩
  | case2 a => exact ⟨0, rfl⟩
  | case3 a b bs ih =>
    obtain ⟨k, hk⟩ := ih
    refine ⟨b.toNat + k, ?_⟩
    rw [wordSum, networkSum]
    omega

theorem networkSum_pos {bs : Bytes} (h : 0 < wordSum bs) : 0 < networkSum bs := by
  induction bs using wordSum.induct with
  | case1 => exact h
  | case2 a =>
    rw [wordSum] at h
    rw [networkSum]
    omega
  | case3 a b bs ih =>
    rw [wordSum] at h
    rw [networkSum]
    rcases Nat.eq_zero_or_pos (wordSum bs) with hzero | hpos
    · omega
    · have := ih hpos
      omega

/-! ## Carries -/

/-- What is above 16 bits is added to what is below until nothing is. -/
def foldCarry (sum : ℕ) : ℕ :=
  if sum < 65536 then sum else foldCarry (sum % 65536 + sum / 65536)
termination_by sum
decreasing_by omega

/-- The sum modulo 65535, with 65535 for 0 unless there was nothing to add. -/
theorem foldCarry_eq (sum : ℕ) :
    foldCarry sum = if sum = 0 then 0 else (sum - 1) % 65535 + 1 := by
  induction sum using foldCarry.induct with
  | case1 sum hlt =>
    rw [foldCarry, if_pos hlt]
    split <;> omega
  | case2 sum hge ih =>
    rw [foldCarry, if_neg hge, ih]
    split <;> split <;> omega

theorem foldCarry_lt (sum : ℕ) : foldCarry sum < 65536 := by
  rw [foldCarry_eq]
  split <;> omega

theorem foldCarry_eq_max_iff {sum : ℕ} : foldCarry sum = 65535 ↔ 0 < sum ∧ sum % 65535 = 0 := by
  rw [foldCarry_eq]
  split <;> omega

/-- What was added to its complement has all bits set. -/
theorem foldCarry_add_complement (sum : ℕ) :
    foldCarry (sum + (65535 - foldCarry sum)) = 65535 := by
  rw [foldCarry_eq_max_iff, foldCarry_eq]
  split <;> omega

/-! ## Headers -/

/-- The sum of a header that has its checksum in it has all bits set. -/
def Intact (header : Bytes) : Prop := foldCarry (networkSum header) = 65535

instance (header : Bytes) : Decidable (Intact header) :=
  decidable_of_iff (0 < networkSum header ∧ networkSum header % 65535 = 0)
    foldCarry_eq_max_iff.symm

/-- **A header whose sender added its words in the other order is intact.** -/
theorem intact_of_complement {front rest : Bytes} (h : front.length % 2 = 0) :
    Intact (front ++
      (ofNat 2 (65535 - foldCarry (wordSum (front ++ ([0, 0] ++ rest)))) ++ rest)) := by
  have hlt := foldCarry_lt (wordSum (front ++ ([0, 0] ++ rest)))
  have hsum (v : ℕ) (hv : v < 65536) :
      wordSum (front ++ (ofNat 2 v ++ rest)) = wordSum (front ++ ([0, 0] ++ rest)) + v := by
    have hword : wordSum (ofNat 2 v) = v := by
      have hv' := toNat_ofNat 2 v
      rw [ofNat, ofNat, ofNat, toNat, toNat, toNat] at hv'
      rw [ofNat, ofNat, ofNat, wordSum, wordSum]
      omega
    rw [wordSum_append h, wordSum_append h, wordSum_append (by rw [length_ofNat]), hword,
      wordSum_append rfl]
    simp only [wordSum, UInt8.toNat_zero]
    omega
  obtain ⟨hpos, hmod⟩ := foldCarry_eq_max_iff.1
    (foldCarry_add_complement (wordSum (front ++ ([0, 0] ++ rest))))
  rw [← hsum _ (by omega)] at hpos hmod
  obtain ⟨k, hk⟩ := exists_networkSum (front ++
    (ofNat 2 (65535 - foldCarry (wordSum (front ++ ([0, 0] ++ rest)))) ++ rest))
  exact foldCarry_eq_max_iff.2 ⟨networkSum_pos hpos, by omega⟩

end Binary
