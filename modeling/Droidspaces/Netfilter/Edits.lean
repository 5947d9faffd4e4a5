import Droidspaces.Netfilter.Table

/-!
# Deleting and inserting rules

What the two edits of a table are meant to do, said of rulesets: rules go or come, and every place
follows the rule that it is the place of.  The place of a rule that is deleted becomes that of the
first rule left after it.

`delete_delete` composes two deletions, and `delete_insertAt` takes an insertion back.
-/

namespace Droidspaces.Netfilter

open Binary

namespace Ruleset

variable {A : Ruleset} {marks : List Bool} {k : ℕ} {bytes : Bytes}

/-! ## Deletion -/

/-- The ruleset without the marked rules. -/
def delete (A : Ruleset) (marks : List Bool) : Ruleset where
  rules := (kept marks A.rules).map fun r => ⟨r.bytes, r.jump.map (rank marks)⟩
  valid := A.valid
  entry h := rank marks (A.entry h)
  last h := rank marks (A.last h)

theorem sizes_delete : (A.delete marks).sizes = kept marks A.sizes := by
  rw [sizes, sizes, kept_map, delete, List.map_map]
  rfl

theorem mem_delete {r : Rule} (hr : r ∈ (A.delete marks).rules) :
    ∃ s ∈ A.rules, r = ⟨s.bytes, s.jump.map (rank marks)⟩ := by
  obtain ⟨s, hs, rfl⟩ := List.mem_map.1 hr
  exact ⟨s, mem_of_mem_kept hs, rfl⟩

/-- A deletion that can be made: the policies stay, and a rule is left after each one. -/
structure Deletable (A : Ruleset) (marks : List Bool) : Prop where
  length : marks.length = A.rules.length
  last : ∀ h, A.valid h = true → marks[A.last h]? ≠ some true
  after : ∀ i < A.rules.length, ∃ j, i ≤ j ∧ j < A.rules.length ∧ marks[j]? ≠ some true

theorem rank_lt_length {i : ℕ} (hi : i < A.rules.length) (hmark : marks[i]? ≠ some true) :
    rank marks i < (A.delete marks).rules.length := by
  have hget := getElem?_kept hmark A.rules
  rw [List.getElem?_eq_getElem hi] at hget
  rw [delete, List.length_map]
  exact (List.getElem?_eq_some_iff.1 hget).1

theorem Valid.delete (hA : A.Valid) (h : A.Deletable marks) : (A.delete marks).Valid where
  isEntry r hr := by
    obtain ⟨s, hs, rfl⟩ := mem_delete hr
    exact hA.isEntry s hs
  isJump r hr := by
    obtain ⟨s, hs, rfl⟩ := mem_delete hr
    rw [Option.isSome_map]
    exact hA.isJump s hs
  jump_lt r hr i hi := by
    obtain ⟨s, hs, rfl⟩ := mem_delete hr
    obtain ⟨i, hjump, rfl⟩ := Option.map_eq_some_iff.1 hi
    obtain ⟨j, hij, hj, hmark⟩ := h.after i (hA.jump_lt s hs i hjump)
    exact Nat.lt_of_le_of_lt (rank_mono marks hij) (rank_lt_length hj hmark)
  entry_le hook hvalid := rank_mono marks (hA.entry_le hook hvalid)
  last_lt hook hvalid := rank_lt_length (hA.last_lt hook hvalid) (h.last hook hvalid)
  size_lt := by
    rw [sizes_delete]
    exact Nat.lt_of_le_of_lt (sum_kept_le marks A.sizes) hA.size_lt

/-- Where a place is after a deletion. -/
theorem offset_delete (A : Ruleset) (marks : List Bool) {i : ℕ} (hi : i ≤ A.rules.length) :
    (A.delete marks).offset (rank marks i) + gone marks A.sizes i = A.offset i := by
  rw [offset, sizes_delete, offset]
  exact start_kept marks (by rwa [A.length_sizes])

/-- Some of the marked rules first, then the others. -/
theorem delete_delete {ds ms : List Bool}
    (h : List.Forall₂ (fun d m => d = true → m = true) ds ms) :
    (A.delete ds).delete (kept ds ms) = A.delete ms := by
  simp only [delete, kept_map, List.map_map, kept_kept h, rank_kept h, mk.injEq, and_true]
  refine List.map_congr_left fun r _ => ?_
  simp only [Function.comp_apply, Option.map_map, Rule.mk.injEq, true_and]
  congr 1
  funext i
  exact rank_kept h i

/-! ## Insertion -/

/-- Where a place is after an insertion at `k`. -/
def shift (k i : ℕ) : ℕ := if k ≤ i then i + 1 else i

theorem shift_le (k i : ℕ) : shift k i ≤ i + 1 := by
  unfold shift
  split <;> omega

/-- A new rule at `k`; the chains that begin at `k` begin with it. -/
def insertAt (A : Ruleset) (k : ℕ) (bytes : Bytes) : Ruleset where
  rules := (A.rules.map fun r => ⟨r.bytes, r.jump.map (shift k)⟩).insertIdx k ⟨bytes, none⟩
  valid := A.valid
  entry h := if k < A.entry h then A.entry h + 1 else A.entry h
  last h := shift k (A.last h)

/-- A new first rule of one chain. -/
def insertFirst (A : Ruleset) (hook : Hook) (bytes : Bytes) : Ruleset :=
  { A.insertAt (A.entry hook) bytes with
    entry h := if h = hook then A.entry hook else shift (A.entry hook) (A.entry h) }

theorem mem_insertAt {r : Rule} (hk : k ≤ A.rules.length) (hr : r ∈ (A.insertAt k bytes).rules) :
    r = ⟨bytes, none⟩ ∨ ∃ s ∈ A.rules, r = ⟨s.bytes, s.jump.map (shift k)⟩ := by
  rw [insertAt, List.mem_insertIdx (by rwa [List.length_map])] at hr
  rcases hr with rfl | hr
  · exact Or.inl rfl
  · obtain ⟨s, hs, rfl⟩ := List.mem_map.1 hr
    exact Or.inr ⟨s, hs, rfl⟩

theorem length_insertAt (hk : k ≤ A.rules.length) :
    (A.insertAt k bytes).rules.length = A.rules.length + 1 := by
  rw [insertAt, List.length_insertIdx_of_le_length (by rwa [List.length_map]), List.length_map]

theorem sizes_insertAt : (A.insertAt k bytes).sizes = A.sizes.insertIdx k bytes.length := by
  rw [sizes, insertAt, List.map_insertIdx, List.map_map, sizes]
  rfl

theorem sum_sizes_insertAt (hk : k ≤ A.rules.length) :
    (A.insertAt k bytes).sizes.sum = A.sizes.sum + bytes.length := by
  have hlen := A.length_sizes
  have hsucc : (A.sizes.insertIdx k bytes.length).length = A.sizes.length + 1 :=
    List.length_insertIdx_of_le_length (by omega) _
  rw [sizes_insertAt, ← start_length, hsucc, start_insertIdx_succ _ (by omega) (by omega),
    start_length]

/-- Rules from `k` on move by the size of the new one. -/
theorem offset_insertAt (A : Ruleset) (bytes : Bytes) (hk : k ≤ A.rules.length) (i : ℕ) :
    (A.insertAt k bytes).offset (shift k i) = A.offset i + if k ≤ i then bytes.length else 0 := by
  have hlen := A.length_sizes
  rw [offset, sizes_insertAt, offset, shift]
  split
  · next hki => exact start_insertIdx_succ _ hki (by omega)
  · exact start_insertIdx_of_le _ (by omega)

theorem offset_insertAt_of_le {i : ℕ} (hi : i ≤ k) :
    (A.insertAt k bytes).offset i = A.offset i := by
  rw [offset, sizes_insertAt, offset, start_insertIdx_of_le _ hi]

theorem Valid.insertAt (hA : A.Valid) (hk : k ≤ A.rules.length) (hbytes : IsEntry bytes)
    (hjump : Netfilter.isJump bytes = false) (hsize : A.sizes.sum + bytes.length < 2 ^ 31) :
    (A.insertAt k bytes).Valid where
  isEntry r hr := by
    rcases mem_insertAt hk hr with rfl | ⟨s, hs, rfl⟩
    · exact hbytes
    · exact hA.isEntry s hs
  isJump r hr := by
    rcases mem_insertAt hk hr with rfl | ⟨s, hs, rfl⟩
    · exact hjump.symm
    · rw [Option.isSome_map]
      exact hA.isJump s hs
  jump_lt r hr i hi := by
    rw [length_insertAt hk]
    rcases mem_insertAt hk hr with rfl | ⟨s, hs, rfl⟩
    · cases hi
    · obtain ⟨i, hplace, rfl⟩ := Option.map_eq_some_iff.1 hi
      exact Nat.lt_of_le_of_lt (shift_le k i) (Nat.succ_lt_succ (hA.jump_lt s hs i hplace))
  entry_le hook hvalid := by
    have hle := hA.entry_le hook hvalid
    simp only [Ruleset.insertAt, shift]
    split <;> split <;> omega
  last_lt hook hvalid := by
    rw [length_insertAt hk]
    exact Nat.lt_of_le_of_lt (shift_le k _) (Nat.succ_lt_succ (hA.last_lt hook hvalid))
  size_lt := by
    rw [sum_sizes_insertAt hk]
    exact hsize

theorem rank_shift (hk : k ≤ marks.length) (i : ℕ) :
    rank (marks.insertIdx k true) (shift k i) = rank marks i := by
  unfold shift
  split
  · next hki => exact rank_insertIdx_succ hki hk
  · exact rank_insertIdx_of_le (by omega) hk true

/-- **An insertion is taken back by the deletion of the new rule.** -/
theorem delete_insertAt (hk : k ≤ A.rules.length) (hmarks : marks.length = A.rules.length) :
    (A.insertAt k bytes).delete (marks.insertIdx k true) = A.delete marks := by
  have hle : k ≤ marks.length := by omega
  have hentry (i : ℕ) : rank (marks.insertIdx k true) (if k < i then i + 1 else i) =
      rank marks i := by
    split
    · exact rank_insertIdx_succ (by omega) hle
    · exact rank_insertIdx_of_le (by omega) hle true
  simp only [delete, insertAt, mk.injEq, hentry, rank_shift hle, and_true]
  rw [kept_insertIdx hle (by rwa [List.length_map]), kept_map, List.map_map]
  refine List.map_congr_left fun r _ => ?_
  simp only [Function.comp_apply, Option.map_map, Rule.mk.injEq, true_and]
  congr 1
  funext i
  exact rank_shift hle i

end Ruleset

end Droidspaces.Netfilter
