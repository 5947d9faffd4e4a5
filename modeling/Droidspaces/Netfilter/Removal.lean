import Droidspaces.Netfilter.Fixups
import Droidspaces.Netfilter.Rules
import Droidspaces.Netfilter.Socket

/-!
# Removing rules

`remove_matching_rules` walks the table from entry to entry, leaves out the ones that it takes for
its own and notes for every entry how many bytes were left out before it; from these notes come the
new places of jumps, chains and policies.

The walk is proved by a loop invariant, `passed`: what it has after some entries is given by the
marks of these.  `represents_removal` is the result: the new table is that of the ruleset without
the marked rules.
-/

namespace Droidspaces.Netfilter

open Binary Transition

/-! ## Which entries -/

/-- The policy entry of some chain. -/
def isUnderflow (T : Table) (offset : ℕ) : Bool :=
  Hook.all.any fun h => T.validHooks h && offset == T.underflow h

/-- The entry at the offset is left out. -/
def removes (T : Table) (hook : Hook) (fp : Fingerprint) (offset : ℕ) (e : Bytes) : Bool :=
  hookContainsOffset T hook offset && isOurs fp e && !isUnderflow T offset

/-! ## The walk -/

structure Pass where
  newBlob : Bytes
  oldOffsets : List ℕ
  removedBefore : List ℕ
  removedCount : ℕ
  cumulativeGone : ℕ
  offset : ℕ

def Pass.initial : Pass := ⟨[], [], [], 0, 0, 0⟩

/-- One entry of pass 1. -/
def Pass.next (p : Pass) (removed : Bool) (e : Bytes) : Pass where
  newBlob := if removed then p.newBlob else p.newBlob ++ e
  oldOffsets := p.oldOffsets ++ [p.offset]
  removedBefore := p.removedBefore ++ [p.cumulativeGone]
  removedCount := if removed then p.removedCount + 1 else p.removedCount
  cumulativeGone := if removed then p.cumulativeGone + e.length else p.cumulativeGone
  offset := p.offset + e.length

/-- Pass 1, over at most the given number of entries. -/
def pass (T : Table) (hook : Hook) (fp : Fingerprint) : ℕ → Pass → Pass
  | 0, p => p
  | left + 1, p =>
    let e := T.blob.drop p.offset
    if T.size < p.offset + entrySize || nextOffset e < entrySize ||
        T.size - p.offset < nextOffset e ||
        nextOffset e < targetOffset e + targetHeaderSize then p
    else pass T hook fp left (p.next (removes T hook fp p.offset e) (e.take (nextOffset e)))

/-- What was left out before the first entry that is not before an offset. -/
def adjustment (oldOffsets removedBefore : List ℕ) (off : ℕ) : ℕ :=
  ((oldOffsets.zip removedBefore).find? fun p => off ≤ p.1).elim 0 (·.2)

/-- What `remove_matching_rules` submits for a table, if it submits anything. -/
def removal (hook : Hook) (fp : Fingerprint) (T : Table) : Option Table :=
  let p := pass T hook fp T.numEntries Pass.initial
  let oldOffsets := p.oldOffsets ++ [p.offset]
  let removedBefore := p.removedBefore ++ [p.cumulativeGone]
  if p.removedCount = 0 then none
  else some {
    validHooks := T.validHooks
    numEntries := T.numEntries - p.removedCount
    size := p.newBlob.length
    hookEntry := fun h =>
      if T.validHooks h then
        T.hookEntry h - adjustment oldOffsets removedBefore (T.hookEntry h)
      else 0
    underflow := fun h =>
      if T.validHooks h then
        T.underflow h - adjustment oldOffsets removedBefore (T.underflow h)
      else 0
    blob := fixupJumpTargetsRemoved p.newBlob oldOffsets removedBefore }

/-! ## What the rules say of it -/

namespace Ruleset

variable {A : Ruleset} {hook : Hook} {fp : Fingerprint}

/-- The rule holds the policy of some chain. -/
def isLast (A : Ruleset) (i : ℕ) : Bool := Hook.all.any fun h => A.valid h && A.last h == i

/-- The rules that `remove_matching_rules` takes for its own: those of the chain that match and do
not hold a policy. -/
def ours (A : Ruleset) (hook : Hook) (fp : Fingerprint) : List Bool :=
  A.rules.mapIdx fun i r => A.valid hook && A.entry hook ≤ i && i < A.last hook &&
    isOurs fp r.bytes && !A.isLast i

theorem length_ours : (A.ours hook fp).length = A.rules.length := List.length_mapIdx

theorem isLast_of_last {h : Hook} (hvalid : A.valid h = true) : A.isLast (A.last h) = true := by
  rw [isLast, List.any_eq_true]
  exact ⟨h, h.mem_all, by simp [hvalid]⟩

theorem ours_eq_true {i : ℕ} : (A.ours hook fp)[i]? = some true ↔ ∃ r, A.rules[i]? = some r ∧
    A.valid hook = true ∧ A.entry hook ≤ i ∧ i < A.last hook ∧ isOurs fp r.bytes = true ∧
      A.isLast i = false := by
  simp [ours, List.getElem?_mapIdx, Option.map_eq_some_iff, and_assoc]

theorem Valid.deletable_ours (hA : A.Valid) : A.Deletable (A.ours hook fp) where
  length := length_ours
  last h hvalid hmark := by
    obtain ⟨r, -, -, -, -, -, hlast⟩ := ours_eq_true.1 hmark
    rw [isLast_of_last hvalid] at hlast
    exact absurd hlast (by decide)
  after i hi := by
    rcases em ((A.ours hook fp)[i]? = some true) with hmark | hmark
    · obtain ⟨r, -, hvalid, -, hlt, -, -⟩ := ours_eq_true.1 hmark
      refine ⟨A.last hook, Nat.le_of_lt hlt, hA.last_lt hook hvalid, fun hlast => ?_⟩
      obtain ⟨r, -, -, -, hself, -, -⟩ := ours_eq_true.1 hlast
      exact absurd hself (Nat.lt_irrefl _)
    · exact ⟨i, Nat.le_refl i, hi, hmark⟩

end Ruleset

section Offsets

variable {T : Table} {A : Ruleset} (h : Represents T A)
include h

theorem Represents.isUnderflow_eq {i : ℕ} (hi : i < A.rules.length) :
    isUnderflow T (A.offset i) = A.isLast i := by
  rw [isUnderflow, Ruleset.isLast, h.validHooks]
  congr 1
  funext hook
  rcases Bool.eq_false_or_eq_true (A.valid hook) with hvalid | hvalid
  · rw [hvalid, h.underflow hook hvalid, Bool.true_and, Bool.true_and, Bool.eq_iff_iff,
      beq_iff_eq, beq_iff_eq]
    constructor
    · exact fun heq => h.valid.offset_inj (h.valid.last_lt hook hvalid) hi heq.symm
    · exact fun heq => congrArg A.offset heq.symm
  · rw [hvalid, Bool.false_and, Bool.false_and]

/-- The walk leaves out what is ours. -/
theorem Represents.removes_encode_iff (hook : Hook) (fp : Fingerprint) {i : ℕ}
    (hi : i < A.rules.length) :
    removes T hook fp (A.offset i) (A.encode A.rules[i]) = true ↔
      (A.ours hook fp)[i]? = some true := by
  have hcontains := h.hookContainsOffset_iff hook hi
  rw [Ruleset.ours_eq_true, removes, h.isUnderflow_eq hi,
    h.valid.isOurs_encode (List.getElem_mem hi)]
  simp only [Bool.and_eq_true, hcontains, List.getElem?_eq_getElem hi, Option.some.injEq,
    Bool.not_eq_true', exists_eq_left', and_assoc]

theorem Represents.removes_eq {hook : Hook} {fp : Fingerprint} {i : ℕ}
    (hi : i < A.rules.length) (hours : i < (A.ours hook fp).length) :
    removes T hook fp (A.offset i) (T.blob.drop (A.offset i)) = (A.ours hook fp)[i] := by
  obtain ⟨rest, hrest⟩ := h.drop_blob hi
  have hentry := h.valid.isEntry_encode (List.getElem_mem hi)
  have hmark := h.removes_encode_iff hook fp hi
  rw [List.getElem?_eq_getElem hours, Option.some.injEq] at hmark
  rw [Bool.eq_iff_iff, ← hmark, hrest, removes, hentry.isOurs_append, removes]

end Offsets

/-! ## The walk -/

/-- What the walk has after `i` rules. -/
def passed (A : Ruleset) (marks : List Bool) (i : ℕ) : Pass where
  newBlob := (kept (marks.take i) ((A.rules.map A.encode).take i)).flatten
  oldOffsets := (List.range i).map A.offset
  removedBefore := (List.range i).map (gone marks A.sizes)
  removedCount := (marks.take i).count true
  cumulativeGone := gone marks A.sizes i
  offset := A.offset i

theorem passed_zero (A : Ruleset) (marks : List Bool) : passed A marks 0 = Pass.initial := by
  simp [passed, Pass.initial, Ruleset.offset]

theorem next_passed {A : Ruleset} (hA : A.Valid) {marks : List Bool} {i : ℕ}
    (hmarks : i < marks.length) (hi : i < A.rules.length) :
    (passed A marks i).next marks[i] (A.encode A.rules[i]) = passed A marks (i + 1) := by
  have hencode : i < (A.rules.map A.encode).length := by rwa [List.length_map]
  have hsizes : i < A.sizes.length := by rwa [A.length_sizes]
  have hlength := hA.length_encode_getElem hi hsizes
  have hkept := kept_take_succ hmarks hencode
  have hoffset : A.offset (i + 1) = A.offset i + A.sizes[i] := start_succ hsizes
  have hgone := gone_succ hmarks hsizes
  rw [List.getElem_map] at hkept
  rw [passed, Pass.next, passed, hkept, hoffset, hgone, hlength]
  cases hmark : marks[i] <;>
    simp [List.range_succ, List.take_succ_eq_append_getElem hmarks, List.count_append, hmark]

/-- **Pass 1**, from any place on. -/
theorem pass_passed {T : Table} {A : Ruleset} (h : Represents T A) (hook : Hook)
    (fp : Fingerprint) {left i : ℕ} (hleft : left + i = A.rules.length) :
    pass T hook fp left (passed A (A.ours hook fp) i) =
      passed A (A.ours hook fp) A.rules.length := by
  induction left generalizing i with
  | zero =>
    obtain rfl : i = A.rules.length := by omega
    rfl
  | succ left ih =>
    have hi : i < A.rules.length := by omega
    have hours : i < (A.ours hook fp).length := by rwa [Ruleset.length_ours]
    have hsizes : i < A.sizes.length := by rwa [A.length_sizes]
    obtain ⟨rest, hrest⟩ := h.drop_blob hi
    have hentry := h.valid.isEntry_encode (List.getElem_mem hi)
    have hlong := hentry.le_length
    have hfits := hentry.header_fits
    have hlength := h.valid.length_encode_getElem hi hsizes
    have hend : A.offset i + A.sizes[i] ≤ T.size := by
      rw [Ruleset.offset, ← start_succ hsizes, h.size]
      exact Ruleset.Valid.offset_le (A := A) (i + 1)
    have hgo : ¬(T.size < A.offset i + entrySize ||
        nextOffset (T.blob.drop (A.offset i)) < entrySize ||
        T.size - A.offset i < nextOffset (T.blob.drop (A.offset i)) ||
        nextOffset (T.blob.drop (A.offset i)) <
          targetOffset (T.blob.drop (A.offset i)) + targetHeaderSize) = true := by
      rw [hrest, hentry.nextOffset_append, hentry.targetOffset_append]
      simp only [Bool.or_eq_true, decide_eq_true_eq]
      omega
    have htake : (T.blob.drop (A.offset i)).take (nextOffset (T.blob.drop (A.offset i))) =
        A.encode A.rules[i] := by
      rw [hrest, hentry.nextOffset_append, List.take_left]
    have hoffset : (passed A (A.ours hook fp) i).offset = A.offset i := rfl
    simp only [pass, hoffset]
    rw [if_neg hgo, h.removes_eq hi hours, htake, next_passed h.valid hours hi]
    exact ih (by omega)

theorem passed_length {A : Ruleset} {marks : List Bool} (hmarks : marks.length = A.rules.length) :
    passed A marks A.rules.length =
      { newBlob := (kept marks (A.rules.map A.encode)).flatten
        oldOffsets := (List.range A.rules.length).map A.offset
        removedBefore := (List.range A.rules.length).map (gone marks A.sizes)
        removedCount := marks.count true
        cumulativeGone := gone marks A.sizes A.rules.length
        offset := A.offset A.rules.length } := by
  have htake : marks.take A.rules.length = marks := List.take_of_length_le (by omega)
  have hrules : (A.rules.map A.encode).take A.rules.length = A.rules.map A.encode :=
    List.take_of_length_le (by rw [List.length_map])
  rw [passed, htake, hrules]

/-! ## The new table -/

/-- The notes of pass 1, with those of the end of the table. -/
def Ruleset.oldOffsets (A : Ruleset) : List ℕ := (List.range (A.rules.length + 1)).map A.offset

def Ruleset.removedBefore (A : Ruleset) (marks : List Bool) : List ℕ :=
  (List.range (A.rules.length + 1)).map (gone marks A.sizes)

section Notes

variable {A : Ruleset} (marks : List Bool) {i : ℕ} (hi : i < A.rules.length)
include hi

theorem find?_notes (found : ℕ → Bool) (hfound : found (A.offset i) = true)
    (hbefore : ∀ j < i, found (A.offset j) = false) :
    (A.oldOffsets.zip (A.removedBefore marks)).find? (fun p => found p.1) =
      some (A.offset i, gone marks A.sizes i) := by
  have hrange : (List.range (A.rules.length + 1)).find? (fun j => found (A.offset j)) = some i := by
    rw [List.find?_range_eq_some]
    refine ⟨hfound, List.mem_range.2 (by omega), fun j hj => ?_⟩
    rw [hbefore j hj]
    rfl
  rw [Ruleset.oldOffsets, Ruleset.removedBefore, List.zip_map', List.find?_map]
  exact congrArg _ hrange

theorem offset_lt_offset (hA : A.Valid) {j : ℕ} (hj : j < i) : A.offset j < A.offset i :=
  start_lt_start hA.sizes_pos hj (by rw [A.length_sizes]; omega)

/-- Where a chain that began at a rule begins now. -/
theorem offset_sub_adjustment (hA : A.Valid) :
    A.offset i - adjustment A.oldOffsets (A.removedBefore marks) (A.offset i) =
      (A.delete marks).offset (rank marks i) := by
  have hfind := find?_notes marks hi (fun off => A.offset i ≤ off) (by simp) fun j hj => by
    simpa using offset_lt_offset hi hA hj
  have hoffset := A.offset_delete marks (Nat.le_of_lt hi)
  rw [adjustment, hfind, Option.elim_some]
  omega

/-- Where a jump to a rule goes now. -/
theorem find?_jump (hA : A.Valid) :
    (A.oldOffsets.zip (A.removedBefore marks)).find? (fun p => (p.1 : ℤ) = A.offset i) =
      some (A.offset i, gone marks A.sizes i) := by
  refine find?_notes marks hi (fun off => (off : ℤ) = A.offset i) (by simp) fun j hj => ?_
  have hlt := offset_lt_offset hi hA hj
  rw [decide_eq_false_iff_not]
  omega

end Notes

/-- The surviving entries, after the fix-up. -/
theorem fixupJumpTargetsRemoved_kept {A : Ruleset} (hA : A.Valid) (marks : List Bool) :
    fixupJumpTargetsRemoved (kept marks (A.rules.map A.encode)).flatten A.oldOffsets
      (A.removedBefore marks) = (A.delete marks).blob := by
  have hentries : ∀ e ∈ kept marks (A.rules.map A.encode), IsEntry e := by
    intro e he
    obtain ⟨r, hr, rfl⟩ := List.mem_map.1 (mem_of_mem_kept he)
    exact hA.isEntry_encode hr
  rw [fixupJumpTargetsRemoved, rebase_flatten _ hentries (length_le_length_flatten hentries),
    Ruleset.blob, Ruleset.delete, kept_map, List.map_map, List.map_map]
  congr 1
  refine List.map_congr_left fun r hr => ?_
  refine fix_encode hA (fun v hv => ?_) (fun i hi => ?_) (mem_of_mem_kept hr)
  · rw [if_neg (by omega)]
  · have hoffset := A.offset_delete marks (Nat.le_of_lt hi)
    rw [if_pos (by omega), find?_jump marks hi hA]
    simp only [Ruleset.delete] at hoffset ⊢
    omega

/-- **Pass 2**: the new table is that of the ruleset without the marked rules. -/
theorem represents_removal {T T' : Table} {A : Ruleset} (h : Represents T A) {hook : Hook}
    {fp : Fingerprint} (hT' : removal hook fp T = some T') :
    Represents T' (A.delete (A.ours hook fp)) := by
  have hlength : (A.ours hook fp).length = A.rules.length := Ruleset.length_ours
  generalize hmarks : A.ours hook fp = marks at hlength
  have hdeletable : A.Deletable marks := hmarks ▸ h.valid.deletable_ours
  have hpass := pass_passed h hook fp (Nat.add_zero A.rules.length)
  rw [hmarks, passed_zero, passed_length hlength] at hpass
  have hvalid := h.valid.delete hdeletable
  have hold : A.oldOffsets = (List.range A.rules.length).map A.offset ++
      [A.offset A.rules.length] := by
    rw [Ruleset.oldOffsets, List.range_succ, List.map_append, List.map_singleton]
  have hremoved : A.removedBefore marks = (List.range A.rules.length).map (gone marks A.sizes) ++
      [gone marks A.sizes A.rules.length] := by
    rw [Ruleset.removedBefore, List.range_succ, List.map_append, List.map_singleton]
  simp only [removal, h.numEntries, hpass, ← hold, ← hremoved] at hT'
  split at hT'
  · cases hT'
  · obtain rfl := Option.some.inj hT'
    refine ⟨hvalid, fixupJumpTargetsRemoved_kept h.valid marks, ?_, ?_, h.validHooks, ?_, ?_⟩
    · have hcount := length_kept marks A.rules
      rw [List.take_of_length_le (by omega)] at hcount
      simp only [Ruleset.delete, List.length_map]
      omega
    · rw [List.length_flatten, ← kept_map, Ruleset.sizes_delete, ← h.valid.sizesOf_encode]
      rfl
    · intro hook' (hvalid' : A.valid hook' = true)
      have hlt := Nat.lt_of_le_of_lt (h.valid.entry_le hook' hvalid')
        (h.valid.last_lt hook' hvalid')
      simp only [h.validHooks, h.hookEntry hook' hvalid']
      rw [if_pos hvalid']
      exact offset_sub_adjustment marks hlt h.valid
    · intro hook' (hvalid' : A.valid hook' = true)
      simp only [h.validHooks, h.underflow hook' hvalid']
      rw [if_pos hvalid']
      exact offset_sub_adjustment marks (h.valid.last_lt hook' hvalid') h.valid

/-- Nothing is submitted only if nothing is ours. -/
theorem not_mem_ours_of_removal {T : Table} {A : Ruleset} (h : Represents T A) {hook : Hook}
    {fp : Fingerprint} (hT' : removal hook fp T = none) : true ∉ A.ours hook fp := by
  have hpass := pass_passed h hook fp (Nat.add_zero A.rules.length)
  rw [passed_zero, passed_length Ruleset.length_ours] at hpass
  simp only [removal, h.numEntries, hpass] at hT'
  split at hT'
  · next hcount => exact List.count_eq_zero.1 hcount
  · cases hT'

/-! ## What is submitted -/

/-- `remove_matching_rules` -/
def removeMatchingRules {Call : Type} (name : TableName) (T : Table) (hook : Hook)
    (fp : Fingerprint) : Prog (Op Call) Res (Except Errno Unit) :=
  if T.validHooks hook then submit name (removal hook fp) 5 T else pure (.ok ())

/-- The first submission. -/
theorem submits_of_removeMatchingRules {R : Table → Table → Prop} {name : TableName}
    {T T' : Table} {hook : Hook} {fp : Fingerprint} (hhook : T.validHooks hook = true)
    (h : (removeMatchingRules name T hook fp : Prog (Op Unit) Res (Except Errno Unit)).Follows
      lastRead (Submits R) T) (hT' : removal hook fp T = some T') : R T T' := by
  rw [removeMatchingRules, if_pos hhook, submit, hT'] at h
  exact h.1

/-- The rules of a chain that match, with the one that holds a policy. -/
def Ruleset.matching (A : Ruleset) (hook : Hook) (fp : Fingerprint) : List Bool :=
  A.rules.mapIdx fun i r =>
    A.valid hook && A.entry hook ≤ i && i < A.last hook && isOurs fp r.bytes

section PolicyOfAnotherChain

/-- The second rule of FORWARD is the only one of INPUT. -/
def overlapping : Ruleset where
  rules := List.replicate 3 ⟨acceptRule natBridge false, none⟩
  valid h := h = .forward ∨ h = .localIn
  entry h := if h = .forward then 0 else 1
  last h := if h = .forward then 2 else 1

theorem overlapping_valid : overlapping.Valid := by
  decide +kernel

end PolicyOfAnotherChain

end Droidspaces.Netfilter
