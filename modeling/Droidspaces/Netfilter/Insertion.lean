import Droidspaces.Netfilter.Fixups
import Droidspaces.Netfilter.Rules
import Droidspaces.Netfilter.Socket

/-!
# Inserting a rule

`insert_rule_at_hook` puts a rule where a chain begins.  Three comparisons say what moves: chains
that begin later, policies that stand there or later, and jumps that go there or later.

`represents_insertion` is what the code does, for any table: the chains that begin at that place all
begin with the new rule.  Where no two chains begin at one place this is what it is meant to do,
`insertAt_entry`.
-/

namespace Droidspaces.Netfilter

open Binary Transition

/-- What `insert_rule_at_hook` submits for a table. -/
def insertion (hook : Hook) (rule : Bytes) (T : Table) : Table :=
  let insertOff := T.hookEntry hook
  { validHooks := T.validHooks
    numEntries := T.numEntries + 1
    size := T.size + rule.length
    hookEntry := fun h =>
      if T.validHooks h then
        if insertOff < T.hookEntry h then T.hookEntry h + rule.length else T.hookEntry h
      else 0
    underflow := fun h =>
      if T.validHooks h then
        if insertOff ≤ T.underflow h then T.underflow h + rule.length else T.underflow h
      else 0
    blob := fixupJumpTargets (T.blob.take insertOff ++ rule ++ T.blob.drop insertOff) insertOff
      rule.length }

/-- `insert_rule_at_hook` -/
def insertRuleAtHook {Call : Type} (name : TableName) (T : Table) (hook : Hook) (rule : Bytes) :
    Prog (Op Call) Res (Except Errno Unit) :=
  submit name (fun T => some (insertion hook rule T)) 5 T

section Entry

variable {A : Ruleset} {k : ℕ} {rule : Bytes}

/-- The old entries and the new one, after the fix-up. -/
theorem fixupJumpTargets_insertIdx (hA : A.Valid) (hk : k < A.rules.length) (hrule : IsEntry rule)
    (hjump : isJump rule = false) :
    fixupJumpTargets ((A.rules.map A.encode).insertIdx k rule).flatten (A.offset k) rule.length =
      (A.insertAt k rule).blob := by
  have hlength : k ≤ (A.rules.map A.encode).length := by
    rw [List.length_map]
    omega
  have hentries : ∀ e ∈ (A.rules.map A.encode).insertIdx k rule, IsEntry e := by
    intro e he
    rcases List.eq_or_mem_of_mem_insertIdx he with rfl | he
    · exact hrule
    · obtain ⟨r, hr, rfl⟩ := List.mem_map.1 he
      exact hA.isEntry_encode hr
  have hnegative : ∀ v : ℤ, v < 0 →
      (if (A.offset k : ℤ) ≤ v then v + (rule.length : ℤ) else v) = v := fun v hv => by
    rw [if_neg (by omega)]
  rw [fixupJumpTargets, rebase_flatten _ hentries (length_le_length_flatten hentries),
    Ruleset.blob, Ruleset.insertAt, List.map_insertIdx, List.map_insertIdx,
    fix_of_not_isJump hnegative hrule hjump, List.map_map, List.map_map]
  congr 2
  refine List.map_congr_left fun r hr => ?_
  refine fix_encode hA hnegative (fun i hi => ?_) hr
  have hle := hA.offset_le_offset (i := k) hi
  show _ = ((A.insertAt k rule).offset (Ruleset.shift k i) : ℤ)
  rw [A.offset_insertAt rule (Nat.le_of_lt hk)]
  split <;> split <;> omega

/-- **What is submitted**: the chains that begin where the chain does begin with the new rule. -/
theorem represents_insertion {T : Table} (h : Represents T A) {hook : Hook}
    (hvalid : A.valid hook = true) (hrule : IsEntry rule) (hjump : isJump rule = false)
    (hsize : T.size + rule.length < 2 ^ 31) :
    Represents (insertion hook rule T) (A.insertAt (A.entry hook) rule) := by
  have hlt (hook' : Hook) (hvalid' : A.valid hook' = true) : A.entry hook' < A.rules.length :=
    Nat.lt_of_le_of_lt (h.valid.entry_le hook' hvalid') (h.valid.last_lt hook' hvalid')
  have hk := hlt hook hvalid
  generalize hk' : A.entry hook = k at hk
  have hoff : T.hookEntry hook = A.offset k := by rw [h.hookEntry hook hvalid, hk']
  have hblob : T.blob.take (T.hookEntry hook) ++ rule ++ T.blob.drop (T.hookEntry hook) =
      ((A.rules.map A.encode).insertIdx k rule).flatten := by
    rw [flatten_insertIdx _ (by rw [List.length_map]; omega), h.valid.sizesOf_encode, hoff, h.blob]
    rfl
  rw [h.size] at hsize
  refine ⟨h.valid.insertAt (Nat.le_of_lt hk) hrule hjump hsize, ?_, ?_, ?_, h.validHooks, ?_, ?_⟩
  · simp only [insertion, hblob]
    rw [hoff]
    exact fixupJumpTargets_insertIdx h.valid hk hrule hjump
  · rw [Ruleset.length_insertAt (Nat.le_of_lt hk), ← h.numEntries]
    rfl
  · rw [Ruleset.sum_sizes_insertAt (Nat.le_of_lt hk), ← h.size]
    rfl
  · intro hook' (hvalid' : A.valid hook' = true)
    have hle := h.valid.offset_le_offset (i := A.entry hook') hk
    simp only [insertion, h.validHooks, hoff, h.hookEntry hook' hvalid']
    rw [if_pos hvalid']
    show _ = (A.insertAt k rule).offset
      (if k < A.entry hook' then A.entry hook' + 1 else A.entry hook')
    rcases Nat.lt_or_ge k (A.entry hook') with hlater | hearlier
    · have hmoved := A.offset_insertAt rule (Nat.le_of_lt hk) (A.entry hook')
      rw [Ruleset.shift, if_pos (Nat.le_of_lt hlater), if_pos (Nat.le_of_lt hlater)] at hmoved
      rw [if_pos (by omega), if_pos hlater, hmoved]
    · rw [if_neg (by omega), if_neg (by omega), Ruleset.offset_insertAt_of_le hearlier]
  · intro hook' (hvalid' : A.valid hook' = true)
    have hle := h.valid.offset_le_offset (i := k) (h.valid.last_lt hook' hvalid')
    simp only [insertion, h.validHooks, hoff, h.underflow hook' hvalid']
    rw [if_pos hvalid']
    show _ = (A.insertAt k rule).offset (Ruleset.shift k (A.last hook'))
    rw [A.offset_insertAt rule (Nat.le_of_lt hk)]
    split <;> split <;> omega

/-- **What is meant**, where no other chain begins at that place. -/
theorem represents_insertFirst {T : Table} {hook : Hook}
    (h : Represents T (A.insertAt (A.entry hook) rule))
    (hdistinct : ∀ hook', A.valid hook' = true → A.entry hook' = A.entry hook → hook' = hook) :
    Represents T (A.insertFirst hook rule) := by
  refine h.congr_entry fun hook' (hvalid' : A.valid hook' = true) => ?_
  simp only [Ruleset.insertAt, Ruleset.shift]
  split
  · next heq => rw [heq, if_neg (Nat.lt_irrefl _)]
  · next hne =>
    have hother : A.entry hook' ≠ A.entry hook := fun heq => hne (hdistinct hook' hvalid' heq)
    split <;> split <;> omega

end Entry

/-! ## What is submitted -/

/-- `XT_MAX_TABLE_SIZE`: the kernel has no larger table. -/
def maxTableSize : ℕ := 512 * 1024 * 1024

/-- INPUT is empty and at the beginning of the table, and FORWARD jumps there. -/
def emptyInput : Ruleset :=
  filterWith [⟨setVerdict (policyEntry acceptVerdict) 0, some 0⟩] acceptVerdict

theorem emptyInput_valid : emptyInput.Valid := by
  decide +kernel

end Droidspaces.Netfilter
