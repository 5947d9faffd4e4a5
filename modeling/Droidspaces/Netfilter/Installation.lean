import Mathlib.Data.List.Permutation
import Droidspaces.Netfilter.HostRules

/-!
# Installing the host rules and removing them

Three pieces of code have to agree: one makes a rule, one looks for it, one removes what has its
fingerprint.  On a table where nothing looks like our rules, they undo each other.

In between the table is `Padded`: every rule of ours has a mark, stands in its chain and holds no
policy, and without the marked rules the table is the old one.  An insertion adds a mark, a removal
takes away those of one rule, and when no mark is left the old table is back.
-/

namespace Droidspaces.Netfilter

open Binary Transition

/-! ## Places in a chain -/

namespace Ruleset

variable {A : Ruleset} {hook : Hook} {i k : ℕ}

theorem getElem?_insertIdx_shift {α : Type} (as : List α) (k : ℕ) (a : α) (i : ℕ) :
    (as.insertIdx k a)[shift k i]? = as[i]? := by
  unfold shift
  split
  · exact List.getElem?_insertIdx_of_gt (by omega)
  · exact List.getElem?_insertIdx_of_lt (by omega)

/-- Every place but the new one was there. -/
theorem eq_or_exists_shift (k i : ℕ) : i = k ∨ ∃ j, shift k j = i := by
  rcases Nat.lt_trichotomy i k with hlt | heq | hlt
  · exact Or.inr ⟨i, if_neg (by omega)⟩
  · exact Or.inl heq
  · refine Or.inr ⟨i - 1, ?_⟩
    rw [shift, if_pos (by omega)]
    omega

/-- A place in a chain, before its policy. -/
def Within (A : Ruleset) (hook : Hook) (i : ℕ) : Prop := A.entry hook ≤ i ∧ i < A.last hook

theorem Within.insertAt (h : A.Within hook i) (k : ℕ) (bytes : Bytes) :
    (A.insertAt k bytes).Within hook (shift k i) := by
  obtain ⟨hentry, hlast⟩ := h
  simp only [Within, Ruleset.insertAt, shift]
  constructor
  · split <;> split <;> omega
  · split <;> split <;> omega

/-- The new rule is the first of the chain that it is for. -/
theorem within_insertAt_self (hle : A.entry hook ≤ A.last hook) (bytes : Bytes) :
    (A.insertAt (A.entry hook) bytes).Within hook (A.entry hook) := by
  simp only [Within, Ruleset.insertAt, shift]
  rw [if_neg (Nat.lt_irrefl _), if_pos hle]
  omega

theorem Within.delete {marks : List Bool} (h : A.Within hook i) (hi : marks[i]? ≠ some true) :
    (A.delete marks).Within hook (rank marks i) :=
  ⟨rank_mono marks h.1, rank_lt_rank h.2 hi⟩

theorem exists_getElem?_insertAt (k : ℕ) (bytes : Bytes) {r : Rule} (hr : A.rules[i]? = some r) :
    ∃ s, (A.insertAt k bytes).rules[shift k i]? = some s ∧ s.bytes = r.bytes := by
  refine ⟨⟨r.bytes, r.jump.map (shift k)⟩, ?_, rfl⟩
  rw [Ruleset.insertAt, getElem?_insertIdx_shift, List.getElem?_map, hr, Option.map_some]

theorem getElem?_insertAt_self (hk : k ≤ A.rules.length) (bytes : Bytes) :
    (A.insertAt k bytes).rules[k]? = some ⟨bytes, none⟩ := by
  rw [Ruleset.insertAt, List.getElem?_insertIdx_self, List.length_map, if_pos hk]

theorem exists_getElem?_delete {marks : List Bool} (hi : marks[i]? ≠ some true) {r : Rule}
    (hr : A.rules[i]? = some r) :
    ∃ s, (A.delete marks).rules[rank marks i]? = some s ∧ s.bytes = r.bytes := by
  refine ⟨⟨r.bytes, r.jump.map (rank marks)⟩, ?_, rfl⟩
  rw [Ruleset.delete, List.getElem?_map, getElem?_kept hi, hr, Option.map_some]

theorem delete_of_not_mem {marks : List Bool} (h : true ∉ marks) : A.delete marks = A := by
  have hrank : rank marks = id := funext (rank_of_not_mem h)
  simp only [Ruleset.delete, kept_of_not_mem h, hrank, Option.map_id, id_eq, List.map_id']

end Ruleset

/-! ## Rules of ours among others -/

/-- The ruleset is the first one with rules for the slots in it, which are marked. -/
structure Padded (A : Ruleset) (slots : List Slot) (B : Ruleset) (marks : List Bool) : Prop where
  length : marks.length = B.rules.length
  delete : B.delete marks = A
  last : ∀ h, B.valid h = true → marks[B.last h]? ≠ some true
  marked : ∀ i : ℕ, marks[i]? = some true → ∃ slot ∈ slots, B.Within slot.hook i ∧
    ∃ r, B.rules[i]? = some r ∧ r.bytes = slot.kind.rule

theorem padded_self (A : Ruleset) : Padded A [] A (List.replicate A.rules.length false) where
  length := List.length_replicate
  delete := Ruleset.delete_of_not_mem (by simp)
  last _ _ hmark := by simpa using List.mem_of_getElem? hmark
  marked _ hmark := by simpa using List.mem_of_getElem? hmark

namespace Padded

variable {A B : Ruleset} {slots : List Slot} {slot : Slot} {marks : List Bool} {i : ℕ}

theorem mono {slots' : List Slot} (h : Padded A slots B marks) (hslots : slots ⊆ slots') :
    Padded A slots' B marks where
  length := h.length
  delete := h.delete
  last := h.last
  marked i hi := by
    obtain ⟨slot, hslot, hrule⟩ := h.marked i hi
    exact ⟨slot, hslots hslot, hrule⟩

theorem valid_eq (h : Padded A slots B marks) : B.valid = A.valid := by
  rw [← h.delete]
  rfl

/-- Without rules for slots the ruleset is the first one. -/
theorem eq_of_nil (h : Padded A [] B marks) : B = A := by
  rw [← h.delete, Ruleset.delete_of_not_mem]
  intro hmem
  obtain ⟨i, hi⟩ := List.mem_iff_getElem?.1 hmem
  obtain ⟨slot, hslot, -⟩ := h.marked i hi
  exact absurd hslot List.not_mem_nil

/-- **An insertion** adds a mark. -/
theorem insertAt (h : Padded A slots B marks) (hB : B.Valid) (hvalid : B.valid slot.hook = true) :
    Padded A (slot :: slots) (B.insertAt (B.entry slot.hook) slot.kind.rule)
      (marks.insertIdx (B.entry slot.hook) true) := by
  have hle := hB.entry_le slot.hook hvalid
  have hk : B.entry slot.hook ≤ B.rules.length :=
    hle.trans (Nat.le_of_lt (hB.last_lt slot.hook hvalid))
  have hmarks : B.entry slot.hook ≤ marks.length := hk.trans h.length.ge
  refine ⟨?_, ?_, fun hook' hvalid' => ?_, fun i hi => ?_⟩
  · rw [List.length_insertIdx_of_le_length hmarks, Ruleset.length_insertAt hk, h.length]
  · rw [Ruleset.delete_insertAt hk h.length, h.delete]
  · show (marks.insertIdx _ true)[Ruleset.shift _ (B.last hook')]? ≠ some true
    rw [Ruleset.getElem?_insertIdx_shift]
    exact h.last hook' hvalid'
  · rcases Ruleset.eq_or_exists_shift (B.entry slot.hook) i with rfl | ⟨j, rfl⟩
    · exact ⟨slot, List.mem_cons_self, Ruleset.within_insertAt_self hle _, _,
        Ruleset.getElem?_insertAt_self hk _, rfl⟩
    · rw [Ruleset.getElem?_insertIdx_shift] at hi
      obtain ⟨slot', hslot', hwithin, r, hr, hbytes⟩ := h.marked j hi
      obtain ⟨s, hs, hsame⟩ :=
        Ruleset.exists_getElem?_insertAt (B.entry slot.hook) slot.kind.rule hr
      exact ⟨slot', List.mem_cons_of_mem _ hslot', hwithin.insertAt _ _, s, hs,
        hsame.trans hbytes⟩

/-- A rule without a mark is one of the first ruleset. -/
theorem exists_mem_of_not_marked (h : Padded A slots B marks) {r : Rule}
    (hr : B.rules[i]? = some r) (hi : marks[i]? ≠ some true) :
    ∃ s ∈ A.rules, s.bytes = r.bytes := by
  obtain ⟨s, hs, hsame⟩ := Ruleset.exists_getElem?_delete hi hr
  rw [h.delete] at hs
  exact ⟨s, List.mem_of_getElem? hs, hsame⟩

/-- A marked rule holds no policy. -/
theorem not_isLast_of_marked (h : Padded A slots B marks) (hi : marks[i]? = some true) :
    B.isLast i = false := by
  rw [Ruleset.isLast, List.any_eq_false]
  intro hook _ hlast
  rw [Bool.and_eq_true, beq_iff_eq] at hlast
  exact h.last hook hlast.1 (hlast.2 ▸ hi)

section Removal

variable (h : Padded A (slot :: slots) B marks) (hvalid : B.valid slot.hook = true)
  (hours : isOurs slot.kind.fingerprint slot.kind.rule = true)
  (hclean : ∀ r ∈ A.rules, isOurs slot.kind.fingerprint r.bytes = false)

include h hclean in
/-- Only marked rules are removed. -/
theorem marked_of_ours (hi : (B.ours slot.hook slot.kind.fingerprint)[i]? = some true) :
    marks[i]? = some true := by
  obtain ⟨r, hr, -, -, -, hfound, -⟩ := Ruleset.ours_eq_true.1 hi
  by_contra hmark
  obtain ⟨s, hs, hbytes⟩ := h.exists_mem_of_not_marked hr hmark
  rw [← hbytes, hclean s hs] at hfound
  exact Bool.false_ne_true hfound

include h hvalid hours in
/-- A marked rule that stays is for another slot. -/
theorem exists_of_not_ours (hi : marks[i]? = some true)
    (hkept : (B.ours slot.hook slot.kind.fingerprint)[i]? ≠ some true) :
    ∃ slot' ∈ slots, B.Within slot'.hook i ∧ ∃ r, B.rules[i]? = some r ∧
      r.bytes = slot'.kind.rule := by
  obtain ⟨slot', hslot', hwithin, r, hr, hbytes⟩ := h.marked i hi
  rcases List.mem_cons.1 hslot' with rfl | hslot'
  · refine absurd (Ruleset.ours_eq_true.2 ⟨r, hr, hvalid, hwithin.1, hwithin.2, ?_, ?_⟩) hkept
    · rw [hbytes]
      exact hours
    · exact h.not_isLast_of_marked hi
  · exact ⟨slot', hslot', hwithin, r, hr, hbytes⟩

include h hvalid hours hclean in
/-- **A removal** takes away the marks of one slot. -/
theorem delete_ours :
    Padded A slots (B.delete (B.ours slot.hook slot.kind.fingerprint))
      (kept (B.ours slot.hook slot.kind.fingerprint) marks) := by
  have hlength : (B.ours slot.hook slot.kind.fingerprint).length = B.rules.length :=
    Ruleset.length_ours
  have honly (i : ℕ) := h.marked_of_ours hclean (i := i)
  have hother (i : ℕ) := h.exists_of_not_ours hvalid hours (i := i)
  generalize B.ours slot.hook slot.kind.fingerprint = ds at hlength honly hother
  have hsub : List.Forall₂ (fun d m => d = true → m = true) ds marks := by
    refine List.forall₂_iff_get.2 ⟨hlength.trans h.length.symm, fun i hi hm hd => ?_⟩
    have hmark := honly i (List.getElem?_eq_some_iff.2 ⟨hi, hd⟩)
    exact (List.getElem?_eq_some_iff.1 hmark).2
  refine ⟨?_, ?_, fun hook hvalid' => ?_, fun i hi => ?_⟩
  · have hmarks := length_kept ds marks
    have hrules := length_kept ds B.rules
    rw [h.length] at hmarks
    rw [Ruleset.delete, List.length_map]
    omega
  · rw [Ruleset.delete_delete hsub, h.delete]
  · show (kept ds marks)[rank ds (B.last hook)]? ≠ some true
    have hlast := h.last hook hvalid'
    rw [getElem?_kept fun hd => hlast (honly _ hd)]
    exact hlast
  · obtain ⟨j, -, hkept, rfl⟩ := exists_of_lt_length_kept (List.getElem?_eq_some_iff.1 hi).1
    rw [getElem?_kept hkept] at hi
    obtain ⟨slot', hslot', hwithin, r, hr, hbytes⟩ := hother j hi hkept
    obtain ⟨s, hs, hsame⟩ := Ruleset.exists_getElem?_delete hkept hr
    exact ⟨slot', hslot', hwithin.delete hkept, s, hs, hsame.trans hbytes⟩

end Removal

end Padded

/-! ## Tables -/

/-- What a table becomes when a rule is looked for and, if it is not there, inserted. -/
def ensured (slot : Slot) (T : Table) : Table :=
  if ruleExistsInHook T slot.hook slot.kind.wanted then T
  else insertion slot.hook slot.kind.rule T

def ensuredAll (slots : List Slot) (T : Table) : Table :=
  slots.foldl (fun T slot => ensured slot T) T

/-- What a table becomes when what looks like a rule is removed. -/
def removed (slot : Slot) (T : Table) : Table :=
  if T.validHooks slot.hook then (removal slot.hook slot.kind.fingerprint T).getD T else T

def removedAll (slots : List Slot) (T : Table) : Table :=
  slots.foldl (fun T slot => removed slot T) T

/-- Every rule is found in its chain. -/
def AllPresent (slots : List Slot) (T : Table) : Prop :=
  ∀ slot ∈ slots, ruleExistsInHook T slot.hook slot.kind.wanted = true

/-- The table is that of a ruleset with rules for the slots in it. -/
def Installed (A : Ruleset) (slots : List Slot) (T : Table) : Prop :=
  ∃ B marks, Represents T B ∧ Padded A slots B marks

/-- Looking for rules that are there changes nothing. -/
theorem ensuredAll_of_allPresent {slots : List Slot} {T : Table} (h : AllPresent slots T) :
    ensuredAll slots T = T := by
  induction slots with
  | nil => rfl
  | cons slot slots ih =>
    obtain ⟨hslot, hslots⟩ := List.forall_mem_cons.1 h
    rw [ensuredAll, List.foldl_cons, ensured, if_pos hslot]
    exact ih hslots

section Insertion

variable {T : Table} {B : Ruleset} (h : Represents T B) {slot : Slot}
  (hvalid : B.valid slot.hook = true) (hsize : T.size + slot.kind.rule.length < 2 ^ 31)
include h hvalid hsize

theorem represents_insertion_rule : Represents (insertion slot.hook slot.kind.rule T)
    (B.insertAt (B.entry slot.hook) slot.kind.rule) :=
  represents_insertion h hvalid slot.kind.isEntry_rule slot.kind.isJump_rule hsize

/-- The new rule is found. -/
theorem ruleExistsInHook_insertion_self : ruleExistsInHook (insertion slot.hook slot.kind.rule T)
    slot.hook slot.kind.wanted = true := by
  have hle := h.valid.entry_le slot.hook hvalid
  have hlt := h.valid.last_lt slot.hook hvalid
  obtain ⟨hentry, hlast⟩ := Ruleset.within_insertAt_self hle slot.kind.rule
  refine (ruleExistsInHook_iff (represents_insertion_rule h hvalid hsize) _ _).2
    ⟨⟨slot.kind.rule, none⟩, ⟨hvalid, _, hentry, hlast, ?_⟩, slot.kind.isWanted_rule⟩
  exact Ruleset.getElem?_insertAt_self (by omega) _

/-- What was found is found. -/
theorem ruleExistsInHook_insertion {hook : Hook} {w : Wanted}
    (hfound : ruleExistsInHook T hook w = true) :
    ruleExistsInHook (insertion slot.hook slot.kind.rule T) hook w = true := by
  obtain ⟨r, ⟨hvalid', i, hentry, hlast, hr⟩, hwanted⟩ := (ruleExistsInHook_iff h w hook).1 hfound
  have hwithin : B.Within hook i := ⟨hentry, hlast⟩
  obtain ⟨hentry, hlast⟩ := hwithin.insertAt (B.entry slot.hook) slot.kind.rule
  obtain ⟨s, hs, hsame⟩ :=
    Ruleset.exists_getElem?_insertAt (B.entry slot.hook) slot.kind.rule hr
  rw [← hsame] at hwanted
  exact (ruleExistsInHook_iff (represents_insertion_rule h hvalid hsize) _ _).2
    ⟨s, ⟨hvalid', _, hentry, hlast, hs⟩, hwanted⟩

end Insertion

section Ensured

variable {A : Ruleset} {T : Table}

/-- **One rule** is there afterwards. -/
theorem installed_ensured {slots : List Slot} {slot : Slot} (hT : Installed A slots T)
    (hpresent : AllPresent slots T) (hvalid : A.valid slot.hook = true)
    (hsize : T.size + 2 ^ 16 ≤ 2 ^ 31) :
    Installed A (slot :: slots) (ensured slot T) ∧ AllPresent (slot :: slots) (ensured slot T) ∧
      (ensured slot T).size ≤ T.size + 2 ^ 16 := by
  obtain ⟨B, marks, hB, hpadded⟩ := hT
  have hlength := slot.kind.isEntry_rule.length_lt
  rw [← hpadded.valid_eq] at hvalid
  unfold ensured
  split
  · next hfound =>
    refine ⟨⟨B, marks, hB, hpadded.mono (List.subset_cons_self slot slots)⟩, ?_, by omega⟩
    exact List.forall_mem_cons.2 ⟨hfound, hpresent⟩
  · have hsize : T.size + slot.kind.rule.length < 2 ^ 31 := by omega
    refine ⟨⟨_, _, represents_insertion_rule hB hvalid hsize,
      hpadded.insertAt hB.valid hvalid⟩, List.forall_mem_cons.2 ⟨?_, fun slot' hslot' => ?_⟩, ?_⟩
    · exact ruleExistsInHook_insertion_self hB hvalid hsize
    · exact ruleExistsInHook_insertion hB hvalid hsize (hpresent slot' hslot')
    · exact Nat.add_le_add_left (Nat.le_of_lt hlength) _

/-- **All rules** are there afterwards. -/
theorem installed_ensuredAll {before slots : List Slot} (hT : Installed A before T)
    (hpresent : AllPresent before T) (hvalid : ∀ slot ∈ slots, A.valid slot.hook = true)
    (hsize : T.size + slots.length * 2 ^ 16 ≤ 2 ^ 31) :
    Installed A (slots.reverse ++ before) (ensuredAll slots T) ∧
      AllPresent (slots.reverse ++ before) (ensuredAll slots T) := by
  induction slots generalizing before T with
  | nil => exact ⟨hT, hpresent⟩
  | cons slot slots ih =>
    obtain ⟨hslot, hslots⟩ := List.forall_mem_cons.1 hvalid
    rw [List.length_cons] at hsize
    obtain ⟨hnext, hfound, hgrown⟩ := installed_ensured hT hpresent hslot (by omega)
    have hrest := ih hnext hfound hslots (by omega)
    rw [List.reverse_cons, List.append_assoc]
    exact hrest

end Ensured

section Removed

variable {A : Ruleset} {T : Table}

/-- **One rule** is not there afterwards. -/
theorem installed_removed {slots : List Slot} {slot : Slot} (hT : Installed A (slot :: slots) T)
    (hvalid : A.valid slot.hook = true)
    (hours : isOurs slot.kind.fingerprint slot.kind.rule = true)
    (hclean : ∀ r ∈ A.rules, isOurs slot.kind.fingerprint r.bytes = false) :
    Installed A slots (removed slot T) := by
  obtain ⟨B, marks, hB, hpadded⟩ := hT
  rw [← hpadded.valid_eq] at hvalid
  have hdeleted := hpadded.delete_ours hvalid hours hclean
  rw [removed, hB.validHooks, if_pos hvalid]
  cases hT' : removal slot.hook slot.kind.fingerprint T with
  | none =>
    rw [Ruleset.delete_of_not_mem (not_mem_ours_of_removal hB hT')] at hdeleted
    exact ⟨B, _, hB, hdeleted⟩
  | some T' => exact ⟨_, _, represents_removal hB hT', hdeleted⟩

/-- **The old rules** are there afterwards, and no others. -/
theorem represents_removedAll {slots : List Slot} (hT : Installed A slots T)
    (hvalid : ∀ slot ∈ slots, A.valid slot.hook = true)
    (hours : ∀ slot ∈ slots, isOurs slot.kind.fingerprint slot.kind.rule = true)
    (hclean : ∀ slot ∈ slots, ∀ r ∈ A.rules, isOurs slot.kind.fingerprint r.bytes = false) :
    Represents (removedAll slots T) A := by
  induction slots generalizing T with
  | nil =>
    obtain ⟨B, marks, hB, hpadded⟩ := hT
    exact hpadded.eq_of_nil ▸ hB
  | cons slot slots ih =>
    obtain ⟨hslot, hslots⟩ := List.forall_mem_cons.1 hvalid
    obtain ⟨hslot', hslots'⟩ := List.forall_mem_cons.1 hours
    obtain ⟨hslot'', hslots''⟩ := List.forall_mem_cons.1 hclean
    exact ih (installed_removed hT hslot hslot' hslot'') hslots hslots' hslots''

end Removed

/-! ## There and back -/

/-- The same entries, and every chain at the same place; nothing is said of the places of hooks that
the table does not have. -/
structure SameTable (T T' : Table) : Prop where
  validHooks : T'.validHooks = T.validHooks
  numEntries : T'.numEntries = T.numEntries
  size : T'.size = T.size
  hookEntry : ∀ h, T.validHooks h = true → T'.hookEntry h = T.hookEntry h
  underflow : ∀ h, T.validHooks h = true → T'.underflow h = T.underflow h
  blob : T'.blob = T.blob

/-- A ruleset has one table. -/
theorem Represents.sameTable {T T' : Table} {A : Ruleset} (h : Represents T A)
    (h' : Represents T' A) : SameTable T T' where
  validHooks := h'.validHooks.trans h.validHooks.symm
  numEntries := h'.numEntries.trans h.numEntries.symm
  size := h'.size.trans h.size.symm
  hookEntry hook hvalid := by
    rw [h.validHooks] at hvalid
    rw [h'.hookEntry hook hvalid, h.hookEntry hook hvalid]
  underflow hook hvalid := by
    rw [h.validHooks] at hvalid
    rw [h'.underflow hook hvalid, h.underflow hook hvalid]
  blob := h'.blob.trans h.blob.symm

/-- No entry is taken for the rule, neither when it is looked for nor when it is removed. -/
def NoneLike (kind : Kind) (T : Table) : Prop :=
  ∀ es, Tiles T es → ∀ e ∈ es, isWanted kind.wanted e = false ∧ isOurs kind.fingerprint e = false

theorem noneLike_iff {T : Table} {A : Ruleset} (h : Represents T A) (kind : Kind) :
    NoneLike kind T ↔ ∀ r ∈ A.rules,
      isWanted kind.wanted r.bytes = false ∧ isOurs kind.fingerprint r.bytes = false := by
  constructor
  · intro hnone r hr
    have hentry := hnone _ h.tiles _ (List.mem_map_of_mem hr)
    rwa [h.valid.isWanted_encode hr, h.valid.isOurs_encode hr] at hentry
  · intro hnone es hes e he
    rw [hes.unique h.tiles] at he
    obtain ⟨r, hr, rfl⟩ := List.mem_map.1 he
    rw [h.valid.isWanted_encode hr, h.valid.isOurs_encode hr]
    exact hnone r hr

/-- A table of the kernel with the chains of the rules, and nothing in it that looks like them. -/
structure Ready (slots : List Slot) (T : Table) : Prop where
  wellFormed : WellFormed T
  size_le : T.size ≤ maxTableSize
  validHooks : ∀ slot ∈ slots, T.validHooks slot.hook = true
  noneLike : ∀ slot ∈ slots, NoneLike slot.kind T

/-- **There and back**, in any order. -/
theorem sameTable_removedAll {T : Table} {slots slots' : List Slot} (h : Ready slots T)
    (hours : ∀ slot ∈ slots, isOurs slot.kind.fingerprint slot.kind.rule = true)
    (hlength : slots.length ≤ 3) (hslots : List.Perm slots' slots) :
    AllPresent slots (ensuredAll slots' T) ∧
      SameTable T (removedAll slots (ensuredAll slots' T)) := by
  obtain ⟨A, hA⟩ := wellFormed_iff.1 h.wellFormed
  have hvalid : ∀ slot ∈ slots, A.valid slot.hook = true := fun slot hslot =>
    hA.validHooks ▸ h.validHooks slot hslot
  have hsize : T.size + slots'.length * 2 ^ 16 ≤ 2 ^ 31 := by
    have hle := h.size_le
    rw [maxTableSize] at hle
    rw [hslots.length_eq]
    omega
  have hold : Installed A [] T := ⟨A, _, hA, padded_self A⟩
  have hnone : AllPresent [] T := List.forall_mem_nil _
  obtain ⟨hinstalled, hpresent⟩ := installed_ensuredAll hold hnone
    (fun slot hslot => hvalid slot (hslots.subset hslot)) hsize
  rw [List.append_nil] at hinstalled hpresent
  have hmem {slot : Slot} : slot ∈ slots'.reverse ↔ slot ∈ slots := by
    rw [List.mem_reverse, hslots.mem_iff]
  refine ⟨fun slot hslot => hpresent slot (hmem.2 hslot), hA.sameTable ?_⟩
  refine represents_removedAll ?_ hvalid hours fun slot hslot r hr =>
    ((noneLike_iff hA slot.kind).1 (h.noneLike slot hslot) r hr).2
  obtain ⟨B, marks, hB, hpadded⟩ := hinstalled
  exact ⟨B, marks, hB, hpadded.mono fun slot hslot => hmem.1 hslot⟩

/-! ## Whole runs -/

/-- The tables after a routine, with nobody in between and a kernel that accepts every table. -/
def after {α : Type} (m : Routine α) (tables : TableName → Table) : TableName → Table :=
  (m.runIn accepting tables).1

theorem runIn_insertIfaceAccept (slot : Slot) (tables : TableName → Table) :
    (insertIfaceAccept slot).runIn accepting tables =
      (Function.update tables slot.name (ensured slot (tables slot.name)), .ok ()) := by
  simp only [insertIfaceAccept, getTable, Prog.perform_bind, Prog.runIn, accepting, ensured]
  split
  · rw [Function.update_eq_self]
    rfl
  · rw [Prog.runIn_bind, insertRuleAtHook, runIn_submit]
    rfl

theorem runIn_removeSlot (slot : Slot) (tables : TableName → Table) :
    (removeSlot slot).runIn accepting tables =
      (Function.update tables slot.name (removed slot (tables slot.name)), .ok ()) := by
  simp only [removeSlot, getTable, Prog.perform_bind, Prog.runIn, accepting, removed,
    removeMatchingRules]
  split
  · rw [runIn_submit]
    cases removal slot.hook slot.kind.fingerprint (tables slot.name) with
    | none => rw [Option.getD_none, Function.update_eq_self, Option.elim_none]
    | some T => rfl
  · rw [Function.update_eq_self]
    rfl

theorem after_bind {α β : Type} (m : Routine α) (f : α → Routine β) (tables : TableName → Table) :
    after (m >>= f) tables = after (f (m.runIn accepting tables).2) (after m tables) :=
  congrArg Prod.fst (Prog.runIn_bind _ m f tables)

theorem after_pure {α : Type} (a : α) (tables : TableName → Table) :
    after (pure a) tables = tables := rfl

theorem after_ensureForwardAccept (iface : IfName) (tables : TableName → Table) :
    after (ensureForwardAccept iface) tables = Function.update tables .filter
      (ensuredAll [forwardIn iface, forwardOut iface] (tables .filter)) := by
  simp only [after, ensureForwardAccept, shouldUseRawApi, openRawSocket, Prog.perform_bind,
    Prog.runIn, accepting, Bool.not_true, Bool.false_eq_true, if_false, Prog.runIn_bind,
    runIn_insertIfaceAccept]
  show Function.update (Function.update tables .filter _) .filter
    (ensured (forwardOut iface) (Function.update tables .filter _ .filter)) = _
  rw [Function.update_self, Function.update_idem]
  rfl

theorem after_ensureInputAccept (iface : IfName) (tables : TableName → Table) :
    after (ensureInputAccept iface) tables = Function.update tables .filter
      (ensuredAll [inputIn iface] (tables .filter)) := by
  simp only [after, ensureInputAccept, shouldUseRawApi, openRawSocket, Prog.perform_bind,
    Prog.runIn, accepting, Bool.not_true, Bool.false_eq_true, if_false, Prog.runIn_bind,
    runIn_insertIfaceAccept]
  rfl

theorem after_ensureMasquerade (subnet : Subnet) (tables : TableName → Table) :
    after (ensureMasquerade subnet) tables = Function.update tables .nat
      (ensuredAll [postRouting subnet] (tables .nat)) := by
  simp only [after, ensureMasquerade, shouldUseRawApi, openRawSocket, getTable, Prog.perform_bind,
    Prog.runIn, accepting, Bool.not_true, Bool.false_eq_true, if_false, ensuredAll,
    List.foldl_cons, List.foldl_nil, ensured]
  split
  · rw [Function.update_eq_self]
    rfl
  · rw [Prog.runIn_bind, insertRuleAtHook, runIn_submit]
    rfl

theorem after_removeSlot (slot : Slot) (tables : TableName → Table) :
    after (removeSlot slot) tables =
      Function.update tables slot.name (removed slot (tables slot.name)) :=
  congrArg Prod.fst (runIn_removeSlot slot tables)

theorem after_removeIfaceRules (iface : IfName) (tables : TableName → Table) :
    after (removeIfaceRules iface) tables = Function.update tables .filter
      (removedAll (ifaceSlots iface) (tables .filter)) := by
  show after ((ifaceSlots iface).forM fun slot => do let _ ← removeSlot slot; pure ()) tables = _
  simp only [ifaceSlots, List.forM_eq_forM, List.forM_cons, List.forM_nil, after_bind, after_pure,
    after_removeSlot, forwardIn, forwardOut, inputIn, Function.update_self, Function.update_idem]
  rfl

/-- The calls one after the other. -/
def callAll (calls : List (Routine (Except Errno Unit))) : Routine Unit :=
  calls.forM fun call => do
    let _ ← call
    pure ()

/-- The two calls for an interface, in whichever order. -/
theorem exists_after_callAll {iface : IfName} {calls : List (Routine (Except Errno Unit))}
    (hcalls : List.Perm calls [ensureForwardAccept iface, ensureInputAccept iface]) :
    ∃ slots, List.Perm slots (ifaceSlots iface) ∧ ∀ tables, after (callAll calls) tables =
      Function.update tables .filter (ensuredAll slots (tables .filter)) := by
  rcases List.perm_pair.1 hcalls with rfl | rfl
  · refine ⟨ifaceSlots iface, List.Perm.refl _, fun tables => ?_⟩
    simp only [callAll, List.forM_eq_forM, List.forM_cons, List.forM_nil, after_bind, after_pure,
      after_ensureForwardAccept, after_ensureInputAccept, Function.update_self,
      Function.update_idem]
    rfl
  · refine ⟨[inputIn iface, forwardIn iface, forwardOut iface], ?_, fun tables => ?_⟩
    · exact @List.perm_append_comm _ [inputIn iface] [forwardIn iface, forwardOut iface]
    · simp only [callAll, List.forM_eq_forM, List.forM_cons, List.forM_nil, after_bind, after_pure,
        after_ensureForwardAccept, after_ensureInputAccept, Function.update_self,
        Function.update_idem]
      rfl

/-- The rules are there after the installation, a second one changes nothing, and after the removal
the table is as before. -/
structure ThereAndBack {α β : Type} (tables : TableName → Table) (name : TableName)
    (slots : List Slot) (install : Routine α) (remove : Routine β) : Prop where
  present : AllPresent slots (after install tables name)
  again : after install (after install tables) = after install tables
  back : SameTable (tables name) (after remove (after install tables) name)

theorem thereAndBack {α β : Type} {tables : TableName → Table} {name : TableName}
    {slots slots' : List Slot} {install : Routine α} {remove : Routine β}
    (h : Ready slots (tables name))
    (hours : ∀ slot ∈ slots, isOurs slot.kind.fingerprint slot.kind.rule = true)
    (hlength : slots.length ≤ 3) (hslots : List.Perm slots' slots)
    (hinstall : ∀ tables, after install tables =
      Function.update tables name (ensuredAll slots' (tables name)))
    (hremove : ∀ tables, after remove tables =
      Function.update tables name (removedAll slots (tables name))) :
    ThereAndBack tables name slots install remove := by
  obtain ⟨hpresent, hback⟩ := sameTable_removedAll h hours hlength hslots
  have hpresent' : AllPresent slots' (ensuredAll slots' (tables name)) := fun slot hslot =>
    hpresent slot (hslots.subset hslot)
  have hagain := ensuredAll_of_allPresent hpresent'
  refine ⟨?_, ?_, ?_⟩
  · rw [hinstall, Function.update_self]
    exact hpresent
  · rw [hinstall (after install tables), hinstall tables, Function.update_self, hagain,
      Function.update_idem]
  · rw [hinstall, hremove, Function.update_self, Function.update_self]
    exact hback

/-- **Installing and removing the host rules** undo each other: the ACCEPT rules of an interface,
and the MASQUERADE rule of a subnet with an address that is not zero. -/
theorem install_remove_inverse (tables : TableName → Table) :
    (∀ (iface : IfName) calls,
      List.Perm calls [ensureForwardAccept iface, ensureInputAccept iface] →
      Ready (ifaceSlots iface) (tables .filter) →
        ThereAndBack tables .filter (ifaceSlots iface) (callAll calls) (removeIfaceRules iface)) ∧
    ∀ subnet : Subnet, Binary.toNat subnet.addr ≠ 0 → Ready [postRouting subnet] (tables .nat) →
      ThereAndBack tables .nat [postRouting subnet] (ensureMasquerade subnet)
        (removeSlot (postRouting subnet)) := by
  constructor
  · intro iface calls hcalls hready
    obtain ⟨slots, hslots, hinstall⟩ := exists_after_callAll hcalls
    refine thereAndBack hready ?_ (Nat.le_refl 3) hslots hinstall (after_removeIfaceRules iface)
    simp only [ifaceSlots, List.forall_mem_cons, List.not_mem_nil, false_imp_iff, implies_true,
      and_true]
    exact ⟨isOurs_acceptRule iface false, isOurs_acceptRule iface true,
      isOurs_acceptRule iface false⟩
  · intro subnet haddr hready
    refine thereAndBack hready ?_ (Nat.le_add_left 1 2) (List.Perm.refl _)
      (after_ensureMasquerade subnet) (after_removeSlot (postRouting subnet))
    exact List.forall_mem_singleton.2 (isOurs_masqueradeRule subnet haddr)

/-- Four empty chains, which accept. -/
def emptyNat : Ruleset where
  rules := List.replicate 4 ⟨policyEntry acceptVerdict, none⟩ ++ [⟨errorEntry, none⟩]
  valid h := h ≠ .forward
  entry h := (Hook.all.erase .forward).idxOf h
  last h := (Hook.all.erase .forward).idxOf h

theorem emptyNat_valid : emptyNat.Valid := by
  decide +kernel

/-- A host with nothing of ours: FORWARD jumps to INPUT, and no other chain has a rule. -/
def emptyHost : TableName → Table
  | .nat => emptyNat.table
  | _ => emptyInput.table

theorem ready_table {A : Ruleset} {slots : List Slot} (hA : A.Valid)
    (hsize : A.sizes.sum ≤ maxTableSize) (hvalid : ∀ slot ∈ slots, A.valid slot.hook = true)
    (hnone : ∀ slot ∈ slots, ∀ r ∈ A.rules,
      isWanted slot.kind.wanted r.bytes = false ∧ isOurs slot.kind.fingerprint r.bytes = false) :
    Ready slots A.table where
  wellFormed := wellFormed_iff.2 ⟨A, hA.represents_table⟩
  size_le := hsize
  validHooks := hvalid
  noneLike slot hslot := (noneLike_iff hA.represents_table slot.kind).2 (hnone slot hslot)

theorem install_remove_emptyHost :
    ThereAndBack emptyHost .filter (ifaceSlots natBridge)
        (callAll [ensureForwardAccept natBridge, ensureInputAccept natBridge])
        (removeIfaceRules natBridge) ∧
      ThereAndBack emptyHost .nat [postRouting defaultSubnet] (ensureMasquerade defaultSubnet)
        (removeSlot (postRouting defaultSubnet)) := by
  obtain ⟨hiface, hsubnet⟩ := install_remove_inverse emptyHost
  refine ⟨hiface natBridge _ (List.Perm.refl _) (ready_table emptyInput_valid ?_ ?_ ?_),
    hsubnet defaultSubnet (by decide) (ready_table emptyNat_valid ?_ ?_ ?_)⟩ <;> decide +kernel

/-- `"0.0.0.0/0"` -/
def anySubnet : Subnet := ⟨[0, 0, 0, 0], [0, 0, 0, 0], rfl, rfl⟩

/-- A zero address asks the removal for nothing, so the rule stays. -/
theorem anySubnet_rule_stays : ¬∀ tables : TableName → Table,
    (∀ (iface : IfName) calls,
      List.Perm calls [ensureForwardAccept iface, ensureInputAccept iface] →
      Ready (ifaceSlots iface) (tables .filter) →
        ThereAndBack tables .filter (ifaceSlots iface) (callAll calls) (removeIfaceRules iface)) ∧
    ∀ subnet : Subnet, Ready [postRouting subnet] (tables .nat) →
      ThereAndBack tables .nat [postRouting subnet] (ensureMasquerade subnet)
        (removeSlot (postRouting subnet)) := by
  intro hclaim
  have hready : Ready [postRouting anySubnet] (emptyHost .nat) := by
    refine ready_table emptyNat_valid ?_ ?_ ?_ <;> decide +kernel
  have hcount := ((hclaim emptyHost).2 anySubnet hready).back.numEntries
  revert hcount
  decide +kernel

end Droidspaces.Netfilter
