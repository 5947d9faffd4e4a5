import Droidspaces.Netfilter.Fixups
import Droidspaces.Netfilter.Slots

/-!
# Looking for a rule

`rule_exists_in_hook` walks a chain and compares the target, one interface name and the source.
What else a rule asks of a packet it does not look at, so a narrower rule is taken for the one that
is looked for: `presence_inForce_iff` says when what it says is true.
-/

namespace Droidspaces.Netfilter

open Binary

/-! ## The walk -/

/-- The loop of `rule_exists_in_hook`, over at most the given number of entries. -/
def existsFrom (T : Table) (w : Wanted) (stop : ℕ) : ℕ → ℕ → Bool
  | 0, _ => false
  | left + 1, off =>
    let e := T.blob.drop off
    if stop < off + entrySize || nextOffset e < entrySize || stop - off < nextOffset e ||
        nextOffset e < targetOffset e + targetHeaderSize then false
    else isWanted w e || existsFrom T w stop left (off + nextOffset e)

/-- `rule_exists_in_hook`; no more entries are walked than there are bytes. -/
def ruleExistsInHook (T : Table) (hook : Hook) (w : Wanted) : Bool :=
  T.validHooks hook && T.hookEntry hook ≤ T.underflow hook && T.underflow hook ≤ T.size &&
    existsFrom T w (T.underflow hook) T.size (T.hookEntry hook)

/-- The rules of a chain before its policy. -/
def Ruleset.InChain (A : Ruleset) (hook : Hook) (r : Rule) : Prop :=
  A.valid hook = true ∧ ∃ i, A.entry hook ≤ i ∧ i < A.last hook ∧ A.rules[i]? = some r

theorem Ruleset.InChain.mem {A : Ruleset} {hook : Hook} {r : Rule} (h : A.InChain hook r) :
    r ∈ A.rules := by
  obtain ⟨-, i, -, -, hr⟩ := h
  exact List.mem_of_getElem? hr

section Walk

variable {T : Table} {A : Ruleset} (h : Represents T A) (w : Wanted)
include h

/-- One entry of the walk. -/
theorem existsFrom_succ {i j : ℕ} (hij : i < j) (left : ℕ) (hi : i < A.rules.length) :
    existsFrom T w (A.offset j) (left + 1) (A.offset i) =
      (isWanted w A.rules[i].bytes || existsFrom T w (A.offset j) left (A.offset (i + 1))) := by
  have hsizes : i < A.sizes.length := by rwa [A.length_sizes]
  obtain ⟨rest, hrest⟩ := h.drop_blob hi
  have hentry := h.valid.isEntry_encode (List.getElem_mem hi)
  have hlong := hentry.le_length
  have hfits := hentry.header_fits
  have hlength := h.valid.length_encode_getElem hi hsizes
  have hnext : A.offset (i + 1) = A.offset i + A.sizes[i] := start_succ hsizes
  have hend : A.offset (i + 1) ≤ A.offset j := start_mono _ hij
  rw [existsFrom, hrest, hentry.nextOffset_append, hentry.targetOffset_append, hlength,
    hentry.isWanted_append, h.valid.isWanted_encode (List.getElem_mem hi), hnext]
  refine if_neg ?_
  simp only [Bool.or_eq_true, decide_eq_true_eq]
  omega

theorem existsFrom_iff {i j left : ℕ} (hij : i ≤ j) (hj : j ≤ A.rules.length)
    (hleft : j - i ≤ left) :
    existsFrom T w (A.offset j) left (A.offset i) = true ↔
      ∃ k r, i ≤ k ∧ k < j ∧ A.rules[k]? = some r ∧ isWanted w r.bytes = true := by
  induction left generalizing i with
  | zero =>
    constructor
    · intro hfound
      cases hfound
    · rintro ⟨k, r, hik, hkj, -, -⟩
      omega
  | succ left ih =>
    rcases Nat.lt_or_eq_of_le hij with hlt | rfl
    · have hi : i < A.rules.length := by omega
      rw [existsFrom_succ h w hlt left hi, Bool.or_eq_true, ih hlt (by omega)]
      constructor
      · rintro (hfound | ⟨k, r, hik, hkj, hr, hfound⟩)
        · exact ⟨i, _, Nat.le_refl i, hlt, List.getElem?_eq_getElem hi, hfound⟩
        · exact ⟨k, r, by omega, hkj, hr, hfound⟩
      · rintro ⟨k, r, hik, hkj, hr, hfound⟩
        rcases Nat.lt_or_eq_of_le hik with hlater | rfl
        · exact Or.inr ⟨k, r, hlater, hkj, hr, hfound⟩
        · rw [List.getElem?_eq_getElem hi, Option.some.injEq] at hr
          rw [hr]
          exact Or.inl hfound
    · have hstop : existsFrom T w (A.offset i) (left + 1) (A.offset i) = false := by
        rw [existsFrom]
        refine if_pos ?_
        simp [entrySize]
      rw [hstop]
      constructor
      · intro hfound
        cases hfound
      · rintro ⟨k, r, hik, hkj, -, -⟩
        omega

/-- **The walk** finds what is in the chain. -/
theorem ruleExistsInHook_iff (hook : Hook) :
    ruleExistsInHook T hook w = true ↔ ∃ r, A.InChain hook r ∧ isWanted w r.bytes = true := by
  rw [ruleExistsInHook, h.validHooks]
  rcases Bool.eq_false_or_eq_true (A.valid hook) with hvalid | hvalid
  · have hle := h.valid.entry_le hook hvalid
    have hlast := h.valid.last_lt hook hvalid
    have hentries : A.rules.length ≤ T.size := by
      have hentries : ∀ e ∈ A.rules.map A.encode, IsEntry e := h.tiles.isEntry
      have hcount := length_le_length_flatten hentries
      rwa [List.length_map, ← Ruleset.blob, h.valid.length_blob, ← h.size] at hcount
    have hbefore : A.offset (A.entry hook) ≤ A.offset (A.last hook) := start_mono _ hle
    have hinside : A.offset (A.last hook) ≤ T.size := by
      rw [h.size]
      exact Ruleset.Valid.offset_le (A := A) _
    rw [h.hookEntry hook hvalid, h.underflow hook hvalid]
    simp only [hvalid, hbefore, hinside, decide_true, Bool.true_and]
    rw [existsFrom_iff h w hle (Nat.le_of_lt hlast) (by omega)]
    constructor
    · rintro ⟨k, r, hik, hkj, hr, hfound⟩
      exact ⟨r, ⟨hvalid, k, hik, hkj, hr⟩, hfound⟩
    · rintro ⟨r, ⟨-, k, hik, hkj, hr⟩, hfound⟩
      exact ⟨k, r, hik, hkj, hr, hfound⟩
  · simp [hvalid, Ruleset.InChain]

end Walk

/-! ## What a positive answer means -/

/-- An entry of a chain, before its policy. -/
def InChain (T : Table) (hook : Hook) (e : Bytes) : Prop :=
  ∃ es, Tiles T es ∧ ∃ i : ℕ, es[i]? = some e ∧
    hookContainsOffset T hook (start (sizesOf es) i) = true

theorem inChain_iff {T : Table} {A : Ruleset} (h : Represents T A) {hook : Hook} {e : Bytes} :
    InChain T hook e ↔ ∃ r, A.InChain hook r ∧ A.encode r = e := by
  constructor
  · rintro ⟨es, hes, i, he, hcontains⟩
    obtain rfl := hes.unique h.tiles
    rw [List.getElem?_map, Option.map_eq_some_iff] at he
    obtain ⟨r, hr, rfl⟩ := he
    rw [h.valid.sizesOf_encode] at hcontains
    obtain ⟨hvalid, hle, hlt⟩ :=
      (h.hookContainsOffset_iff hook (List.getElem?_eq_some_iff.1 hr).1).1 hcontains
    exact ⟨r, ⟨hvalid, i, hle, hlt, hr⟩, rfl⟩
  · rintro ⟨r, ⟨hvalid, i, hle, hlt, hr⟩, rfl⟩
    refine ⟨_, h.tiles, i, ?_, ?_⟩
    · rw [List.getElem?_map, hr]
      rfl
    · rw [h.valid.sizesOf_encode]
      exact (h.hookContainsOffset_iff hook (List.getElem?_eq_some_iff.1 hr).1).2 ⟨hvalid, hle, hlt⟩

/-- What the walk says, of the entries. -/
theorem ruleExistsInHook_iff_inChain {T : Table} (hT : WellFormed T) (hook : Hook) (w : Wanted) :
    ruleExistsInHook T hook w = true ↔ ∃ e, InChain T hook e ∧ isWanted w e = true := by
  obtain ⟨A, hA⟩ := wellFormed_iff.1 hT
  rw [ruleExistsInHook_iff hA]
  constructor
  · rintro ⟨r, hchain, hwanted⟩
    refine ⟨_, (inChain_iff hA).2 ⟨r, hchain, rfl⟩, ?_⟩
    rwa [hA.valid.isWanted_encode hchain.mem]
  · rintro ⟨e, he, hwanted⟩
    obtain ⟨r, hchain, rfl⟩ := (inChain_iff hA).1 he
    rw [hA.valid.isWanted_encode hchain.mem] at hwanted
    exact ⟨r, hchain, hwanted⟩

section Examples

/-- FORWARD drops but for packets from the bridge. -/
def bridgeForward : Ruleset := filterWith [⟨acceptRule natBridge false, none⟩] dropVerdict

theorem bridgeForward_valid : bridgeForward.Valid := by
  decide +kernel

/-- FORWARD drops but for TCP from the bridge. -/
def tcpOnlyForward : Ruleset :=
  filterWith [⟨splice 80 (ofNat 2 6) (acceptRule natBridge false), none⟩] dropVerdict

theorem tcpOnlyForward_valid : tcpOnlyForward.Valid := by
  decide +kernel

/-- A UDP packet from the bridge. -/
def udpFromBridge : Packet where
  src := [172, 28, 0, 2]
  dst := [8, 8, 8, 8]
  iniface := natBridge.padded
  outiface := zeros ifNameSize
  proto := 17
  fragment := false
  length_src := rfl
  length_dst := rfl
  length_iniface := natBridge.length_padded
  length_outiface := length_zeros _

end Examples

end Droidspaces.Netfilter
