import Droidspaces.Binary.Layout
import Droidspaces.Netfilter.Entry

/-!
# Tables and what they mean

A `Table` is what the kernel hands out and takes back: a blob of entries and, for every hook, the
offsets where its chain begins and where its policy stands.  A `Ruleset` is what it means: a list of
rules, where a jump, the beginning of a chain and its policy are places in the list.

`Represents` relates the two.  The tables that represent something are the well-formed ones
(`wellFormed_iff`), and a ruleset has one table (`Represents.blob_eq` and its companions), so an
operation on tables is right if it represents the intended operation on rulesets.
-/

namespace Droidspaces.Netfilter

open Binary

/-! ## Tables -/

/-- `NF_INET_PRE_ROUTING` to `NF_INET_POST_ROUTING` -/
inductive Hook where
  | preRouting
  | localIn
  | forward
  | localOut
  | postRouting
  deriving DecidableEq

def Hook.all : List Hook := [preRouting, localIn, forward, localOut, postRouting]

theorem Hook.mem_all (h : Hook) : h ∈ Hook.all := by
  cases h <;> decide

/-- `struct ipt_getinfo` with the entries, and `struct ipt_replace`. -/
structure Table where
  validHooks : Hook → Bool
  numEntries : ℕ
  size : ℕ
  hookEntry : Hook → ℕ
  underflow : Hook → ℕ
  blob : Bytes

/-- A standard target that jumps. -/
def isJump (e : Bytes) : Bool := isStandard e && decide (0 ≤ verdict e)

/-- Where an entry jumps to. -/
def jumpOf (e : Bytes) : Option ℕ := if isJump e then some (verdict e).toNat else none

def sizesOf (es : List Bytes) : List ℕ := es.map List.length

theorem sizesOf_cons (e : Bytes) (es : List Bytes) :
    sizesOf (e :: es) = e.length :: sizesOf es := rfl

/-- The entries of a well-formed table. -/
structure Tiles (T : Table) (es : List Bytes) : Prop where
  isEntry : ∀ e ∈ es, IsEntry e
  blob : T.blob = es.flatten
  numEntries : T.numEntries = es.length
  size : T.size = T.blob.length
  size_lt : T.size < 2 ^ 31
  hooks : ∀ h, T.validHooks h = true → ∃ i j, i ≤ j ∧ j < es.length ∧
    T.hookEntry h = start (sizesOf es) i ∧ T.underflow h = start (sizesOf es) j
  jumps : ∀ e ∈ es, ∀ off ∈ jumpOf e, ∃ i < es.length, off = start (sizesOf es) i

/-- Entries tile the blob, and every offset is that of an entry. -/
def WellFormed (T : Table) : Prop := ∃ es, Tiles T es

/-! ## Rulesets -/

/-- An entry and, if it jumps, the rule that it jumps to; the verdict in the bytes is not read. -/
structure Rule where
  bytes : Bytes
  jump : Option ℕ

structure Ruleset where
  rules : List Rule
  valid : Hook → Bool
  /-- The first rule of a chain. -/
  entry : Hook → ℕ
  /-- The rule that holds its policy. -/
  last : Hook → ℕ

namespace Ruleset

variable (A : Ruleset)

def sizes : List ℕ := A.rules.map fun r => r.bytes.length

/-- Where a rule starts. -/
def offset (i : ℕ) : ℕ := start A.sizes i

/-- The entry of a rule. -/
def encode (r : Rule) : Bytes :=
  match r.jump with
  | none => r.bytes
  | some i => setVerdict r.bytes (A.offset i)

def blob : Bytes := (A.rules.map A.encode).flatten

/-- Every rule is an entry, and every place is that of a rule. -/
structure Valid : Prop where
  isEntry : ∀ r ∈ A.rules, IsEntry r.bytes
  isJump : ∀ r ∈ A.rules, r.jump.isSome = isJump r.bytes
  jump_lt : ∀ r ∈ A.rules, ∀ i ∈ r.jump, i < A.rules.length
  entry_le : ∀ h, A.valid h = true → A.entry h ≤ A.last h
  last_lt : ∀ h, A.valid h = true → A.last h < A.rules.length
  size_lt : A.sizes.sum < 2 ^ 31

end Ruleset

/-- The table of a ruleset; nothing is said of the offsets of hooks that the table does not have. -/
structure Represents (T : Table) (A : Ruleset) : Prop where
  valid : A.Valid
  blob : T.blob = A.blob
  numEntries : T.numEntries = A.rules.length
  size : T.size = A.sizes.sum
  validHooks : T.validHooks = A.valid
  hookEntry : ∀ h, A.valid h = true → T.hookEntry h = A.offset (A.entry h)
  underflow : ∀ h, A.valid h = true → T.underflow h = A.offset (A.last h)

/-- It does not matter where the chains begin that a table does not have. -/
theorem Represents.congr_entry {T : Table} {A : Ruleset} (h : Represents T A) {entry : Hook → ℕ}
    (hentry : ∀ hook, A.valid hook = true → entry hook = A.entry hook) :
    Represents T { A with entry := entry } where
  valid :=
    { isEntry := h.valid.isEntry
      isJump := h.valid.isJump
      jump_lt := h.valid.jump_lt
      entry_le := fun hook hvalid =>
        (hentry hook hvalid).trans_le (h.valid.entry_le hook hvalid)
      last_lt := h.valid.last_lt
      size_lt := h.valid.size_lt }
  blob := h.blob
  numEntries := h.numEntries
  size := h.size
  validHooks := h.validHooks
  hookEntry hook hvalid :=
    (h.hookEntry hook hvalid).trans (congrArg A.offset (hentry hook hvalid).symm)
  underflow := h.underflow

/-! ## The entries of a ruleset -/

@[simp] theorem Ruleset.length_sizes (A : Ruleset) : A.sizes.length = A.rules.length :=
  List.length_map _

namespace Ruleset.Valid

variable {A : Ruleset} (hA : A.Valid)
include hA

theorem sizes_pos : ∀ s ∈ A.sizes, 0 < s := by
  intro s hs
  obtain ⟨r, hr, rfl⟩ := List.mem_map.1 hs
  exact (hA.isEntry r hr).pos

theorem isStandard_of_jump {r : Rule} (hr : r ∈ A.rules) {i : ℕ} (hi : r.jump = some i) :
    isStandard r.bytes = true := by
  have hjump := hA.isJump r hr
  rw [hi, Option.isSome_some, Netfilter.isJump] at hjump
  exact (Bool.and_eq_true_iff.1 hjump.symm).1

theorem isEntry_encode {r : Rule} (hr : r ∈ A.rules) : IsEntry (A.encode r) := by
  unfold encode
  split
  · exact hA.isEntry r hr
  · next i hi => exact (hA.isEntry r hr).isEntry_setVerdict (hA.isStandard_of_jump hr hi) _

theorem length_encode {r : Rule} (hr : r ∈ A.rules) : (A.encode r).length = r.bytes.length := by
  unfold encode
  split
  · rfl
  · next i hi => exact (hA.isEntry r hr).length_setVerdict (hA.isStandard_of_jump hr hi) _

theorem length_encode_getElem {i : ℕ} (hi : i < A.rules.length) (hsizes : i < A.sizes.length) :
    (A.encode A.rules[i]).length = A.sizes[i] := by
  rw [hA.length_encode (List.getElem_mem hi)]
  simp [sizes]

theorem sizesOf_encode : sizesOf (A.rules.map A.encode) = A.sizes := by
  rw [sizesOf, List.map_map]
  exact List.map_congr_left fun r hr => hA.length_encode hr

theorem length_blob : A.blob.length = A.sizes.sum := by
  rw [blob, List.length_flatten]
  exact congrArg List.sum hA.sizesOf_encode

omit hA in
theorem offset_le (i : ℕ) : A.offset i ≤ A.sizes.sum := by
  rw [offset, ← start_length]
  rcases Nat.le_total i A.sizes.length with hi | hi
  · exact start_mono _ hi
  · rw [start, List.take_of_length_le hi, start_length]

theorem offset_lt (i : ℕ) : (A.offset i : ℤ) < 2 ^ 31 := by
  have hle := offset_le (A := A) i
  have hlt := hA.size_lt
  omega

theorem offset_le_offset {i j : ℕ} (hj : j < A.rules.length) : A.offset i ≤ A.offset j ↔ i ≤ j :=
  start_le_start_iff hA.sizes_pos (by rwa [A.length_sizes])

/-- Two rules start at one place only if they are the same. -/
theorem offset_inj {i j : ℕ} (hi : i < A.rules.length) (hj : j < A.rules.length)
    (h : A.offset i = A.offset j) : i = j := by
  have hlen := A.length_sizes
  exact start_inj hA.sizes_pos (by omega) (by omega) h

theorem verdict_encode {r : Rule} (hr : r ∈ A.rules) {i : ℕ} (hi : r.jump = some i) :
    verdict (A.encode r) = A.offset i := by
  have hlt := hA.offset_lt i
  simp only [encode, hi]
  exact (hA.isEntry r hr).verdict_setVerdict (hA.isStandard_of_jump hr hi) (by omega) hlt

/-- An entry jumps where its rule does. -/
theorem jumpOf_encode {r : Rule} (hr : r ∈ A.rules) :
    jumpOf (A.encode r) = r.jump.map A.offset := by
  cases hi : r.jump with
  | none =>
    have hjump := hA.isJump r hr
    rw [hi, Option.isSome_none] at hjump
    simp only [encode, hi, jumpOf, ← hjump, Option.map_none]
    rfl
  | some i =>
    have hstandard := (hA.isEntry r hr).isStandard_setVerdict (hA.isStandard_of_jump hr hi)
      (A.offset i)
    have hverdict := hA.verdict_encode hr hi
    have hencode : A.encode r = setVerdict r.bytes (A.offset i) := by
      simp only [encode, hi]
    rw [← hencode] at hstandard
    rw [jumpOf, Netfilter.isJump, hstandard, hverdict, if_pos (by simp), Option.map_some,
      Int.toNat_natCast]

end Ruleset.Valid

/-! ## The table of a ruleset -/

namespace Ruleset

def table (A : Ruleset) : Table where
  validHooks := A.valid
  numEntries := A.rules.length
  size := A.sizes.sum
  hookEntry h := if A.valid h then A.offset (A.entry h) else 0
  underflow h := if A.valid h then A.offset (A.last h) else 0
  blob := A.blob

theorem Valid.represents_table {A : Ruleset} (hA : A.Valid) : Represents A.table A where
  valid := hA
  blob := rfl
  numEntries := rfl
  size := rfl
  validHooks := rfl
  hookEntry _ hvalid := if_pos hvalid
  underflow _ hvalid := if_pos hvalid

theorem valid_iff {A : Ruleset} : A.Valid ↔
    (∀ r ∈ A.rules, IsEntry r.bytes ∧ r.jump.isSome = Netfilter.isJump r.bytes ∧
      r.jump.all (· < A.rules.length) = true) ∧
    (∀ h ∈ Hook.all, A.valid h = true → A.entry h ≤ A.last h ∧ A.last h < A.rules.length) ∧
    A.sizes.sum < 2 ^ 31 := by
  constructor
  · intro hA
    refine ⟨fun r hr => ⟨hA.isEntry r hr, hA.isJump r hr, ?_⟩,
      fun h _ hvalid => ⟨hA.entry_le h hvalid, hA.last_lt h hvalid⟩, hA.size_lt⟩
    rw [Option.all_eq_true]
    exact fun i hi => decide_eq_true (hA.jump_lt r hr i hi)
  · rintro ⟨hrules, hhooks, hsize⟩
    refine ⟨fun r hr => (hrules r hr).1, fun r hr => (hrules r hr).2.1, fun r hr i hi => ?_,
      fun h hvalid => (hhooks h h.mem_all hvalid).1, fun h hvalid => (hhooks h h.mem_all hvalid).2,
      hsize⟩
    exact of_decide_eq_true ((Option.all_eq_true _ _).1 (hrules r hr).2.2 i hi)

instance (A : Ruleset) : Decidable A.Valid := decidable_of_iff _ valid_iff.symm

end Ruleset

/-! ## Well-formed tables are those of rulesets -/

theorem Represents.tiles {T : Table} {A : Ruleset} (h : Represents T A) :
    Tiles T (A.rules.map A.encode) where
  isEntry e he := by
    obtain ⟨r, hr, rfl⟩ := List.mem_map.1 he
    exact h.valid.isEntry_encode hr
  blob := h.blob
  numEntries := by rw [h.numEntries, List.length_map]
  size := by rw [h.size, h.blob, h.valid.length_blob]
  size_lt := by
    rw [h.size]
    exact h.valid.size_lt
  hooks hook hvalid := by
    rw [h.validHooks] at hvalid
    refine ⟨A.entry hook, A.last hook, h.valid.entry_le hook hvalid, ?_, ?_, ?_⟩
    · rw [List.length_map]
      exact h.valid.last_lt hook hvalid
    · rw [h.valid.sizesOf_encode]
      exact h.hookEntry hook hvalid
    · rw [h.valid.sizesOf_encode]
      exact h.underflow hook hvalid
  jumps e he off hoff := by
    obtain ⟨r, hr, rfl⟩ := List.mem_map.1 he
    rw [h.valid.jumpOf_encode hr, Option.mem_def, Option.map_eq_some_iff] at hoff
    obtain ⟨i, hi, rfl⟩ := hoff
    rw [h.valid.sizesOf_encode, List.length_map]
    exact ⟨i, h.valid.jump_lt r hr i hi, rfl⟩

/-- The ruleset of a table with the given entries. -/
def rulesetOf (T : Table) (es : List Bytes) : Ruleset where
  rules := es.map fun e => ⟨e, (jumpOf e).map (indexAt (sizesOf es))⟩
  valid := T.validHooks
  entry h := indexAt (sizesOf es) (T.hookEntry h)
  last h := indexAt (sizesOf es) (T.underflow h)

theorem Tiles.represents {T : Table} {es : List Bytes} (h : Tiles T es) :
    Represents T (rulesetOf T es) := by
  have hsizes : (rulesetOf T es).sizes = sizesOf es := by
    rw [Ruleset.sizes, rulesetOf, List.map_map]
    rfl
  have hpos : ∀ s ∈ sizesOf es, 0 < s := by
    intro s hs
    obtain ⟨e, he, rfl⟩ := List.mem_map.1 hs
    exact (h.isEntry e he).pos
  have hlength : (rulesetOf T es).rules.length = es.length := List.length_map _
  have hindex {i : ℕ} (hi : i < es.length) : indexAt (sizesOf es) (start (sizesOf es) i) = i :=
    indexAt_start hpos (by rwa [sizesOf, List.length_map])
  have hsum : (sizesOf es).sum = T.size := by
    rw [h.size, h.blob, List.length_flatten]
    rfl
  have hjump {e : Bytes} (he : e ∈ es) {off : ℕ} (hoff : jumpOf e = some off) :
      indexAt (sizesOf es) off < es.length ∧
        start (sizesOf es) (indexAt (sizesOf es) off) = off := by
    obtain ⟨i, hi, rfl⟩ := h.jumps e he off hoff
    rw [hindex hi]
    exact ⟨hi, rfl⟩
  have hencode : ∀ e ∈ es, (rulesetOf T es).encode
      ⟨e, (jumpOf e).map (indexAt (sizesOf es))⟩ = e := by
    intro e he
    cases hoff : jumpOf e with
    | none => rfl
    | some off =>
      have hjumps : isJump e = true ∧ (verdict e).toNat = off := by
        simpa [jumpOf, Option.ite_none_right_eq_some] using hoff
      rw [isJump, Bool.and_eq_true, decide_eq_true_eq] at hjumps
      have hverdict : verdict e = off := by omega
      simp only [Ruleset.encode, Ruleset.offset, hsizes, Option.map_some, (hjump he hoff).2]
      rw [← hverdict]
      exact (h.isEntry e he).setVerdict_verdict hjumps.1.1
  have hmem {r : Rule} (hr : r ∈ (rulesetOf T es).rules) :
      ∃ e ∈ es, r = ⟨e, (jumpOf e).map (indexAt (sizesOf es))⟩ := by
    obtain ⟨e, he, rfl⟩ := List.mem_map.1 hr
    exact ⟨e, he, rfl⟩
  refine ⟨⟨?_, ?_, ?_, ?_, ?_, ?_⟩, ?_, ?_, ?_, rfl, ?_, ?_⟩
  · intro r hr
    obtain ⟨e, he, rfl⟩ := hmem hr
    exact h.isEntry e he
  · intro r hr
    obtain ⟨e, he, rfl⟩ := hmem hr
    simp only [Option.isSome_map, jumpOf]
    cases isJump e <;> rfl
  · intro r hr i hi
    obtain ⟨e, he, rfl⟩ := hmem hr
    obtain ⟨off, hoff, rfl⟩ := Option.map_eq_some_iff.1 hi
    rw [hlength]
    exact (hjump he hoff).1
  · intro hook hvalid
    obtain ⟨i, j, hij, hj, hentry, hlast⟩ := h.hooks hook hvalid
    simp only [rulesetOf, hentry, hlast, hindex hj, hindex (Nat.lt_of_le_of_lt hij hj)]
    exact hij
  · intro hook hvalid
    obtain ⟨i, j, hij, hj, hentry, hlast⟩ := h.hooks hook hvalid
    rw [hlength]
    simp only [rulesetOf, hlast, hindex hj]
    exact hj
  · rw [hsizes, hsum]
    exact h.size_lt
  · rw [h.blob, Ruleset.blob]
    congr 1
    simp only [rulesetOf, List.map_map]
    exact (List.map_id es).symm.trans (List.map_congr_left fun e he => (hencode e he).symm)
  · rw [h.numEntries, hlength]
  · rw [hsizes, hsum]
  · intro hook hvalid
    obtain ⟨i, j, hij, hj, hentry, -⟩ := h.hooks hook hvalid
    have hfirst : (rulesetOf T es).entry hook = i := by
      simp only [rulesetOf, hentry, hindex (Nat.lt_of_le_of_lt hij hj)]
    rw [Ruleset.offset, hfirst, hsizes, hentry]
  · intro hook hvalid
    obtain ⟨i, j, -, hj, -, hlast⟩ := h.hooks hook hvalid
    have hpolicy : (rulesetOf T es).last hook = j := by
      simp only [rulesetOf, hlast, hindex hj]
    rw [Ruleset.offset, hpolicy, hsizes, hlast]

/-- **Well-formed tables are those of rulesets.** -/
theorem wellFormed_iff {T : Table} : WellFormed T ↔ ∃ A, Represents T A :=
  ⟨fun ⟨es, h⟩ => ⟨rulesetOf T es, h.represents⟩, fun ⟨_, h⟩ => ⟨_, h.tiles⟩⟩

end Droidspaces.Netfilter
