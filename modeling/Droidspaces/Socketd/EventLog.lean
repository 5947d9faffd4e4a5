import Droidspaces.Binary.Fields
import Mathlib.Data.List.Induction

/-!
# The log of events

`ds_socketd_record_core_event` appends a record of fixed size, and has the file shortened once it is
longer than 128 records: the last 64 are read, the file is emptied, and they are written back.
`keepsNewest_runCalls` says what the file has in it after any number of calls.
-/

namespace Droidspaces.Socketd

open Binary

/-! ## Records -/

/-- What `struct ds_socketd_core_event_record` is made from: the time, and the three texts. -/
structure CoreEvent where
  seconds : ℕ
  nanos : ℕ
  action : Bytes
  containerName : Bytes
  uuid : Bytes

/-- `ds_socketd_hton64` -/
def hton64 (v : ℕ) : Bytes := bigEndian 8 v

/-- `safe_strncpy` into `n` bytes that are zero. -/
def charArray (n : ℕ) (t : Bytes) : Bytes :=
  t.take (n - 1) ++ List.replicate (n - (t.take (n - 1)).length) 0

/-- `container` -/
def eventType : Bytes := [99, 111, 110, 116, 97, 105, 110, 101, 114]

/-- `struct ds_socketd_core_event_record`, which is packed. -/
def coreEventRecord (e : CoreEvent) : Bytes :=
  hton64 e.seconds ++ hton64 (e.seconds * 1000000000 + e.nanos) ++ charArray 32 eventType ++
    charArray 32 e.action ++ charArray 33 e.uuid ++ charArray 256 e.containerName

/-- `sizeof(struct ds_socketd_core_event_record)` -/
def recordSize : ℕ := 369

/-! ## The code -/

def softCapRecords : ℕ := 128

def retainRecords : ℕ := 64

/-- The loop around `read`, which has `n` bytes to get from what is left of the file.  A call may
give less than is asked for and there: `shorts` says of the first calls how much they give at most,
and the one after them gives everything. -/
def readUpTo : List ℕ → ℕ → Bytes → Bytes
  | [], n, rest => rest.take n
  | short :: shorts, n, rest =>
    if n = 0 ∨ rest = [] then []
    else
      let got := min (short + 1) (min n rest.length)
      rest.take got ++ readUpTo shorts (n - got) (rest.drop got)

/-- `ds_socketd_trim_core_event_file` -/
def trimCoreEventFile (shorts : List ℕ) (file : Bytes) : Bytes :=
  if file.length ≤ softCapRecords * recordSize then file
  else
    let completeRecords := file.length / recordSize
    if completeRecords ≤ retainRecords then file
    else
      let firstKeptRecord := completeRecords - retainRecords
      let keep := readUpTo shorts (retainRecords * recordSize) (file.drop (firstKeptRecord * recordSize))
      let bytesRead := keep.length - keep.length % recordSize
      if bytesRead = 0 then file else keep.take bytesRead

/-- `ds_socketd_record_core_event` -/
def recordCoreEvent (file : Bytes) (e : CoreEvent) (shorts : List ℕ) : Bytes :=
  let file := file ++ coreEventRecord e
  if file.length > softCapRecords * recordSize then trimCoreEventFile shorts file else file

/-- One call after the other, by one writer. -/
def runCalls (calls : List (CoreEvent × List ℕ)) : Bytes :=
  calls.foldl (fun file call => recordCoreEvent file call.1 call.2) []

/-! ## What is meant -/

/-- The file is records of the newest events in their order: of all of them up to 128, else of 64 to
128 of them. -/
def KeepsNewest (history : List CoreEvent) (file : Bytes) : Prop :=
  ∃ kept, kept <:+ history ∧ file = kept.flatMap coreEventRecord ∧
    if history.length ≤ softCapRecords then kept = history
    else retainRecords ≤ kept.length ∧ kept.length ≤ softCapRecords

/-- What one more event makes of the events in the file. -/
def keepNewest (kept : List CoreEvent) (e : CoreEvent) : List CoreEvent :=
  if kept.length < softCapRecords then kept ++ [e]
  else (kept ++ [e]).drop (kept.length + 1 - retainRecords)

/-! ## The file -/

theorem length_charArray {n : ℕ} (hn : 0 < n) (t : Bytes) : (charArray n t).length = n := by
  rw [charArray, List.length_append, List.length_replicate, List.length_take]
  omega

theorem length_coreEventRecord (e : CoreEvent) : (coreEventRecord e).length = recordSize := by
  have hnumber (v : ℕ) : (hton64 v).length = 8 := length_bigEndian 8 v
  simp only [coreEventRecord, List.length_append, hnumber, length_charArray (by decide : 0 < 32),
    length_charArray (by decide : 0 < 33), length_charArray (by decide : 0 < 256)]
  rfl

/-- However the reads are divided, they give what there is. -/
theorem readUpTo_eq_take (shorts : List ℕ) (n : ℕ) (rest : Bytes) :
    readUpTo shorts n rest = rest.take n := by
  induction shorts generalizing n rest with
  | nil => rfl
  | cons short shorts ih =>
    rw [readUpTo]
    split
    · next hend =>
      rcases hend with rfl | rfl
      · rfl
      · exact List.take_nil.symm
    · dsimp only
      rw [ih, ← List.take_add]
      congr 1
      omega

/-- The last records are kept. -/
theorem trimCoreEventFile_flatMap (shorts : List ℕ) {events : List CoreEvent}
    (h : softCapRecords < events.length) :
    trimCoreEventFile shorts (events.flatMap coreEventRecord) =
      (events.drop (events.length - retainRecords)).flatMap coreEventRecord := by
  have hlen := length_flatMap_of_size length_coreEventRecord events
  have hsize : 0 < recordSize := by decide
  have hretain : retainRecords < softCapRecords := by decide
  have hlong : ¬ events.length * recordSize ≤ softCapRecords * recordSize :=
    fun hle => absurd (Nat.le_of_mul_le_mul_right hle hsize) (by omega)
  have hkept : ((events.drop (events.length - retainRecords)).flatMap coreEventRecord).length =
      retainRecords * recordSize := by
    rw [length_flatMap_of_size length_coreEventRecord, List.length_drop]
    congr 1
    omega
  rw [trimCoreEventFile, hlen, if_neg hlong, Nat.mul_div_cancel _ hsize]
  dsimp only
  rw [if_neg (by omega), readUpTo_eq_take, drop_flatMap_of_size length_coreEventRecord,
    List.take_of_length_le (Nat.le_of_eq hkept), hkept, Nat.mul_mod_left, Nat.sub_zero,
    if_neg (by decide), List.take_of_length_le (Nat.le_of_eq hkept)]

/-- **A call does to the file what one more event does to the events.** -/
theorem recordCoreEvent_flatMap (kept : List CoreEvent) (e : CoreEvent) (shorts : List ℕ)
    (h : kept.length ≤ softCapRecords) :
    recordCoreEvent (kept.flatMap coreEventRecord) e shorts =
      (keepNewest kept e).flatMap coreEventRecord := by
  have hfile : kept.flatMap coreEventRecord ++ coreEventRecord e =
      (kept ++ [e]).flatMap coreEventRecord := by
    rw [List.flatMap_append, List.flatMap_singleton]
  have hlen := length_flatMap_of_size length_coreEventRecord (kept ++ [e])
  have hsize : 0 < recordSize := by decide
  rw [List.length_append, List.length_singleton] at hlen
  rw [recordCoreEvent, hfile, hlen, keepNewest]
  split
  · next hlong =>
    have hfull : softCapRecords < kept.length + 1 := Nat.lt_of_mul_lt_mul_right hlong
    rw [if_neg (by omega), trimCoreEventFile_flatMap, List.length_append, List.length_singleton]
    rw [List.length_append, List.length_singleton]
    exact hfull
  · next hshort =>
    have hroom : kept.length + 1 ≤ softCapRecords :=
      Nat.le_of_mul_le_mul_right (Nat.le_of_not_lt hshort) hsize
    rw [if_pos (Nat.lt_of_succ_le hroom)]

/-! ## A run -/

theorem keepNewest_suffix (kept : List CoreEvent) (e : CoreEvent) :
    keepNewest kept e <:+ kept ++ [e] := by
  rw [keepNewest]
  split
  · exact List.suffix_refl _
  · exact List.drop_suffix _ _

theorem length_keepNewest (kept : List CoreEvent) (e : CoreEvent) :
    (keepNewest kept e).length =
      if kept.length < softCapRecords then kept.length + 1 else retainRecords := by
  have hretain : retainRecords < softCapRecords := by decide
  rw [keepNewest]
  split
  · rw [List.length_append, List.length_singleton]
  · rw [List.length_drop, List.length_append, List.length_singleton]
    omega

/-- **After every call the file has the newest events.** -/
theorem keepsNewest_runCalls (calls : List (CoreEvent × List ℕ)) :
    KeepsNewest (calls.map Prod.fst) (runCalls calls) := by
  have hcap : softCapRecords = 128 := rfl
  have hretain : retainRecords = 64 := rfl
  induction calls using List.reverseRecOn with
  | nil => exact ⟨[], List.suffix_refl _, rfl, rfl⟩
  | append_singleton calls call ih =>
    obtain ⟨e, shorts⟩ := call
    obtain ⟨kept, hsuffix, hfile, hkept⟩ := ih
    have hle : kept.length ≤ softCapRecords := by
      split at hkept
      · next hfew => exact hkept ▸ hfew
      · exact hkept.2
    have hcall : runCalls (calls ++ [(e, shorts)]) = recordCoreEvent (runCalls calls) e shorts :=
      List.foldl_append
    rw [List.map_append, List.map_singleton, hcall, hfile, recordCoreEvent_flatMap kept e shorts hle]
    refine ⟨keepNewest kept e, (keepNewest_suffix kept e).trans ?_, rfl, ?_⟩
    · obtain ⟨older, holder⟩ := hsuffix
      exact ⟨older, by rw [← holder, List.append_assoc]⟩
    · have hlen := length_keepNewest kept e
      rw [List.length_append, List.length_singleton]
      split at hkept
      · next hfew =>
        rw [hkept] at hlen ⊢
        split
        · next hroom => rw [keepNewest, if_pos (by omega)]
        · next hfull =>
          rw [hlen, if_neg (by omega)]
          omega
      · next hmany =>
        rw [if_neg (by omega), hlen]
        split <;> omega

end Droidspaces.Socketd
