import Droidspaces.Binary.Fields

/-!
# The entries of an xtables blob

`struct ipt_entry` and its target as the bytes that the kernel hands out on a 64-bit little-endian
machine.  The target's verdict is the one field that the code changes in an entry that it keeps:
a jump is an offset into the blob, and offsets move.
-/

namespace Droidspaces.Netfilter

open Binary

/-! ## Layout -/

/-- `sizeof(struct ipt_entry)` -/
def entrySize : ℕ := 112

/-- `sizeof(struct xt_entry_target)` -/
def targetHeaderSize : ℕ := 32

/-- `XT_ALIGN(sizeof(struct xt_standard_target))` -/
def standardTargetSize : ℕ := 40

/-- `IFNAMSIZ` -/
def ifNameSize : ℕ := 16

section Fields

variable (e : Bytes)

def src : Bytes := field 0 4 e
def dst : Bytes := field 4 4 e
def smsk : Bytes := field 8 4 e
def dmsk : Bytes := field 12 4 e
def iniface : Bytes := field 16 16 e
def outiface : Bytes := field 32 16 e
def inifaceMask : Bytes := field 48 16 e
def outifaceMask : Bytes := field 64 16 e
def proto : ℕ := toNat (field 80 2 e)
def flags : ℕ := toNat (field 82 1 e)
def invflags : ℕ := toNat (field 83 1 e)
def targetOffset : ℕ := toNat (field 88 2 e)
def nextOffset : ℕ := toNat (field 90 2 e)

/-- `t->u.target_size` -/
def targetSize : ℕ := toNat (field (targetOffset e) 2 e)

/-- `t->u.user.name` as a C string. -/
def targetName : Bytes := (field (targetOffset e + 2) 29 e).takeWhile (· != 0)

/-- `((struct xt_standard_target *)t)->verdict` -/
def verdict : ℤ := toInt32 (field (targetOffset e + targetHeaderSize) 4 e)

def setVerdict (v : ℤ) : Bytes := splice (targetOffset e + targetHeaderSize) (ofInt32 v) e

/-- A standard target, as the fix-ups look for it. -/
def isStandard : Bool :=
  targetOffset e + standardTargetSize ≤ nextOffset e && (targetName e).isEmpty &&
    targetSize e == standardTargetSize

end Fields

/-! ## Whole entries -/

/-- One entry, with its target behind the header. -/
structure IsEntry (e : Bytes) : Prop where
  next : nextOffset e = e.length
  target_ge : entrySize ≤ targetOffset e
  header_fits : targetOffset e + targetHeaderSize ≤ e.length
  target_fits : targetOffset e + targetSize e ≤ e.length

instance (e : Bytes) : Decidable (IsEntry e) :=
  decidable_of_iff (nextOffset e = e.length ∧ entrySize ≤ targetOffset e ∧
      targetOffset e + targetHeaderSize ≤ e.length ∧ targetOffset e + targetSize e ≤ e.length)
    ⟨fun h => ⟨h.1, h.2.1, h.2.2.1, h.2.2.2⟩,
      fun h => ⟨h.next, h.target_ge, h.header_fits, h.target_fits⟩⟩

section Entry

variable {e : Bytes} (h : IsEntry e)
include h

theorem IsEntry.le_length : entrySize + targetHeaderSize ≤ e.length :=
  (Nat.add_le_add_right h.target_ge _).trans h.header_fits

theorem IsEntry.pos : 0 < e.length :=
  Nat.lt_of_lt_of_le (by decide) h.le_length

theorem IsEntry.length_header {off n : ℕ} (hoff : off + n ≤ entrySize) :
    (field off n e).length = n :=
  Binary.length_field (hoff.trans ((Nat.le_add_right _ _).trans h.le_length))

theorem IsEntry.length_lt : e.length < 2 ^ 16 := by
  have hlt := toNat_lt (field 90 2 e)
  rw [h.length_header (by decide)] at hlt
  rw [← h.next]
  exact hlt

/-- What is read in the header of the first entry. -/
theorem IsEntry.field_append {off n : ℕ} (hoff : off + n ≤ entrySize) (rest : Bytes) :
    field off n (e ++ rest) = field off n e :=
  Binary.field_append (hoff.trans ((Nat.le_add_right _ _).trans h.le_length)) rest

theorem IsEntry.targetOffset_append (rest : Bytes) :
    targetOffset (e ++ rest) = targetOffset e :=
  congrArg toNat (h.field_append (by decide) rest)

theorem IsEntry.nextOffset_append (rest : Bytes) : nextOffset (e ++ rest) = e.length :=
  (congrArg toNat (h.field_append (by decide) rest)).trans h.next

/-- What is read in the header of its target. -/
theorem IsEntry.target_append {off n : ℕ} (hoff : off + n ≤ targetHeaderSize) (rest : Bytes) :
    field (targetOffset (e ++ rest) + off) n (e ++ rest) = field (targetOffset e + off) n e := by
  have hfits := h.header_fits
  rw [h.targetOffset_append, Binary.field_append (by omega)]

theorem IsEntry.targetSize_append (rest : Bytes) : targetSize (e ++ rest) = targetSize e :=
  congrArg toNat (h.target_append (show 0 + 2 ≤ targetHeaderSize by decide) rest)

theorem IsEntry.targetName_append (rest : Bytes) : targetName (e ++ rest) = targetName e :=
  congrArg (List.takeWhile (· != 0)) (h.target_append (by decide) rest)

theorem IsEntry.isStandard_append (rest : Bytes) : isStandard (e ++ rest) = isStandard e := by
  simp only [isStandard, h.targetOffset_append, h.nextOffset_append, h.targetName_append,
    h.targetSize_append, h.next]

/-- A target of the size of a standard one has a verdict. -/
theorem IsEntry.verdict_append (hsize : standardTargetSize ≤ targetSize e) (rest : Bytes) :
    verdict (e ++ rest) = verdict e := by
  have hfits := h.target_fits
  rw [verdict, h.targetOffset_append, Binary.field_append, verdict]
  simp only [targetHeaderSize, standardTargetSize] at hsize ⊢
  omega

end Entry

theorem targetSize_of_isStandard {e : Bytes} (hstandard : isStandard e = true) :
    targetSize e = standardTargetSize := by
  simp only [isStandard, Bool.and_eq_true, beq_iff_eq] at hstandard
  exact hstandard.2

/-! ## Changing a verdict -/

section Verdict

variable {e : Bytes} (h : IsEntry e) (hstandard : isStandard e = true)
include h hstandard

theorem IsEntry.verdict_fits : targetOffset e + targetHeaderSize + 4 ≤ e.length := by
  have hfits := h.target_fits
  rw [targetSize_of_isStandard hstandard] at hfits
  simp only [targetHeaderSize, standardTargetSize] at hfits ⊢
  omega

theorem IsEntry.length_setVerdict (v : ℤ) : (setVerdict e v).length = e.length :=
  length_splice (by rw [length_ofInt32]; exact h.verdict_fits hstandard)

/-- The rest of the entry stays. -/
theorem IsEntry.field_setVerdict {off n : ℕ} (hoff : off + n ≤ targetOffset e + targetHeaderSize)
    (v : ℤ) : field off n (setVerdict e v) = field off n e :=
  field_splice_before (by rw [length_ofInt32]; exact h.verdict_fits hstandard) hoff

theorem IsEntry.header_setVerdict {off n : ℕ} (hoff : off + n ≤ entrySize) (v : ℤ) :
    field off n (setVerdict e v) = field off n e :=
  h.field_setVerdict hstandard (hoff.trans (h.target_ge.trans (Nat.le_add_right _ _))) v

theorem IsEntry.targetOffset_setVerdict (v : ℤ) :
    targetOffset (setVerdict e v) = targetOffset e :=
  congrArg toNat (h.header_setVerdict hstandard (by decide) v)

theorem IsEntry.nextOffset_setVerdict (v : ℤ) : nextOffset (setVerdict e v) = nextOffset e :=
  congrArg toNat (h.header_setVerdict hstandard (by decide) v)

theorem IsEntry.target_setVerdict {off n : ℕ} (hoff : off + n ≤ targetHeaderSize) (v : ℤ) :
    field (targetOffset (setVerdict e v) + off) n (setVerdict e v) =
      field (targetOffset e + off) n e := by
  rw [h.targetOffset_setVerdict hstandard, h.field_setVerdict hstandard (by omega)]

theorem IsEntry.targetSize_setVerdict (v : ℤ) : targetSize (setVerdict e v) = targetSize e :=
  congrArg toNat (h.target_setVerdict hstandard (show 0 + 2 ≤ targetHeaderSize by decide) v)

theorem IsEntry.targetName_setVerdict (v : ℤ) : targetName (setVerdict e v) = targetName e :=
  congrArg (List.takeWhile (· != 0)) (h.target_setVerdict hstandard (by decide) v)

theorem IsEntry.isStandard_setVerdict (v : ℤ) : isStandard (setVerdict e v) = true := by
  rw [← hstandard]
  simp only [isStandard, h.targetOffset_setVerdict hstandard, h.nextOffset_setVerdict hstandard,
    h.targetName_setVerdict hstandard, h.targetSize_setVerdict hstandard]

theorem IsEntry.verdict_setVerdict {v : ℤ} (hlow : -2 ^ 31 ≤ v) (hhigh : v < 2 ^ 31) :
    verdict (setVerdict e v) = v := by
  have hself := field_splice_self (targetOffset e + targetHeaderSize) (ofInt32 v) e
    (by rw [length_ofInt32]; exact h.verdict_fits hstandard)
  rw [length_ofInt32] at hself
  rw [verdict, h.targetOffset_setVerdict hstandard, setVerdict, hself, toInt32_ofInt32 hlow hhigh]

theorem IsEntry.setVerdict_verdict : setVerdict e (verdict e) = e := by
  have hfits := h.verdict_fits hstandard
  rw [setVerdict, verdict, ofInt32_toInt32 (length_field hfits), splice_field hfits]

theorem IsEntry.setVerdict_setVerdict (v w : ℤ) :
    setVerdict (setVerdict e v) w = setVerdict e w := by
  rw [setVerdict, h.targetOffset_setVerdict hstandard, setVerdict,
    splice_splice (by rw [length_ofInt32]; exact h.verdict_fits hstandard) (by simp), setVerdict]

theorem IsEntry.isEntry_setVerdict (v : ℤ) : IsEntry (setVerdict e v) where
  next := by rw [h.nextOffset_setVerdict hstandard, h.length_setVerdict hstandard, h.next]
  target_ge := by
    rw [h.targetOffset_setVerdict hstandard]
    exact h.target_ge
  header_fits := by
    rw [h.targetOffset_setVerdict hstandard, h.length_setVerdict hstandard]
    exact h.header_fits
  target_fits := by
    rw [h.targetOffset_setVerdict hstandard, h.targetSize_setVerdict hstandard,
      h.length_setVerdict hstandard]
    exact h.target_fits

end Verdict

end Droidspaces.Netfilter
