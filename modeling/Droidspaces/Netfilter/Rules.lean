import Droidspaces.Netfilter.Table

/-!
# Rules that the code makes and looks for

An ACCEPT for an interface and a MASQUERADE for a subnet: how `insert_iface_accept` and
`ds_ipt_ensure_masquerade` write them, by what `rule_exists_in_hook` takes one for present, and by
what `remove_matching_rules` takes one for its own.
-/

namespace Droidspaces.Netfilter

open Binary

/-! ## Names -/

/-- `"ACCEPT"` -/
def acceptName : Bytes := [65, 67, 67, 69, 80, 84]

/-- `"MASQUERADE"` -/
def masqueradeName : Bytes := [77, 65, 83, 81, 85, 69, 82, 65, 68, 69]

/-- `-NF_ACCEPT - 1` -/
def acceptVerdict : ℤ := -2

/-- `-NF_DROP - 1` -/
def dropVerdict : ℤ := -1

/-! The inversion flags, as the places of their bits. -/

def invViaIn : ℕ := 0
def invViaOut : ℕ := 1
def invSrcIp : ℕ := 3
def invDstIp : ℕ := 4
def invFrag : ℕ := 5
def invProto : ℕ := 6

/-- The name in a field of bytes. -/
def cString (bs : Bytes) : Bytes := bs.takeWhile (· != 0)

/-- `iface_empty` -/
def ifaceEmpty (iface mask : Bytes) : Bool :=
  iface.all (· == 0) && mask.all (· == 0)

/-- `iface_exact_match` -/
def ifaceExactMatch (ruleIface ruleMask iface : Bytes) : Bool :=
  !iface.isEmpty && iface.length < ifNameSize && cString ruleIface == iface &&
    (ruleMask.take (iface.length + 1)).all (· == 0xff) &&
    (ruleMask.drop (iface.length + 1)).all (· == 0)

/-- `target_is_accept` -/
def targetIsAccept (e : Bytes) : Bool :=
  targetName e == acceptName ||
    ((targetName e).isEmpty && standardTargetSize ≤ targetSize e && verdict e == acceptVerdict)

/-! ## What is made -/

/-- The name of an interface, as a caller has it. -/
structure IfName where
  bytes : Bytes
  length_pos : 0 < bytes.length
  length_lt : bytes.length < ifNameSize
  no_nul : 0 ∉ bytes

/-- `DS_NAT_BRIDGE`, `"ds-br0"` -/
def natBridge : IfName := ⟨[100, 115, 45, 98, 114, 48], by decide, by decide, by decide⟩

/-- A subnet, as a header has it. -/
structure Subnet where
  addr : Bytes
  mask : Bytes
  length_addr : addr.length = 4
  length_mask : mask.length = 4

/-- `DS_DEFAULT_SUBNET`, `"172.28.0.0/16"` -/
def defaultSubnet : Subnet := ⟨[172, 28, 0, 0], [255, 255, 0, 0], rfl, rfl⟩

def zeros (n : ℕ) : Bytes := List.replicate n 0

@[simp] theorem length_zeros (n : ℕ) : (zeros n).length = n := List.length_replicate

/-- The fields of a header that the code fills. -/
structure Header where
  addresses : Bytes
  iniface : Bytes
  outiface : Bytes
  inifaceMask : Bytes
  outifaceMask : Bytes
  invflags : UInt8
  length_addresses : addresses.length = 16
  length_iniface : iniface.length = ifNameSize
  length_outiface : outiface.length = ifNameSize
  length_inifaceMask : inifaceMask.length = ifNameSize
  length_outifaceMask : outifaceMask.length = ifNameSize

/-- An entry of a header and a target; what is not filled is zero. -/
def Header.entry (h : Header) (target : Bytes) : Bytes :=
  h.addresses ++ (h.iniface ++ (h.outiface ++ (h.inifaceMask ++ (h.outifaceMask ++
    (zeros 3 ++ ([h.invflags] ++ (zeros 4 ++ (ofNat 2 entrySize ++
      (ofNat 2 (entrySize + target.length) ++ (zeros 20 ++ target))))))))))

section Header

variable (h : Header) (t : Bytes)

theorem length_entry : (h.entry t).length = entrySize + t.length := by
  simp only [Header.entry, List.length_append, h.length_addresses, h.length_iniface, h.length_outiface,
    h.length_inifaceMask, h.length_outifaceMask, length_zeros, length_ofNat, List.length_singleton,
    ifNameSize, entrySize]
  omega

theorem address_entry {off n : ℕ} (hoff : off + n ≤ 16) :
    field off n (h.entry t) = field off n h.addresses :=
  field_append (by rwa [h.length_addresses]) _

theorem iniface_entry : iniface (h.entry t) = h.iniface := by
  show field (16 + 0) ifNameSize _ = _
  rw [Header.entry, field_skip h.length_addresses, field_here h.length_iniface]

theorem outiface_entry : outiface (h.entry t) = h.outiface := by
  show field (16 + (ifNameSize + 0)) ifNameSize _ = _
  rw [Header.entry, field_skip h.length_addresses, field_skip h.length_iniface,
    field_here h.length_outiface]

theorem inifaceMask_entry : inifaceMask (h.entry t) = h.inifaceMask := by
  show field (16 + (ifNameSize + (ifNameSize + 0))) ifNameSize _ = _
  rw [Header.entry, field_skip h.length_addresses, field_skip h.length_iniface,
    field_skip h.length_outiface, field_here h.length_inifaceMask]

theorem outifaceMask_entry : outifaceMask (h.entry t) = h.outifaceMask := by
  show field (16 + (ifNameSize + (ifNameSize + (ifNameSize + 0)))) ifNameSize _ = _
  rw [Header.entry, field_skip h.length_addresses, field_skip h.length_iniface,
    field_skip h.length_outiface, field_skip h.length_inifaceMask, field_here h.length_outifaceMask]

/-- What stands behind the names. -/
theorem field_behind_names (off n : ℕ) : field (80 + off) n (h.entry t) = field off n (zeros 3 ++
    ([h.invflags] ++ (zeros 4 ++ (ofNat 2 entrySize ++ (ofNat 2 (entrySize + t.length) ++
      (zeros 20 ++ t)))))) := by
  have hoff : 80 + off = 16 + (ifNameSize + (ifNameSize + (ifNameSize + (ifNameSize + off)))) := by
    rw [ifNameSize]
    omega
  rw [hoff, Header.entry, field_skip h.length_addresses, field_skip h.length_iniface,
    field_skip h.length_outiface, field_skip h.length_inifaceMask, field_skip h.length_outifaceMask]

theorem proto_entry : proto (h.entry t) = 0 := by
  show toNat (field (80 + 0) 2 _) = 0
  rw [field_behind_names, field_append (by simp)]
  decide

theorem flags_entry : flags (h.entry t) = 0 := by
  show toNat (field (80 + 2) 1 _) = 0
  rw [field_behind_names, field_append (by simp)]
  decide

theorem invflags_entry : invflags (h.entry t) = h.invflags.toNat := by
  show toNat (field (80 + (3 + 0)) 1 _) = _
  rw [field_behind_names, field_skip (length_zeros 3), field_here (List.length_singleton)]
  simp [Binary.toNat]

theorem targetOffset_entry : targetOffset (h.entry t) = entrySize := by
  show toNat (field (80 + (3 + (1 + (4 + 0)))) 2 _) = _
  rw [field_behind_names, field_skip (length_zeros 3), field_skip List.length_singleton,
    field_skip (length_zeros 4), field_here (length_ofNat 2 _), toNat_ofNat]
  rfl

theorem nextOffset_entry (ht : entrySize + t.length < 2 ^ 16) :
    nextOffset (h.entry t) = entrySize + t.length := by
  show toNat (field (80 + (3 + (1 + (4 + (2 + 0))))) 2 _) = _
  rw [field_behind_names, field_skip (length_zeros 3), field_skip List.length_singleton,
    field_skip (length_zeros 4), field_skip (length_ofNat 2 _), field_here (length_ofNat 2 _),
    toNat_ofNat]
  exact Nat.mod_eq_of_lt ht

/-- What stands in the target. -/
theorem target_entry (off n : ℕ) :
    field (targetOffset (h.entry t) + off) n (h.entry t) = field off n t := by
  have hoff : entrySize + off = 80 + (3 + (1 + (4 + (2 + (2 + (20 + off)))))) := by
    rw [entrySize]
    omega
  rw [targetOffset_entry, hoff, field_behind_names, field_skip (length_zeros 3),
    field_skip List.length_singleton, field_skip (length_zeros 4), field_skip (length_ofNat 2 _),
    field_skip (length_ofNat 2 _), field_skip (length_zeros 20)]

end Header

/-- A name in a field. -/
def IfName.padded (iface : IfName) : Bytes := iface.bytes ++ zeros (ifNameSize - iface.bytes.length)

/-- The mask of a whole name with its end. -/
def IfName.mask (iface : IfName) : Bytes :=
  List.replicate (iface.bytes.length + 1) 0xff ++ zeros (ifNameSize - (iface.bytes.length + 1))

theorem IfName.length_padded (iface : IfName) : iface.padded.length = ifNameSize := by
  have hlt := iface.length_lt
  rw [padded, List.length_append, length_zeros]
  omega

theorem IfName.length_mask (iface : IfName) : iface.mask.length = ifNameSize := by
  have hlt := iface.length_lt
  rw [mask, List.length_append, List.length_replicate, length_zeros]
  omega

def acceptHeader (iface : IfName) (isOut : Bool) : Header where
  addresses := zeros 16
  iniface := if isOut then zeros ifNameSize else iface.padded
  outiface := if isOut then iface.padded else zeros ifNameSize
  inifaceMask := if isOut then zeros ifNameSize else iface.mask
  outifaceMask := if isOut then iface.mask else zeros ifNameSize
  invflags := 0
  length_addresses := length_zeros 16
  length_iniface := by cases isOut <;> simp [iface.length_padded]
  length_outiface := by cases isOut <;> simp [iface.length_padded]
  length_inifaceMask := by cases isOut <;> simp [iface.length_mask]
  length_outifaceMask := by cases isOut <;> simp [iface.length_mask]

/-- `struct xt_standard_target` -/
def standardTarget (v : ℤ) : Bytes :=
  ofNat 2 standardTargetSize ++ zeros 30 ++ ofInt32 v ++ zeros 4

/-- The rule of `insert_iface_accept`. -/
def acceptRule (iface : IfName) (isOut : Bool) : Bytes :=
  (acceptHeader iface isOut).entry (standardTarget acceptVerdict)

def masqueradeHeader (subnet : Subnet) : Header where
  addresses := subnet.addr ++ (subnet.addr ++ (subnet.mask ++ subnet.mask))
  iniface := zeros ifNameSize
  outiface := zeros ifNameSize
  inifaceMask := zeros ifNameSize
  outifaceMask := zeros ifNameSize
  invflags := 0x10
  length_addresses := by simp [subnet.length_addr, subnet.length_mask]
  length_iniface := length_zeros _
  length_outiface := length_zeros _
  length_inifaceMask := length_zeros _
  length_outifaceMask := length_zeros _

/-- An entry that asks nothing. -/
def plainHeader : Header where
  addresses := zeros 16
  iniface := zeros ifNameSize
  outiface := zeros ifNameSize
  inifaceMask := zeros ifNameSize
  outifaceMask := zeros ifNameSize
  invflags := 0
  length_addresses := length_zeros 16
  length_iniface := length_zeros _
  length_outiface := length_zeros _
  length_inifaceMask := length_zeros _
  length_outifaceMask := length_zeros _

/-- `XT_ALIGN` of a target header with `struct nf_nat_ipv4_multi_range_compat` behind it. -/
def masqueradeTargetSize : ℕ := 56

/-- The target with its range, of which `rangesize` is set. -/
def masqueradeTarget : Bytes :=
  ofNat 2 masqueradeTargetSize ++ (masqueradeName ++ zeros 20) ++ ofNat 4 1 ++ zeros 20

/-- The rule of `ds_ipt_ensure_masquerade`. -/
def masqueradeRule (subnet : Subnet) : Bytes :=
  (masqueradeHeader subnet).entry masqueradeTarget

/-! ## What is looked for -/

/-- What `rule_exists_in_hook` is asked for.  The zero address and empty names ask for nothing. -/
structure Wanted where
  ifaceIn : Bytes
  ifaceOut : Bytes
  src : Bytes
  srcMask : Bytes
  targetName : Bytes

/-- The criteria of `rule_exists_in_hook`. -/
def isWanted (w : Wanted) (e : Bytes) : Bool :=
  (w.targetName.isEmpty ||
      if w.targetName == acceptName then targetIsAccept e else targetName e == w.targetName) &&
    (w.ifaceIn.isEmpty || cString (iniface e) == w.ifaceIn.take ifNameSize) &&
    (w.ifaceOut.isEmpty || cString (outiface e) == w.ifaceOut.take ifNameSize) &&
    (toNat w.src == 0 || (src e == w.src && smsk e == w.srcMask))

/-- What `remove_matching_rules` is to remove.  The zero address and the empty name ask for
nothing. -/
structure Fingerprint where
  src : Bytes
  mask : Bytes
  iface : Bytes
  matchIn : Bool
  matchOut : Bool

/-- What `insert_iface_accept` asks for, in one direction. -/
def acceptWanted (iface : Bytes) (isOut : Bool) : Wanted where
  ifaceIn := if isOut then [] else iface
  ifaceOut := if isOut then iface else []
  src := zeros 4
  srcMask := zeros 4
  targetName := acceptName

/-- What `ds_ipt_ensure_masquerade` asks for. -/
def masqueradeWanted (subnet : Subnet) : Wanted where
  ifaceIn := []
  ifaceOut := []
  src := subnet.addr
  srcMask := subnet.mask
  targetName := masqueradeName

/-- The ACCEPT rule of an interface in one direction. -/
def acceptFingerprint (iface : Bytes) (isOut : Bool) : Fingerprint where
  src := zeros 4
  mask := zeros 4
  iface := iface
  matchIn := !isOut
  matchOut := isOut

/-- The MASQUERADE rule of a subnet. -/
def masqueradeFingerprint (subnet : Subnet) : Fingerprint where
  src := subnet.addr
  mask := subnet.mask
  iface := []
  matchIn := false
  matchOut := false

/-- MASQUERADE for the subnet. -/
def isMasquerade (fp : Fingerprint) (e : Bytes) : Bool :=
  toNat fp.src != 0 && targetName e == masqueradeName && src e == fp.src && smsk e == fp.mask &&
    dst e == fp.src && dmsk e == fp.mask && (invflags e).testBit invDstIp

/-- ACCEPT on the interface, in a direction that is asked for. -/
def isAccept (fp : Fingerprint) (e : Bytes) : Bool :=
  !fp.iface.isEmpty && targetIsAccept e &&
    (fp.matchIn && ifaceExactMatch (iniface e) (inifaceMask e) fp.iface &&
        ifaceEmpty (outiface e) (outifaceMask e) ||
      fp.matchOut && ifaceExactMatch (outiface e) (outifaceMask e) fp.iface &&
        ifaceEmpty (iniface e) (inifaceMask e))

/-- The entry is taken for one of ours. -/
def isOurs (fp : Fingerprint) (e : Bytes) : Bool := isMasquerade fp e || isAccept fp e

/-- `hook_contains_offset` -/
def hookContainsOffset (T : Table) (hook : Hook) (offset : ℕ) : Bool :=
  T.validHooks hook && T.hookEntry hook ≤ offset && offset < T.underflow hook

theorem Represents.hookContainsOffset_iff {T : Table} {A : Ruleset} (h : Represents T A)
    (hook : Hook) {i : ℕ} (hi : i < A.rules.length) :
    hookContainsOffset T hook (A.offset i) = true ↔
      A.valid hook = true ∧ A.entry hook ≤ i ∧ i < A.last hook := by
  rw [hookContainsOffset, h.validHooks]
  rcases Bool.eq_false_or_eq_true (A.valid hook) with hvalid | hvalid
  · have hentry := h.valid.offset_le_offset (i := A.entry hook) hi
    have hlast := h.valid.offset_le_offset (i := A.last hook) hi
    simp only [hvalid, h.hookEntry hook hvalid, h.underflow hook hvalid, Bool.true_and,
      Bool.and_eq_true, decide_eq_true_eq, true_and]
    omega
  · simp [hvalid]

/-! ## What is read of an entry -/

section Congruence

variable {e e' : Bytes} (hfield : ∀ off n, off + n ≤ entrySize → field off n e' = field off n e)
  (hname : targetName e' = targetName e) (haccept : targetIsAccept e' = targetIsAccept e)
include hfield hname haccept

theorem isOurs_congr (fp : Fingerprint) : isOurs fp e' = isOurs fp e := by
  simp (disch := decide) only [isOurs, isMasquerade, isAccept, hname, haccept, src, dst, smsk,
    dmsk, invflags, iniface, outiface, inifaceMask, outifaceMask, hfield]

theorem isWanted_congr (w : Wanted) : isWanted w e' = isWanted w e := by
  simp (disch := decide) only [isWanted, hname, haccept, src, smsk, iniface, outiface, hfield]

end Congruence

section Entry

variable {e : Bytes} (h : IsEntry e)
include h

theorem IsEntry.targetIsAccept_append (rest : Bytes) :
    targetIsAccept (e ++ rest) = targetIsAccept e := by
  simp only [targetIsAccept, h.targetName_append, h.targetSize_append]
  rcases Nat.lt_or_ge (targetSize e) standardTargetSize with hsmall | hlarge
  · simp [Nat.not_le.2 hsmall]
  · rw [h.verdict_append hlarge]

theorem IsEntry.isOurs_append (fp : Fingerprint) (rest : Bytes) :
    isOurs fp (e ++ rest) = isOurs fp e :=
  isOurs_congr (fun _ _ hoff => h.field_append hoff rest) (h.targetName_append rest)
    (h.targetIsAccept_append rest) fp

theorem IsEntry.isWanted_append (w : Wanted) (rest : Bytes) :
    isWanted w (e ++ rest) = isWanted w e :=
  isWanted_congr (fun _ _ hoff => h.field_append hoff rest) (h.targetName_append rest)
    (h.targetIsAccept_append rest) w

section Jump

variable (hjump : isJump e = true) {v : ℤ} (hv : 0 ≤ v) (hhigh : v < 2 ^ 31)
include hjump hv hhigh

/-- The target of a jump is not read. -/
theorem IsEntry.targetIsAccept_setVerdict :
    targetIsAccept (setVerdict e v) = targetIsAccept e := by
  obtain ⟨hstandard, hverdict⟩ := Bool.and_eq_true_iff.1 hjump
  rw [decide_eq_true_eq] at hverdict
  have hold : (verdict e == acceptVerdict) = false :=
    beq_false_of_ne (by rw [acceptVerdict]; omega)
  have hnew : (verdict (setVerdict e v) == acceptVerdict) = false := by
    rw [h.verdict_setVerdict hstandard (by omega) hhigh]
    exact beq_false_of_ne (by rw [acceptVerdict]; omega)
  simp only [targetIsAccept, h.targetName_setVerdict hstandard, h.targetSize_setVerdict hstandard,
    hold, hnew]

theorem IsEntry.isOurs_setVerdict (fp : Fingerprint) :
    isOurs fp (setVerdict e v) = isOurs fp e :=
  have hstandard := (Bool.and_eq_true_iff.1 hjump).1
  isOurs_congr (fun _ _ hoff => h.header_setVerdict hstandard hoff v)
    (h.targetName_setVerdict hstandard v) (h.targetIsAccept_setVerdict hjump hv hhigh) fp

theorem IsEntry.isWanted_setVerdict (w : Wanted) :
    isWanted w (setVerdict e v) = isWanted w e :=
  have hstandard := (Bool.and_eq_true_iff.1 hjump).1
  isWanted_congr (fun _ _ hoff => h.header_setVerdict hstandard hoff v)
    (h.targetName_setVerdict hstandard v) (h.targetIsAccept_setVerdict hjump hv hhigh) w

end Jump

end Entry

section Encoded

variable {A : Ruleset} (hA : A.Valid) {r : Rule} (hr : r ∈ A.rules)
include hA hr

theorem Ruleset.Valid.isOurs_encode (fp : Fingerprint) :
    isOurs fp (A.encode r) = isOurs fp r.bytes := by
  unfold Ruleset.encode
  split
  · rfl
  · next i hi =>
    have hlt := hA.offset_lt i
    have hjump := hA.isJump r hr
    rw [hi, Option.isSome_some] at hjump
    exact (hA.isEntry r hr).isOurs_setVerdict hjump.symm (by omega) hlt fp

theorem Ruleset.Valid.isWanted_encode (w : Wanted) :
    isWanted w (A.encode r) = isWanted w r.bytes := by
  unfold Ruleset.encode
  split
  · rfl
  · next i hi =>
    have hlt := hA.offset_lt i
    have hjump := hA.isJump r hr
    rw [hi, Option.isSome_some] at hjump
    exact (hA.isEntry r hr).isWanted_setVerdict hjump.symm (by omega) hlt w

end Encoded

/-! ## What is made is found -/

section NewEntry

variable (h : Header) (t : Bytes)

theorem targetSize_entry : targetSize (h.entry t) = toNat (field 0 2 t) :=
  congrArg toNat (target_entry h t 0 2)

theorem targetName_entry : targetName (h.entry t) = cString (field 2 29 t) :=
  congrArg cString (target_entry h t 2 29)

theorem verdict_entry : verdict (h.entry t) = toInt32 (field targetHeaderSize 4 t) :=
  congrArg toInt32 (target_entry h t targetHeaderSize 4)

theorem isEntry_entry (hheader : targetHeaderSize ≤ t.length)
    (hfits : toNat (field 0 2 t) ≤ t.length) (hsmall : entrySize + t.length < 2 ^ 16) :
    IsEntry (h.entry t) where
  next := by rw [nextOffset_entry h t hsmall, length_entry]
  target_ge := by rw [targetOffset_entry]
  header_fits := by
    rw [targetOffset_entry, length_entry]
    omega
  target_fits := by
    rw [targetOffset_entry, targetSize_entry, length_entry]
    omega

end NewEntry

theorem cString_zeros (n : ℕ) : cString (zeros n) = [] := by
  cases n <;> simp [cString, zeros, List.replicate_succ]

theorem ifaceEmpty_zeros (m n : ℕ) : ifaceEmpty (zeros m) (zeros n) = true := by
  simp [ifaceEmpty, zeros]

section Interface

variable (iface : IfName)

theorem cString_padded : cString iface.padded = iface.bytes := by
  rw [cString, IfName.padded, List.takeWhile_append_of_pos]
  · have hzeros := cString_zeros (ifNameSize - iface.bytes.length)
    rw [cString] at hzeros
    rw [hzeros, List.append_nil]
  · intro b hb
    rw [bne_iff_ne]
    rintro rfl
    exact iface.no_nul hb

theorem ifaceExactMatch_padded : ifaceExactMatch iface.padded iface.mask iface.bytes = true := by
  have hne : iface.bytes ≠ [] := List.ne_nil_of_length_pos iface.length_pos
  have hlength : (List.replicate (iface.bytes.length + 1) (0xff : UInt8)).length =
      iface.bytes.length + 1 := List.length_replicate
  have htake : iface.mask.take (iface.bytes.length + 1) =
      List.replicate (iface.bytes.length + 1) 0xff := by
    rw [IfName.mask, List.take_left' hlength]
  have hdrop : iface.mask.drop (iface.bytes.length + 1) =
      zeros (ifNameSize - (iface.bytes.length + 1)) := by
    rw [IfName.mask, List.drop_left' hlength]
  simp [ifaceExactMatch, hne, iface.length_lt, cString_padded, htake, hdrop, zeros]

theorem isEntry_acceptRule (isOut : Bool) : IsEntry (acceptRule iface isOut) :=
  isEntry_entry _ _ (by decide) (by decide) (by decide)

theorem targetName_acceptRule (isOut : Bool) : targetName (acceptRule iface isOut) = [] := by
  rw [acceptRule, targetName_entry]
  decide

theorem verdict_acceptRule (isOut : Bool) : verdict (acceptRule iface isOut) = acceptVerdict := by
  rw [acceptRule, verdict_entry]
  decide

theorem targetIsAccept_acceptRule (isOut : Bool) :
    targetIsAccept (acceptRule iface isOut) = true := by
  rw [targetIsAccept, targetName_acceptRule, verdict_acceptRule, acceptRule, targetSize_entry]
  decide

theorem isJump_acceptRule (isOut : Bool) : isJump (acceptRule iface isOut) = false := by
  rw [isJump, verdict_acceptRule]
  exact Bool.and_false _

/-- The rule is taken for one of ours. -/
theorem isOurs_acceptRule (isOut : Bool) :
    isOurs (acceptFingerprint iface.bytes isOut) (acceptRule iface isOut) = true := by
  have hne : iface.bytes ≠ [] := List.ne_nil_of_length_pos iface.length_pos
  have haccept := targetIsAccept_acceptRule iface isOut
  rw [isOurs, isAccept, haccept, acceptRule, iniface_entry, outiface_entry, inifaceMask_entry,
    outifaceMask_entry]
  cases isOut <;>
    simp [acceptFingerprint, acceptHeader, hne, ifaceExactMatch_padded, ifaceEmpty_zeros]

/-- The rule is found. -/
theorem isWanted_acceptRule (isOut : Bool) :
    isWanted (acceptWanted iface.bytes isOut) (acceptRule iface isOut) = true := by
  have haccept := targetIsAccept_acceptRule iface isOut
  have htake : iface.bytes.take ifNameSize = iface.bytes :=
    List.take_of_length_le (Nat.le_of_lt iface.length_lt)
  have hsrc : toNat (zeros 4) = 0 := by decide
  rw [isWanted, haccept, acceptRule, iniface_entry, outiface_entry]
  cases isOut <;> simp [acceptWanted, acceptHeader, cString_padded, htake, hsrc]

end Interface

section Subnet

variable (subnet : Subnet)

theorem isEntry_masqueradeRule : IsEntry (masqueradeRule subnet) :=
  isEntry_entry _ _ (by decide) (by decide) (by decide)

theorem targetName_masqueradeRule : targetName (masqueradeRule subnet) = masqueradeName := by
  rw [masqueradeRule, targetName_entry]
  decide

theorem isJump_masqueradeRule : isJump (masqueradeRule subnet) = false := by
  rw [isJump, isStandard, targetName_masqueradeRule]
  simp [masqueradeName]

theorem src_masqueradeRule : src (masqueradeRule subnet) = subnet.addr := by
  show field 0 4 _ = _
  rw [masqueradeRule, address_entry _ _ (by decide)]
  exact field_here subnet.length_addr _

theorem dst_masqueradeRule : dst (masqueradeRule subnet) = subnet.addr := by
  show field (4 + 0) 4 _ = _
  rw [masqueradeRule, address_entry _ _ (by decide)]
  exact (field_skip subnet.length_addr _).trans (field_here subnet.length_addr _)

theorem smsk_masqueradeRule : smsk (masqueradeRule subnet) = subnet.mask := by
  show field (4 + (4 + 0)) 4 _ = _
  rw [masqueradeRule, address_entry _ _ (by decide)]
  exact (field_skip subnet.length_addr _).trans
    ((field_skip subnet.length_addr _).trans (field_here subnet.length_mask _))

theorem dmsk_masqueradeRule : dmsk (masqueradeRule subnet) = subnet.mask := by
  have hlast : field 0 4 subnet.mask = subnet.mask := List.take_of_length_le subnet.length_mask.le
  show field (4 + (4 + (4 + 0))) 4 _ = _
  rw [masqueradeRule, address_entry _ _ (by decide)]
  exact (field_skip subnet.length_addr _).trans
    ((field_skip subnet.length_addr _).trans ((field_skip subnet.length_mask _).trans hlast))

theorem isOurs_masqueradeRule (haddr : toNat subnet.addr ≠ 0) :
    isOurs (masqueradeFingerprint subnet) (masqueradeRule subnet) = true := by
  have hinv : invflags (masqueradeRule subnet) = 0x10 := invflags_entry _ _
  have hbit : Nat.testBit 0x10 invDstIp = true := by decide
  simp [isOurs, isMasquerade, masqueradeFingerprint, haddr, targetName_masqueradeRule,
    src_masqueradeRule, dst_masqueradeRule, smsk_masqueradeRule, dmsk_masqueradeRule, hinv, hbit]

theorem isWanted_masqueradeRule :
    isWanted (masqueradeWanted subnet) (masqueradeRule subnet) = true := by
  have hname : (masqueradeName == acceptName) = false := by decide
  simp [isWanted, masqueradeWanted, targetName_masqueradeRule, hname, src_masqueradeRule,
    smsk_masqueradeRule]

end Subnet

/-! ## A small filter table -/

/-- A policy. -/
def policyEntry (v : ℤ) : Bytes := plainHeader.entry (standardTarget v)

/-- The `ERROR` entry that ends a table. -/
def errorEntry : Bytes :=
  plainHeader.entry (ofNat 2 64 ++ ([69, 82, 82, 79, 82] ++ zeros 25) ++
    ([69, 82, 82, 79, 82] ++ zeros 27))

/-- INPUT and OUTPUT, which accept, and FORWARD with rules and a policy. -/
def filterWith (forward : List Rule) (policy : ℤ) : Ruleset where
  rules := ⟨policyEntry acceptVerdict, none⟩ :: forward ++
    [⟨policyEntry policy, none⟩, ⟨policyEntry acceptVerdict, none⟩, ⟨errorEntry, none⟩]
  valid h := h = .localIn ∨ h = .forward ∨ h = .localOut
  entry h := if h = .localIn then 0 else if h = .forward then 1 else forward.length + 2
  last h := if h = .localIn then 0 else if h = .forward then forward.length + 1
    else forward.length + 2

end Droidspaces.Netfilter
