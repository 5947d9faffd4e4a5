import Droidspaces.Netfilter.Rules

/-!
# What a rule asks of a packet

`condition` is everything that an entry asks of a packet before its target is run.  For a rule of
ours the fingerprint fixes a part of it; `condition_eq_iff` names the rest.
-/

namespace Droidspaces.Netfilter

open Binary

/-! ## Our rules -/

inductive Kind where
  | accept (iface : IfName) (isOut : Bool)
  | masquerade (subnet : Subnet)

namespace Kind

def rule : Kind → Bytes
  | accept iface isOut => acceptRule iface isOut
  | masquerade subnet => masqueradeRule subnet

def wanted : Kind → Wanted
  | accept iface isOut => acceptWanted iface.bytes isOut
  | masquerade subnet => masqueradeWanted subnet

def fingerprint : Kind → Fingerprint
  | accept iface isOut => acceptFingerprint iface.bytes isOut
  | masquerade subnet => masqueradeFingerprint subnet

theorem isEntry_rule (kind : Kind) : IsEntry kind.rule := by
  cases kind with
  | accept iface isOut => exact isEntry_acceptRule iface isOut
  | masquerade subnet => exact isEntry_masqueradeRule subnet

theorem isJump_rule (kind : Kind) : isJump kind.rule = false := by
  cases kind with
  | accept iface isOut => exact isJump_acceptRule iface isOut
  | masquerade subnet => exact isJump_masqueradeRule subnet

theorem isWanted_rule (kind : Kind) : isWanted kind.wanted kind.rule = true := by
  cases kind with
  | accept iface isOut => exact isWanted_acceptRule iface isOut
  | masquerade subnet => exact isWanted_masqueradeRule subnet

end Kind

/-! ## Conditions -/

/-- `IPT_F_FRAG`, as the place of its bit. -/
def fragmentFlag : ℕ := 0

/-- What counts of an interface name. -/
def masked (name mask : Bytes) : Bytes := List.zipWith (· &&& ·) name mask

structure Condition where
  /-- The match extensions, which stand between the header and the target. -/
  extensions : Bytes
  proto : ℕ
  fragment : Bool
  invflags : ℕ
  /-- Source, destination and their masks. -/
  addresses : Bytes
  inMask : Bytes
  inName : Bytes
  outMask : Bytes
  outName : Bytes
  deriving DecidableEq

def condition (e : Bytes) : Condition where
  extensions := field entrySize (targetOffset e - entrySize) e
  proto := proto e
  fragment := (flags e).testBit fragmentFlag
  invflags := invflags e
  addresses := field 0 16 e
  inMask := inifaceMask e
  inName := masked (iniface e) (inifaceMask e)
  outMask := outifaceMask e
  outName := masked (outiface e) (outifaceMask e)

/-! ## Packets -/

/-- What the header of an entry is compared with; names are as long as their fields. -/
structure Packet where
  src : Bytes
  dst : Bytes
  iniface : Bytes
  outiface : Bytes
  proto : ℕ
  /-- Not the first fragment of a packet. -/
  fragment : Bool
  length_src : src.length = 4
  length_dst : dst.length = 4
  length_iniface : iniface.length = ifNameSize
  length_outiface : outiface.length = ifNameSize

/-- The packet is what an entry asks for, its match extensions apart. -/
def headerMatches (e : Bytes) (p : Packet) : Bool :=
  (masked p.src (smsk e) == src e) != (invflags e).testBit invSrcIp &&
    (masked p.dst (dmsk e) == dst e) != (invflags e).testBit invDstIp &&
    (masked p.iniface (inifaceMask e) == masked (iniface e) (inifaceMask e)) !=
      (invflags e).testBit invViaIn &&
    (masked p.outiface (outifaceMask e) == masked (outiface e) (outifaceMask e)) !=
      (invflags e).testBit invViaOut &&
    (!(flags e).testBit fragmentFlag || p.fragment) != (invflags e).testBit invFrag &&
    (proto e == 0 || (p.proto == proto e) != (invflags e).testBit invProto)

/-- Entries with one condition match the same packets. -/
theorem headerMatches_congr {e e' : Bytes} (h : condition e = condition e') (p : Packet) :
    headerMatches e p = headerMatches e' p := by
  simp only [condition, Condition.mk.injEq] at h
  obtain ⟨-, hproto, hfragment, hinvflags, haddresses, hinMask, hin, houtMask, hout⟩ := h
  have haddress {off : ℕ} (hoff : off + 4 ≤ 16) : field off 4 e = field off 4 e' := by
    have hread (bs : Bytes) : field off 4 bs = field off 4 (field 0 16 bs) := by
      rw [field, field, field, List.drop_zero, List.drop_take, List.take_take,
        Nat.min_eq_left (by omega)]
    rw [hread e, haddresses, ← hread e']
  rw [hinMask] at hin
  rw [houtMask] at hout
  simp (disch := decide) only [headerMatches, hproto, hfragment, hinvflags, hinMask, hin,
    houtMask, hout, src, dst, smsk, dmsk, haddress]

/-- What a rule of ours is there for. -/
def Kind.packets : Kind → Packet → Prop
  | accept iface false, p => p.iniface = iface.padded
  | accept iface true, p => p.outiface = iface.padded
  | masquerade subnet, p => masked p.src subnet.mask = subnet.addr ∧
      masked p.dst subnet.mask ≠ subnet.addr

/-- The target of a rule of ours. -/
def Kind.hasTarget : Kind → Bytes → Prop
  | accept _ _, e => targetIsAccept e = true
  | masquerade _, e => targetName e = masqueradeName

/-- The entry does for all these packets what the rule does. -/
def Kind.InForce (kind : Kind) (e : Bytes) : Prop :=
  kind.hasTarget e ∧ targetOffset e = entrySize ∧
    ∀ p, kind.packets p → headerMatches e p = true

/-! ## What the fingerprint does not look at -/

/-- What the fingerprint does not look at is as in the rule that the code makes. -/
def Kind.Bare : Kind → Bytes → Prop
  | accept _ _, e => targetOffset e = entrySize ∧ proto e = 0 ∧
      (flags e).testBit fragmentFlag = false ∧ invflags e = 0 ∧ field 0 16 e = zeros 16
  | masquerade _, e => targetOffset e = entrySize ∧ proto e = 0 ∧
      (flags e).testBit fragmentFlag = false ∧ invflags e = 2 ^ invDstIp ∧
      inifaceMask e = zeros ifNameSize ∧ outifaceMask e = zeros ifNameSize

instance (kind : Kind) (e : Bytes) : Decidable (kind.Bare e) := by
  cases kind <;> exact inferInstanceAs (Decidable (_ ∧ _))

/-! ## Interface names -/

theorem and_ff (b : UInt8) : b &&& 0xff = b := by
  apply UInt8.toNat_inj.1
  rw [UInt8.toNat_and]
  exact (Nat.and_two_pow_sub_one_eq_mod b.toNat 8).trans (Nat.mod_eq_of_lt b.toNat_lt)

theorem masked_zeros {name : Bytes} {n : ℕ} (hlength : name.length = n) :
    masked name (zeros n) = zeros n := by
  induction name generalizing n with
  | nil =>
    obtain rfl := hlength.symm
    rfl
  | cons b name ih =>
    obtain rfl := hlength.symm
    have hrest := ih rfl
    simp only [masked, zeros, List.length_cons, List.replicate_succ, List.zipWith_cons_cons] at hrest ⊢
    rw [hrest, UInt8.and_zero]

/-- A mask of a whole prefix. -/
theorem masked_prefix {name : Bytes} {k n : ℕ} (hlength : name.length = k + n) :
    masked name (List.replicate k 0xff ++ zeros n) = name.take k ++ zeros n := by
  induction k generalizing name with
  | zero => exact masked_zeros (by omega)
  | succ k ih =>
    obtain ⟨b, name, rfl⟩ := List.exists_cons_of_length_pos (show 0 < name.length by omega)
    have hrest := ih (show name.length = k + n by rw [List.length_cons] at hlength; omega)
    simp only [masked, List.replicate_succ, List.cons_append, List.zipWith_cons_cons,
      List.take_succ_cons] at hrest ⊢
    rw [hrest, and_ff]

/-- A name with its end. -/
theorem take_of_cString {name iface : Bytes} (hname : cString name = iface)
    (hlength : iface.length < name.length) : name.take (iface.length + 1) = iface ++ [0] := by
  induction name generalizing iface with
  | nil => exact absurd hlength (Nat.not_lt_zero _)
  | cons b name ih =>
    rcases eq_or_ne b 0 with rfl | hb
    · obtain rfl : iface = [] := by simpa [cString] using hname.symm
      rfl
    · obtain rfl : b :: cString name = iface := by simpa [cString, hb] using hname
      rw [List.length_cons, List.take_succ_cons, ih rfl (Nat.lt_of_succ_lt_succ hlength)]
      rfl

section Exact

variable {name mask : Bytes} {iface : IfName} (hmask : mask.length = ifNameSize)
  (h : ifaceExactMatch name mask iface.bytes = true)
include hmask h

/-- An exact match has the mask of the rule that the code makes, and what counts of its name. -/
theorem mask_of_ifaceExactMatch : mask = iface.mask := by
  simp only [ifaceExactMatch, Bool.and_eq_true, List.all_eq_true, beq_iff_eq] at h
  obtain ⟨⟨-, hones⟩, hzeros⟩ := h
  have hlt := iface.length_lt
  have htake : mask.take (iface.bytes.length + 1) =
      List.replicate (iface.bytes.length + 1) 0xff := by
    refine List.eq_replicate_iff.2 ⟨?_, hones⟩
    rw [List.length_take]
    omega
  have hdrop : mask.drop (iface.bytes.length + 1) =
      zeros (ifNameSize - (iface.bytes.length + 1)) := by
    refine List.eq_replicate_iff.2 ⟨?_, hzeros⟩
    rw [List.length_drop, hmask]
  rw [← List.take_append_drop (iface.bytes.length + 1) mask, htake, hdrop, IfName.mask]

theorem masked_of_ifaceExactMatch (hname : name.length = ifNameSize) :
    masked name mask = masked iface.padded iface.mask := by
  have hlt := iface.length_lt
  have hlength : ifNameSize = iface.bytes.length + 1 + (ifNameSize - (iface.bytes.length + 1)) := by
    omega
  have hsame : cString name = iface.bytes := by
    simp only [ifaceExactMatch, Bool.and_eq_true, beq_iff_eq] at h
    exact h.1.1.2
  have hpadded := iface.length_padded
  rw [mask_of_ifaceExactMatch hmask h, IfName.mask, masked_prefix (by omega),
    masked_prefix (by omega), take_of_cString hsame (by omega),
    take_of_cString (cString_padded iface) (by omega)]

end Exact

theorem eq_zeros_of_ifaceEmpty {name mask : Bytes} (h : ifaceEmpty name mask = true) :
    name = zeros name.length ∧ mask = zeros mask.length := by
  simp only [ifaceEmpty, Bool.and_eq_true, List.all_eq_true, beq_iff_eq] at h
  exact ⟨List.eq_replicate_iff.2 ⟨rfl, h.1⟩, List.eq_replicate_iff.2 ⟨rfl, h.2⟩⟩

/-! ## What the fingerprint leaves open -/

theorem condition_entry (h : Header) (t : Bytes) : condition (h.entry t) =
    { extensions := []
      proto := 0
      fragment := false
      invflags := h.invflags.toNat
      addresses := h.addresses
      inMask := h.inifaceMask
      inName := masked h.iniface h.inifaceMask
      outMask := h.outifaceMask
      outName := masked h.outiface h.outifaceMask } := by
  have haddresses : field 0 16 (h.entry t) = h.addresses := field_here h.length_addresses _
  have hextensions : field entrySize (entrySize - entrySize) (h.entry t) = [] := List.take_zero
  have hfragment : Nat.testBit 0 fragmentFlag = false := by decide
  simp only [condition, targetOffset_entry, proto_entry, flags_entry, invflags_entry, haddresses,
    inifaceMask_entry, iniface_entry, outifaceMask_entry, outiface_entry, hextensions, hfragment]

section Open

variable {e : Bytes} (he : IsEntry e)
include he

theorem extensions_eq_nil_iff :
    field entrySize (targetOffset e - entrySize) e = [] ↔ targetOffset e = entrySize := by
  have hge := he.target_ge
  have hfits := he.header_fits
  have hlength : (field entrySize (targetOffset e - entrySize) e).length =
      targetOffset e - entrySize := length_field (by omega)
  rw [← List.length_eq_zero_iff, hlength]
  omega

/-- The interfaces of an entry that is taken for an ACCEPT rule of ours. -/
theorem ifaces_of_isOurs {iface : IfName} {isOut : Bool}
    (hours : isOurs (acceptFingerprint iface.bytes isOut) e = true) :
    inifaceMask e = (acceptHeader iface isOut).inifaceMask ∧
    masked (iniface e) (inifaceMask e) =
      masked (acceptHeader iface isOut).iniface (acceptHeader iface isOut).inifaceMask ∧
    outifaceMask e = (acceptHeader iface isOut).outifaceMask ∧
    masked (outiface e) (outifaceMask e) =
      masked (acceptHeader iface isOut).outiface (acceptHeader iface isOut).outifaceMask := by
  have hin : (iniface e).length = ifNameSize := he.length_header (by decide)
  have hout : (outiface e).length = ifNameSize := he.length_header (by decide)
  have hinMask : (inifaceMask e).length = ifNameSize := he.length_header (by decide)
  have houtMask : (outifaceMask e).length = ifNameSize := he.length_header (by decide)
  have hzero : toNat (zeros 4) = 0 := by decide
  cases isOut with
  | true =>
    have hmatch : ifaceExactMatch (outiface e) (outifaceMask e) iface.bytes = true ∧
        ifaceEmpty (iniface e) (inifaceMask e) = true := by
      simp [isOurs, isMasquerade, isAccept, acceptFingerprint, hzero] at hours
      exact hours.2
    obtain ⟨hname, hmask⟩ := eq_zeros_of_ifaceEmpty hmatch.2
    rw [hin] at hname
    rw [hinMask] at hmask
    refine ⟨hmask, ?_, mask_of_ifaceExactMatch houtMask hmatch.1, ?_⟩
    · rw [hname, hmask]
      rfl
    · exact masked_of_ifaceExactMatch houtMask hmatch.1 hout
  | false =>
    have hmatch : ifaceExactMatch (iniface e) (inifaceMask e) iface.bytes = true ∧
        ifaceEmpty (outiface e) (outifaceMask e) = true := by
      simp [isOurs, isMasquerade, isAccept, acceptFingerprint, hzero] at hours
      exact hours.2
    obtain ⟨hname, hmask⟩ := eq_zeros_of_ifaceEmpty hmatch.2
    rw [hout] at hname
    rw [houtMask] at hmask
    refine ⟨mask_of_ifaceExactMatch hinMask hmatch.1, ?_, hmask, ?_⟩
    · exact masked_of_ifaceExactMatch hinMask hmatch.1 hin
    · rw [hname, hmask]
      rfl

omit he in
/-- The addresses of an entry that is taken for a MASQUERADE rule of ours. -/
theorem addresses_of_isOurs {subnet : Subnet}
    (hours : isOurs (masqueradeFingerprint subnet) e = true) :
    field 0 16 e = (masqueradeHeader subnet).addresses := by
  have hmatch : src e = subnet.addr ∧ dst e = subnet.addr ∧ smsk e = subnet.mask ∧
      dmsk e = subnet.mask := by
    simp [isOurs, isMasquerade, isAccept, masqueradeFingerprint] at hours
    tauto
  have hsplit : field 0 16 e = src e ++ (dst e ++ (smsk e ++ dmsk e)) := by
    simp only [field, src, dst, smsk, dmsk]
    rw [show (16 : ℕ) = 4 + (4 + (4 + 4)) from rfl, List.take_add, List.take_add, List.take_add,
      List.drop_drop, List.drop_drop, List.drop_drop]
  rw [hsplit, hmatch.1, hmatch.2.1, hmatch.2.2.1, hmatch.2.2.2]
  rfl

/-- **An entry that is taken for ours** asks what our rule asks if it is `Bare`. -/
theorem condition_eq_iff {kind : Kind} (hours : isOurs kind.fingerprint e = true) :
    condition e = condition kind.rule ↔ kind.Bare e := by
  have hextensions := extensions_eq_nil_iff he
  cases kind with
  | accept iface isOut =>
    obtain ⟨hinMask, hin, houtMask, hout⟩ := ifaces_of_isOurs he hours
    rw [Kind.rule, acceptRule, condition_entry]
    rw [hinMask] at hin
    rw [houtMask] at hout
    simp only [condition, Condition.mk.injEq, hextensions, hinMask, houtMask, hin, hout, and_true]
    exact Iff.rfl
  | masquerade subnet =>
    have haddresses := addresses_of_isOurs hours
    have hin : (iniface e).length = ifNameSize := he.length_header (by decide)
    have hout : (outiface e).length = ifNameSize := he.length_header (by decide)
    rw [Kind.rule, masqueradeRule, condition_entry]
    simp only [condition, Condition.mk.injEq, hextensions, haddresses, true_and]
    constructor
    · rintro ⟨hoffset, hproto, hfragment, hinvflags, hinMask, -, houtMask, -⟩
      exact ⟨hoffset, hproto, hfragment, hinvflags, hinMask, houtMask⟩
    · rintro ⟨hoffset, hproto, hfragment, hinvflags, hinMask, houtMask⟩
      refine ⟨hoffset, hproto, hfragment, hinvflags, hinMask, ?_, houtMask, ?_⟩
      · rw [hinMask, masked_zeros hin]
        exact (masked_zeros (length_zeros _)).symm
      · rw [houtMask, masked_zeros hout]
        exact (masked_zeros (length_zeros _)).symm

end Open

/-- What a new entry asks for. -/
theorem headerMatches_entry (h : Header) (t : Bytes) (p : Packet) :
    headerMatches (h.entry t) p =
      ((masked p.src (field 8 4 h.addresses) == field 0 4 h.addresses) !=
          h.invflags.toNat.testBit invSrcIp &&
        (masked p.dst (field 12 4 h.addresses) == field 4 4 h.addresses) !=
          h.invflags.toNat.testBit invDstIp &&
        (masked p.iniface h.inifaceMask == masked h.iniface h.inifaceMask) !=
          h.invflags.toNat.testBit invViaIn &&
        (masked p.outiface h.outifaceMask == masked h.outiface h.outifaceMask) !=
          h.invflags.toNat.testBit invViaOut &&
        true != h.invflags.toNat.testBit invFrag) := by
  have hfragment : Nat.testBit 0 fragmentFlag = false := by decide
  simp (disch := decide) only [headerMatches, src, dst, smsk, dmsk, address_entry, invflags_entry,
    inifaceMask_entry, iniface_entry, outifaceMask_entry, outiface_entry, flags_entry, hfragment,
    proto_entry, Bool.not_false, Bool.true_or, beq_self_eq_true, Bool.and_true]

/-- Our rules do what they are there for. -/
theorem Kind.inForce_rule (kind : Kind) : kind.InForce kind.rule := by
  have hzeros {name : Bytes} {n : ℕ} (hlength : name.length = n) : masked name (zeros n) = zeros n :=
    masked_zeros hlength
  cases kind with
  | accept iface isOut =>
    refine ⟨targetIsAccept_acceptRule iface isOut, targetOffset_entry _ _, fun p hp => ?_⟩
    have haddress {off : ℕ} (hoff : off + 4 ≤ 16) : field off 4 (zeros 16) = zeros 4 := by
      rw [field, zeros, List.drop_replicate, List.take_replicate, Nat.min_eq_left (by omega)]
      rfl
    rw [Kind.rule, acceptRule, headerMatches_entry]
    cases isOut with
    | true =>
      obtain hp : p.outiface = iface.padded := hp
      simp (disch := decide) [acceptHeader, haddress, hzeros p.length_src, hzeros p.length_dst,
        hzeros p.length_iniface, hzeros (length_zeros ifNameSize), hp]
    | false =>
      obtain hp : p.iniface = iface.padded := hp
      simp (disch := decide) [acceptHeader, haddress, hzeros p.length_src, hzeros p.length_dst,
        hzeros p.length_outiface, hzeros (length_zeros ifNameSize), hp]
  | masquerade subnet =>
    refine ⟨targetName_masqueradeRule subnet, targetOffset_entry _ _, fun p hp => ?_⟩
    obtain ⟨hsrc, hdst⟩ := hp
    have hrule := headerMatches_entry (masqueradeHeader subnet) masqueradeTarget p
    have hfields : field 0 4 (masqueradeHeader subnet).addresses = subnet.addr ∧
        field 4 4 (masqueradeHeader subnet).addresses = subnet.addr ∧
        field 8 4 (masqueradeHeader subnet).addresses = subnet.mask ∧
        field 12 4 (masqueradeHeader subnet).addresses = subnet.mask := by
      simp (disch := decide) only [← address_entry _ masqueradeTarget]
      exact ⟨src_masqueradeRule subnet, dst_masqueradeRule subnet, smsk_masqueradeRule subnet,
        dmsk_masqueradeRule subnet⟩
    rw [hfields.1, hfields.2.1, hfields.2.2.1, hfields.2.2.2, hsrc, beq_false_of_ne hdst] at hrule
    refine hrule.trans ?_
    simp only [masqueradeHeader, hzeros p.length_iniface, hzeros p.length_outiface,
      hzeros (length_zeros ifNameSize), beq_self_eq_true]
    decide

end Droidspaces.Netfilter
