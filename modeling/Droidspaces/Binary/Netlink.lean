import Droidspaces.Binary.Fields
import Mathlib.Algebra.Order.Ring.Int

/-!
# Netlink messages

A datagram holds messages one behind the other, and a message holds attributes; each begins with its
length and is padded to four bytes.  The loops that go through them are those of the macros
`NLMSG_OK`, `NLMSG_NEXT`, `RTA_OK` and `RTA_NEXT`, on a little-endian host: the rest of a datagram
is compared without its sign, so that a datagram that ends within its padding is read on, which is
`none` here.

`forMsgs_flatMap` and `attrs_flatMap` say that what was put one behind the other is gone through in
that order, and nothing else is looked at.
-/

namespace Netlink

open Binary

/-- `NLMSG_ALIGN` and `RTA_ALIGN` -/
def align (n : ℕ) : ℕ := (n + 3) / 4 * 4

theorem le_align (n : ℕ) : n ≤ align n := by
  rw [align]
  omega

theorem align_of_mod {n : ℕ} (h : n % 4 = 0) : align n = n := by
  rw [align]
  omega

theorem align_add_four (n : ℕ) : align (4 + n) = 4 + align n := by
  rw [align, align]
  omega

/-! ## Attributes -/

/-- `struct rtattr`, with its data. -/
structure Attr where
  type : ℕ
  data : Bytes
  deriving DecidableEq

namespace Attr

def encode (a : Attr) : Bytes :=
  ofNat 2 (4 + a.data.length) ++
    (ofNat 2 a.type ++ (a.data ++ List.replicate (align a.data.length - a.data.length) 0))

/-- What the two numbers of an attribute can hold. -/
structure Fits (a : Attr) : Prop where
  type_lt : a.type < 256 ^ 2
  length_lt : 4 + a.data.length < 256 ^ 2

theorem length_encode (a : Attr) : a.encode.length = align (4 + a.data.length) := by
  have h := le_align a.data.length
  rw [encode, align_add_four, List.length_append, List.length_append, List.length_append,
    length_ofNat, length_ofNat, List.length_replicate]
  omega

theorem length_flatMap_encode (as : List Attr) : (as.flatMap encode).length % 4 = 0 := by
  induction as with
  | nil => rfl
  | cons a as ih =>
    rw [List.flatMap_cons, List.length_append, length_encode, align]
    omega

end Attr

/-- The loop of `RTA_OK` and `RTA_NEXT`, in at most so many rounds. -/
def readAttrs : ℕ → Bytes → List Attr
  | 0, _ => []
  | fuel + 1, bs =>
    let len := toNat (field 0 2 bs)
    if 4 ≤ bs.length ∧ 4 ≤ len ∧ len ≤ bs.length then
      ⟨toNat (field 2 2 bs), field 4 (len - 4) bs⟩ :: readAttrs fuel (bs.drop (align len))
    else []

/-- The attributes that a loop over `bs` meets. -/
def attrs (bs : Bytes) : List Attr := readAttrs bs.length bs

section Attrs

variable {a : Attr} {as : List Attr}

theorem toNat_field_here {w v : ℕ} (h : v < 256 ^ w) (rest : Bytes) :
    toNat (field 0 w (ofNat w v ++ rest)) = v := by
  rw [field_here (length_ofNat w v), toNat_ofNat, Nat.mod_eq_of_lt h]

theorem readAttrs_encode {fuel : ℕ} (h : a.Fits) (rest : Bytes) :
    readAttrs (fuel + 1) (a.encode ++ rest) = a :: readAttrs fuel rest := by
  have hlen := a.length_encode
  have hle := le_align (4 + a.data.length)
  have hsize : toNat (field 0 2 (a.encode ++ rest)) = 4 + a.data.length := by
    rw [Attr.encode, List.append_assoc, toNat_field_here h.length_lt]
  have htype : toNat (field 2 2 (a.encode ++ rest)) = a.type := by
    rw [Attr.encode, List.append_assoc, field_next (length_ofNat 2 _), List.append_assoc,
      toNat_field_here h.type_lt]
  have hdata : field 4 a.data.length (a.encode ++ rest) = a.data := by
    have hfront : (ofNat 2 (4 + a.data.length) ++ ofNat 2 a.type).length = 4 := by
      rw [List.length_append, length_ofNat, length_ofNat]
    rw [Attr.encode, ← List.append_assoc, List.append_assoc, field_next hfront, List.append_assoc,
      field_here rfl]
  have hdrop : (a.encode ++ rest).drop (align (4 + a.data.length)) = rest :=
    List.drop_left' hlen
  have hfits : 4 + a.data.length ≤ (a.encode ++ rest).length := by
    rw [List.length_append]
    omega
  rw [readAttrs]
  simp only [hsize, htype, hdrop, Nat.add_sub_cancel_left, hdata]
  exact if_pos ⟨by omega, by omega, hfits⟩

theorem readAttrs_flatMap {fuel : ℕ} (h : ∀ a ∈ as, a.Fits) (hfuel : as.length ≤ fuel) :
    readAttrs fuel (as.flatMap Attr.encode) = as := by
  induction as generalizing fuel with
  | nil =>
    cases fuel with
    | zero => rfl
    | succ fuel =>
      rw [List.flatMap_nil, readAttrs]
      exact if_neg fun h => absurd h.1 (by decide)
  | cons a as ih =>
    obtain ⟨fuel, rfl⟩ := Nat.exists_eq_add_one.2 (Nat.lt_of_lt_of_le as.length.succ_pos hfuel)
    obtain ⟨ha, has⟩ := List.forall_mem_cons.1 h
    rw [List.flatMap_cons, readAttrs_encode ha, ih has (Nat.le_of_succ_le_succ hfuel)]

theorem length_le_flatMap_encode (as : List Attr) :
    as.length ≤ (as.flatMap Attr.encode).length := by
  induction as with
  | nil => exact Nat.zero_le _
  | cons a as ih =>
    have hle := le_align (4 + a.data.length)
    rw [List.flatMap_cons, List.length_append, Attr.length_encode, List.length_cons]
    omega

/-- **The attributes that were put one behind the other.** -/
theorem attrs_flatMap (h : ∀ a ∈ as, a.Fits) : attrs (as.flatMap Attr.encode) = as :=
  readAttrs_flatMap h (length_le_flatMap_encode as)

end Attrs

/-! ## Messages -/

/-- `struct nlmsghdr`, with what follows it. -/
structure Msg where
  type : ℕ
  flags : ℕ
  seq : ℕ
  pid : ℕ
  payload : Bytes
  deriving DecidableEq

namespace Msg

def encode (m : Msg) : Bytes :=
  ofNat 4 (16 + m.payload.length) ++
    (ofNat 2 m.type ++ (ofNat 2 m.flags ++ (ofNat 4 m.seq ++ (ofNat 4 m.pid ++ m.payload))))

/-- What the numbers of a message can hold; the message is padded. -/
structure Fits (m : Msg) : Prop where
  type_lt : m.type < 256 ^ 2
  flags_lt : m.flags < 256 ^ 2
  seq_lt : m.seq < 256 ^ 4
  pid_lt : m.pid < 256 ^ 4
  padded : m.payload.length % 4 = 0

theorem length_encode (m : Msg) : m.encode.length = 16 + m.payload.length := by
  simp only [encode, List.length_append, length_ofNat]
  omega

/-- The message of `len` bytes that is in front. -/
def read (len : ℕ) (bs : Bytes) : Msg where
  type := toNat (field 4 2 bs)
  flags := toNat (field 6 2 bs)
  seq := toNat (field 8 4 bs)
  pid := toNat (field 12 4 bs)
  payload := field 16 (len - 16) bs

theorem read_encode {m : Msg} (h : m.Fits) (rest : Bytes) :
    read (16 + m.payload.length) (m.encode ++ rest) = m := by
  have htype : toNat (field 4 2 (m.encode ++ rest)) = m.type := by
    simp only [encode, List.append_assoc]
    rw [field_next (length_ofNat 4 _), toNat_field_here h.type_lt]
  have hflags : toNat (field 6 2 (m.encode ++ rest)) = m.flags := by
    simp only [encode, List.append_assoc]
    rw [show 6 = 4 + 2 from rfl, field_skip (length_ofNat 4 _), field_next (length_ofNat 2 _),
      toNat_field_here h.flags_lt]
  have hseq : toNat (field 8 4 (m.encode ++ rest)) = m.seq := by
    simp only [encode, List.append_assoc]
    rw [show 8 = 4 + (2 + 2) from rfl, field_skip (length_ofNat 4 _), field_skip (length_ofNat 2 _),
      field_next (length_ofNat 2 _), toNat_field_here h.seq_lt]
  have hpid : toNat (field 12 4 (m.encode ++ rest)) = m.pid := by
    simp only [encode, List.append_assoc]
    rw [show 12 = 4 + (2 + (2 + 4)) from rfl, field_skip (length_ofNat 4 _),
      field_skip (length_ofNat 2 _), field_skip (length_ofNat 2 _), field_next (length_ofNat 4 _),
      toNat_field_here h.pid_lt]
  have hpayload : field 16 m.payload.length (m.encode ++ rest) = m.payload := by
    simp only [encode, List.append_assoc]
    rw [show 16 = 4 + (2 + (2 + (4 + 4))) from rfl, field_skip (length_ofNat 4 _),
      field_skip (length_ofNat 2 _), field_skip (length_ofNat 2 _), field_skip (length_ofNat 4 _),
      field_next (length_ofNat 4 _), field_here rfl]
  rw [read, Nat.add_sub_cancel_left, htype, hflags, hseq, hpid, hpayload]

end Msg

section Loop

variable {σ ρ : Type} (step : σ → Msg → Except ρ σ)

/-- The loop of `NLMSG_OK` and `NLMSG_NEXT`, in less than so many rounds, with the bytes that are
left and how many the loop takes them for.  An `error` leaves the loop.  It is `none` if a header or
a message is not all there. -/
def forMsgs : ℕ → ℤ → Bytes → σ → Option (Except ρ σ)
  | 0, _, _, _ => none
  | fuel + 1, n, bs, s =>
    let size := (n % 2 ^ 32).toNat
    if size < 16 then some (.ok s)
    else if bs.length < 16 then none
    else
      let len := toNat (field 0 4 bs)
      if len < 16 ∨ size < len then some (.ok s)
      else if bs.length < len then none
      else
        match step s (Msg.read len bs) with
        | .error r => some (.error r)
        | .ok s => forMsgs fuel (n - align len) (bs.drop (align len)) s

/-- **The messages that were put one behind the other.** -/
theorem forMsgs_flatMap {ms : List Msg} (h : ∀ m ∈ ms, m.Fits) {fuel : ℕ}
    (hfuel : ms.length < fuel) {n : ℤ} (hn : n = ((ms.flatMap Msg.encode).length : ℕ))
    (hlt : n < 2 ^ 32) (s : σ) :
    forMsgs step fuel n (ms.flatMap Msg.encode) s = some (ms.foldlM step s) := by
  induction ms generalizing fuel n s with
  | nil =>
    obtain ⟨fuel, rfl⟩ := Nat.exists_eq_add_one.2 hfuel
    rw [List.flatMap_nil, List.length_nil] at hn
    rw [forMsgs, hn]
    exact if_pos (by decide)
  | cons m ms ih =>
    obtain ⟨fuel, rfl⟩ := Nat.exists_eq_add_one.2 (Nat.zero_lt_of_lt hfuel)
    obtain ⟨hm, hms⟩ := List.forall_mem_cons.1 h
    have hpadded : align (16 + m.payload.length) = 16 + m.payload.length :=
      align_of_mod (by have := hm.padded; omega)
    have hlen := m.length_encode
    rw [List.flatMap_cons] at hn ⊢
    rw [List.length_append, hlen] at hn
    have hsize : (n % 2 ^ 32).toNat = 16 + m.payload.length + (ms.flatMap Msg.encode).length := by
      rw [Int.emod_eq_of_lt (by omega) hlt]
      omega
    have hhead : toNat (field 0 4 (m.encode ++ ms.flatMap Msg.encode)) = 16 + m.payload.length := by
      rw [Msg.encode, List.append_assoc, toNat_field_here (by omega)]
    have hdrop : (m.encode ++ ms.flatMap Msg.encode).drop (16 + m.payload.length) =
        ms.flatMap Msg.encode := List.drop_left' hlen
    rw [forMsgs]
    simp only [hsize, hhead, Msg.read_encode hm, hpadded, hdrop]
    rw [if_neg (by omega), if_neg (by rw [List.length_append]; omega), if_neg (by omega),
      if_neg (by rw [List.length_append]; omega), List.foldlM_cons]
    cases step s m with
    | error r => rfl
    | ok s => exact ih hms (Nat.lt_of_succ_lt_succ hfuel) (by omega) (by omega) s

end Loop

end Netlink
