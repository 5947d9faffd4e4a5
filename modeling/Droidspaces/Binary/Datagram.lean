import Droidspaces.Binary.Checksum

/-!
# UDP datagrams in Ethernet frames

Where the fields of a frame stand if it carries a UDP datagram over IPv4, and when a receiver takes
it for one (`IsDatagram`): the frame holds all of the datagram, which is no fragment, and the header
is intact.  The checksum of UDP may be 0, for none, and is left to the receiver.

`isDatagram_append` puts a frame together from its headers, with no options in the header of IPv4.
-/

namespace Binary

/-- A number of `n` bytes in network order. -/
def numberAt (off n : ℕ) (bs : Bytes) : ℕ := ofBigEndian (field off n bs)

theorem ofBigEndian_lt (bs : Bytes) : ofBigEndian bs < 256 ^ bs.length := by
  have h := toNat_lt bs.reverse
  rwa [List.length_reverse] at h

/-- A number that was read is one that can be written. -/
theorem ofBigEndian_take_lt (n : ℕ) (bs : Bytes) : ofBigEndian (bs.take n) < 256 ^ n :=
  (ofBigEndian_lt _).trans_le (Nat.pow_le_pow_right (by decide) (List.length_take_le _ _))

theorem numberAt_append {off n : ℕ} {bs : Bytes} (h : off + n ≤ bs.length) (rest : Bytes) :
    numberAt off n (bs ++ rest) = numberAt off n bs := by
  rw [numberAt, field_append h, numberAt]

theorem numberAt_skip {k n : ℕ} {front : Bytes} (off : ℕ) (h : front.length = k) (rest : Bytes) :
    numberAt (k + off) n (front ++ rest) = numberAt off n rest := by
  rw [numberAt, field_skip h, numberAt]

theorem numberAt_bigEndian {n v : ℕ} (hv : v < 256 ^ n) (rest : Bytes) :
    numberAt 0 n (bigEndian n v ++ rest) = v := by
  rw [numberAt, field_here (length_bigEndian n v), ofBigEndian_bigEndian, Nat.mod_eq_of_lt hv]

namespace Datagram

/-! ## Where the fields stand -/

section Fields

variable (frame : Bytes)

def destMac : Bytes := field 0 6 frame

def sourceMac : Bytes := field 6 6 frame

def etherType : ℕ := numberAt 12 2 frame

/-- The length of the header of IPv4, with its options. -/
def headerLength : ℕ := numberAt 14 1 frame % 16 * 4

def totalLength : ℕ := numberAt 16 2 frame

def protocol : ℕ := numberAt 23 1 frame

def source : ℕ := numberAt 26 4 frame

def dest : ℕ := numberAt 30 4 frame

def sourcePort : ℕ := numberAt (14 + headerLength frame) 2 frame

def destPort : ℕ := numberAt (16 + headerLength frame) 2 frame

def udpLength : ℕ := numberAt (18 + headerLength frame) 2 frame

def udpChecksum : ℕ := numberAt (20 + headerLength frame) 2 frame

def payload : Bytes := field (22 + headerLength frame) (udpLength frame - 8) frame

end Fields

end Datagram

open Datagram

/-- A frame that a receiver takes for a UDP datagram. -/
structure IsDatagram (frame : Bytes) : Prop where
  etherType : etherType frame = 0x0800
  version : numberAt 14 1 frame / 16 = 4
  header : 20 ≤ headerLength frame
  fits : 14 + totalLength frame ≤ frame.length
  intact : Intact (field 14 (headerLength frame) frame)
  whole : numberAt 20 2 frame % 2 ^ 14 = 0
  protocol : protocol frame = 17
  udpHeader : 8 ≤ udpLength frame
  udpFits : headerLength frame + udpLength frame ≤ totalLength frame

instance (frame : Bytes) : Decidable (IsDatagram frame) :=
  decidable_of_iff
    (etherType frame = 0x0800 ∧ numberAt 14 1 frame / 16 = 4 ∧ 20 ≤ headerLength frame ∧
      14 + totalLength frame ≤ frame.length ∧ Intact (field 14 (headerLength frame) frame) ∧
      numberAt 20 2 frame % 2 ^ 14 = 0 ∧ protocol frame = 17 ∧ 8 ≤ udpLength frame ∧
      headerLength frame + udpLength frame ≤ totalLength frame)
    ⟨fun ⟨h₁, h₂, h₃, h₄, h₅, h₆, h₇, h₈, h₉⟩ => ⟨h₁, h₂, h₃, h₄, h₅, h₆, h₇, h₈, h₉⟩,
      fun h => ⟨h.1, h.2, h.3, h.4, h.5, h.6, h.7, h.8, h.9⟩⟩

/-! ## A frame from its headers -/

section Append

variable {eth ip udp data : Bytes}

theorem numberAt_ip (off : ℕ) {n : ℕ} (heth : eth.length = 14) (h : off + n ≤ ip.length)
    (rest : Bytes) :
    numberAt (14 + off) n (eth ++ (ip ++ rest)) = numberAt off n ip := by
  rw [numberAt_skip _ heth, numberAt_append h]

theorem headerLength_append (heth : eth.length = 14) (hip : ip.length = 20)
    (hfirst : numberAt 0 1 ip = 0x45) (rest : Bytes) : headerLength (eth ++ (ip ++ rest)) = 20 := by
  rw [headerLength, numberAt_ip 0 heth (by omega), hfirst]

theorem numberAt_udp (off : ℕ) {n : ℕ} (heth : eth.length = 14) (hip : ip.length = 20)
    (h : off + n ≤ udp.length) (rest : Bytes) :
    numberAt (34 + off) n (eth ++ (ip ++ (udp ++ rest))) = numberAt off n udp := by
  rw [show 34 + off = 14 + (20 + off) by omega, numberAt_skip _ heth, numberAt_skip _ hip,
    numberAt_append h]

/-- **What was put together is taken for a datagram**, with these fields. -/
theorem isDatagram_append (heth : eth.length = 14) (hip : ip.length = 20) (hudp : udp.length = 8)
    (htype : numberAt 12 2 eth = 0x0800) (hfirst : numberAt 0 1 ip = 0x45)
    (htotal : numberAt 2 2 ip = 28 + data.length) (hwhole : numberAt 6 2 ip % 2 ^ 14 = 0)
    (hprotocol : numberAt 9 1 ip = 17) (hintact : Intact ip)
    (hlen : numberAt 4 2 udp = 8 + data.length) :
    IsDatagram (eth ++ (ip ++ (udp ++ data))) ∧
      payload (eth ++ (ip ++ (udp ++ data))) = data := by
  have hheader := headerLength_append heth hip hfirst (udp ++ data)
  have htotal' : totalLength (eth ++ (ip ++ (udp ++ data))) = 28 + data.length := by
    rw [totalLength, numberAt_ip 2 heth (by omega), htotal]
  have hlen' : udpLength (eth ++ (ip ++ (udp ++ data))) = 8 + data.length := by
    rw [udpLength, hheader, numberAt_udp 4 heth hip (by omega), hlen]
  have hfield : field 14 20 (eth ++ (ip ++ (udp ++ data))) = ip := by
    rw [field_next heth, field_here hip]
  constructor
  · constructor
    · rw [etherType, numberAt_append (by omega), htype]
    · rw [numberAt_ip 0 heth (by omega), hfirst]
    · rw [hheader]
    · rw [htotal']
      simp only [List.length_append]
      omega
    · rw [hheader, hfield]
      exact hintact
    · rw [numberAt_ip 6 heth (by omega), hwhole]
    · rw [protocol, numberAt_ip 9 heth (by omega), hprotocol]
    · rw [hlen']
      omega
    · rw [hlen', htotal', hheader]
      omega
  · rw [payload, hheader, hlen', field, ← List.append_assoc, ← List.append_assoc,
      List.drop_left' (by simp only [List.length_append]; omega), List.take_of_length_le (by omega)]

end Append

end Binary
