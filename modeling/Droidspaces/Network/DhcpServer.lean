import Droidspaces.Binary.Codec
import Droidspaces.Binary.Datagram
import Droidspaces.Network.DhcpOptions

/-!
# The DHCP server of a container

The server takes every frame that its packet socket sees, which can be any bytes from anyone on the
bridge, and answers those of its own container with the one lease that it has.

`sends_lease` is about every run: each frame it sends answers one that the container itself sent,
and is a datagram with an intact header in which a client finds that lease.
-/

namespace Droidspaces.Dhcp

open Binary DhcpOption Datagram

/-! ## Packets -/

/-- `struct dhcp_pkt`, without its options. -/
structure DhcpPkt where
  op : ℕ
  htype : ℕ
  hlen : ℕ
  hops : ℕ
  xid : ℕ
  secs : ℕ
  flags : ℕ
  ciaddr : ℕ
  yiaddr : ℕ
  siaddr : ℕ
  giaddr : ℕ
  chaddr : Bytes
  sname : Bytes
  file : Bytes
  magic : ℕ
  deriving DecidableEq

def dhcpMagic : ℕ := 0x63825363

/-- `offsetof(struct dhcp_pkt, options)` -/
def optionsOffset : ℕ := 240

/-- `sizeof(req.options)` -/
def optionsSize : ℕ := 308

namespace DhcpPkt

open Codec

/-- The layout of the packet. -/
def codec : Codec DhcpPkt :=
  ((number 1).pair <| (number 1).pair <| (number 1).pair <| (number 1).pair <| (number 4).pair <|
    (number 2).pair <| (number 2).pair <| (number 4).pair <| (number 4).pair <| (number 4).pair <|
    (number 4).pair <| (slots 16 byte 0).pair <| (slots 64 byte 0).pair <|
    (slots 128 byte 0).pair (number 4)).map
  (fun (op, htype, hlen, hops, xid, secs, flags, ciaddr, yiaddr, siaddr, giaddr, chaddr, sname,
      file, magic) =>
    { op, htype, hlen, hops, xid, secs, flags, ciaddr, yiaddr, siaddr, giaddr, chaddr, sname,
      file, magic })
  (fun p => (p.op, p.htype, p.hlen, p.hops, p.xid, p.secs, p.flags, p.ciaddr, p.yiaddr, p.siaddr,
    p.giaddr, p.chaddr, p.sname, p.file, p.magic))

theorem size_codec : codec.size = optionsOffset := rfl

end DhcpPkt

/-! ## Replies -/

/-- `struct ds_dhcp_ctx_t`. -/
structure ServerCtx extends DhcpCtx where
  offerIp : ℕ
  serverMac : Bytes
  offer_lt : offerIp < 256 ^ 4
  gw_lt : gwIp < 256 ^ 4
  netmask_lt : netmask < 256 ^ 4
  dns1_lt : dns1 < 256 ^ 4
  dns2_lt : dns2 < 256 ^ 4
  length_mac : serverMac.length = 6

/-- What `build_reply` puts in front of the options. -/
def replyPkt (req : DhcpPkt) (ctx : ServerCtx) : DhcpPkt where
  op := 2
  htype := 1
  hlen := req.hlen
  hops := 0
  xid := req.xid
  secs := 0
  flags := req.flags
  ciaddr := 0
  yiaddr := ctx.offerIp
  siaddr := ctx.gwIp
  giaddr := 0
  chaddr := req.chaddr
  sname := List.replicate 64 0
  file := List.replicate 128 0
  magic := dhcpMagic

/-- As much of the reply of `build_reply` as is sent. -/
def replyBytes (msgType : UInt8) (req : DhcpPkt) (ctx : ServerCtx) : Bytes :=
  let options := buildReply msgType ctx.toDhcpCtx
  DhcpPkt.codec.put (replyPkt req ctx) ++ options.1.take options.2

/-- `checksum`; the sum is kept in 32 bits. -/
def checksum (data : Bytes) : ℕ := 65535 - foldCarry (wordSum data % 2 ^ 32)

def ethHeader (req : DhcpPkt) (ctx : ServerCtx) : Bytes :=
  req.chaddr.take 6 ++ ctx.serverMac ++ bigEndian 2 0x0800

/-- The header of IPv4 in `send_reply`. -/
def ipHeader (ctx : ServerCtx) (pktLen : ℕ) (check : Bytes) : Bytes :=
  [0x45, 0x10] ++ bigEndian 2 (20 + 8 + pktLen) ++ [0, 0, 0, 0, 64, 17] ++ check ++
    (bigEndian 4 ctx.gwIp ++ [255, 255, 255, 255])

def udpHeader (pktLen : ℕ) : Bytes :=
  bigEndian 2 67 ++ bigEndian 2 68 ++ bigEndian 2 (8 + pktLen) ++ [0, 0]

/-- `send_reply`: the frame that it hands to `sendto`. -/
def sendReply (pkt : Bytes) (req : DhcpPkt) (ctx : ServerCtx) : Option Bytes :=
  if 2048 < 14 + 20 + 8 + pkt.length then none
  else
    let check := checksum (ipHeader ctx pkt.length [0, 0])
    some (ethHeader req ctx ++
      (ipHeader ctx pkt.length (ofNat 2 check) ++ (udpHeader pkt.length ++ pkt)))

/-! ## Requests -/

/-- `memcpy` from what was received: nothing if not all of it was. -/
def readAt (off n : ℕ) (bs : Bytes) : Option Bytes :=
  if off + n ≤ bs.length then some (field off n bs) else none

/-- The checks of `dhcp_server_loop` on what was received: the request and its options, or nothing
if the frame is dropped. -/
def readRequest (rxBuf : Bytes) : Option (Option (DhcpPkt × Bytes)) := do
  if rxBuf.length < 14 + 20 + 8 then some none
  else
    let eth ← readAt 0 14 rxBuf
    if numberAt 12 2 eth ≠ 0x0800 then some none
    else
      let ip ← readAt 14 20 rxBuf
      if numberAt 9 1 ip ≠ 17 ∨ numberAt 0 1 ip % 16 < 5 then some none
      else
        let ipHdrLen := numberAt 0 1 ip % 16 * 4
        if rxBuf.length < 14 + ipHdrLen + 8 then some none
        else
          let udp ← readAt (14 + ipHdrLen) 8 rxBuf
          if numberAt 2 2 udp ≠ 67 then some none
          else
            let payloadOff := 14 + ipHdrLen + 8
            let reqLen := rxBuf.length - payloadOff
            if reqLen < optionsOffset then some none
            else
              let reqLen := min reqLen (optionsOffset + optionsSize)
              let req ← readAt payloadOff reqLen rxBuf
              let pkt := DhcpPkt.codec.get req
              if pkt.magic ≠ dhcpMagic then some none
              else if pkt.op ≠ 1 then some none
              else some (some (pkt, req.drop optionsOffset))

/-- The dispatch of `dhcp_server_loop`: the type of the reply, if there is one. -/
def replyType (ctx : ServerCtx) (opts : Bytes) : Option (Option UInt8) := do
  match ← optGet opts 53 1 with
  | none => some none
  | some (_, type) =>
    if type.headD 0 = 1 then some (some 2)
    else if type.headD 0 = 3 then
      match ← optGet opts 54 4 with
      | some (4, sid) => some (if sid = bigEndian 4 ctx.gwIp then some 5 else none)
      | _ => some (some 5)
    else some none

/-! ## The loop -/

/-- A frame as `recvfrom` finds it: the interface it came in on, and whether the host sent it. -/
structure Rx where
  ifindex : ℕ
  outgoing : Bool
  frame : Bytes

/-- What a round of the loop meets.  A failing call may be one that is tried again. -/
inductive Event
  | stop
  | pollFails (again : Bool)
  | idle
  | recvFails (again : Bool)
  | received (rx : Rx)

/-- What is sent for a frame. -/
def handle (ctx : ServerCtx) (ifindex : ℕ) (rx : Rx) : Option (Option Bytes) := do
  if rx.ifindex ≠ ifindex then some none
  else if rx.outgoing then some none
  else
    match ← readRequest (rx.frame.take 2048) with
    | none => some none
    | some (req, opts) =>
      match ← replyType ctx opts with
      | none => some none
      | some type => some (sendReply (replyBytes type req ctx) req ctx)

/-- `dhcp_server_loop`: the frames that are sent. -/
def serverLoop (ctx : ServerCtx) (ifindex : ℕ) : List Event → Option (List Bytes)
  | [] => some []
  | .stop :: _ => some []
  | .pollFails again :: events | .recvFails again :: events =>
    if again then serverLoop ctx ifindex events else some []
  | .idle :: events => serverLoop ctx ifindex events
  | .received rx :: events => do
    let sent ← handle ctx ifindex rx
    let later ← serverLoop ctx ifindex events
    some (sent.toList ++ later)

/-! ## What is taken for a request -/

section Request

variable (bs : Bytes)

/-- Where the packet begins. -/
def payloadOffset : ℕ := 22 + headerLength bs

/-- As much of the packet as `struct dhcp_pkt` has room for. -/
def requestBytes : Bytes := field (payloadOffset bs) (optionsOffset + optionsSize) bs

def requestPkt : DhcpPkt := DhcpPkt.codec.get (requestBytes bs)

def requestOptions : Bytes := (requestBytes bs).drop optionsOffset

/-- What the checks ask of a frame. -/
structure IsRequest : Prop where
  etherType : etherType bs = 0x0800
  protocol : protocol bs = 17
  header : 20 ≤ headerLength bs
  port : destPort bs = 67
  fits : payloadOffset bs + optionsOffset ≤ bs.length
  magic : (requestPkt bs).magic = dhcpMagic
  op : (requestPkt bs).op = 1

instance : Decidable (IsRequest bs) :=
  decidable_of_iff
    (Datagram.etherType bs = 0x0800 ∧ Datagram.protocol bs = 17 ∧ 20 ≤ headerLength bs ∧
      destPort bs = 67 ∧ payloadOffset bs + optionsOffset ≤ bs.length ∧
      (requestPkt bs).magic = dhcpMagic ∧ (requestPkt bs).op = 1)
    ⟨fun ⟨h₁, h₂, h₃, h₄, h₅, h₆, h₇⟩ => ⟨h₁, h₂, h₃, h₄, h₅, h₆, h₇⟩,
      fun h => ⟨h.1, h.2, h.3, h.4, h.5, h.6, h.7⟩⟩

end Request

theorem readAt_eq {off n : ℕ} {bs : Bytes} (h : off + n ≤ bs.length) :
    readAt off n bs = some (field off n bs) := if_pos h

theorem numberAt_field {off n i w : ℕ} (h : i + w ≤ n) (bs : Bytes) :
    numberAt i w (field off n bs) = numberAt (off + i) w bs := by
  rw [numberAt, numberAt, field, field, field, List.drop_take, List.take_take, List.drop_drop,
    Nat.min_eq_left (by omega)]

/-- A check that drops nothing that is a request. -/
theorem check_eq {α : Type} {c p : Prop} [Decidable c] [Decidable p] {rest : Option (Option α)}
    {a : α} (hdrop : p → ¬ c) (hrest : ¬ c → rest = some (if p then some a else none)) :
    (if c then some none else rest) = some (if p then some a else none) := by
  split
  · next hc => rw [if_neg fun hp => hdrop hp hc]
  · next hc => exact hrest hc

/-- **The checks read nothing that was not received**, whatever was. -/
theorem readRequest_eq (bs : Bytes) :
    readRequest bs =
      some (if IsRequest bs then some (requestPkt bs, requestOptions bs) else none) := by
  have hheader (h : 34 ≤ bs.length) : numberAt 0 1 (field 14 20 bs) % 16 * 4 = headerLength bs := by
    rw [numberAt_field (by decide), headerLength]
  refine check_eq (fun h => ?_) fun h42 => ?_
  · have hfits := h.fits
    rw [payloadOffset, optionsOffset] at hfits
    omega
  rw [readAt_eq (by omega), Option.bind_eq_bind, Option.bind_some, numberAt_field (by decide)]
  refine check_eq (fun h => not_not.2 h.etherType) fun htype => ?_
  rw [readAt_eq (by omega), Option.bind_some]
  have hprotocol : numberAt 9 1 (field 14 20 bs) = protocol bs := numberAt_field (by decide) bs
  refine check_eq (fun h => ?_) fun hip => ?_
  · have hlen := h.header
    rw [hprotocol, h.protocol, ← hheader (by omega)] at *
    omega
  simp only [hheader (show 34 ≤ bs.length by omega)]
  refine check_eq (fun h => ?_) fun hudp => ?_
  · have hfits := h.fits
    rw [payloadOffset, optionsOffset] at hfits
    omega
  have hport : numberAt 2 2 (field (14 + headerLength bs) 8 bs) = destPort bs := by
    have hoff : 14 + headerLength bs + 2 = 16 + headerLength bs := by omega
    rw [numberAt_field (by decide), destPort, hoff]
  rw [readAt_eq (by omega), Option.bind_some, hport]
  refine check_eq (fun h => not_not.2 h.port) fun hport => ?_
  have hoff : 14 + headerLength bs + 8 = payloadOffset bs := by
    rw [payloadOffset]
    omega
  simp only [hoff]
  refine check_eq (fun h => ?_) fun hlen => ?_
  · have hfits := h.fits
    omega
  have hbytes : field (payloadOffset bs)
      (min (bs.length - payloadOffset bs) (optionsOffset + optionsSize)) bs = requestBytes bs := by
    have hall : (bs.drop (payloadOffset bs)).take (bs.length - payloadOffset bs) =
        bs.drop (payloadOffset bs) := List.take_of_length_le List.length_drop.le
    rw [requestBytes, field, field, Nat.min_comm, ← List.take_take, hall]
  rw [readAt_eq (by omega), Option.bind_some, hbytes]
  refine check_eq (fun h => not_not.2 h.magic) fun hmagic => ?_
  refine check_eq (fun h => not_not.2 h.op) fun hop => ?_
  have hrequest : IsRequest bs :=
    { etherType := not_not.1 htype
      protocol := hprotocol.symm.trans (by omega)
      header := by
        rw [← hheader (by omega)]
        omega
      port := not_not.1 hport
      fits := by omega
      magic := not_not.1 hmagic
      op := not_not.1 hop }
  rw [if_pos hrequest]
  rfl

/-! ## What reaches the container -/

/-- The frame carries a packet to the client of a request. -/
structure Carries (ctx : ServerCtx) (req : DhcpPkt) (pkt frame : Bytes) : Prop where
  isDatagram : IsDatagram frame
  destMac : destMac frame = req.chaddr.take 6
  sourceMac : sourceMac frame = ctx.serverMac
  source : source frame = ctx.gwIp
  dest : dest frame = 0xFFFFFFFF
  sourcePort : sourcePort frame = 67
  destPort : destPort frame = 68
  unchecked : udpChecksum frame = 0
  payload : payload frame = pkt

theorem checksum_eq {data : Bytes} (h : data.length ≤ 65536) :
    checksum data = 65535 - foldCarry (wordSum data) := by
  have hle := wordSum_le data
  rw [checksum, Nat.mod_eq_of_lt (by omega)]

section Send

variable {ctx : ServerCtx} {req : DhcpPkt} {pkt : Bytes}

theorem length_ipHeader {pktLen : ℕ} {check : Bytes} (h : check.length = 2) :
    (ipHeader ctx pktLen check).length = 20 := by
  simp [ipHeader, h]

theorem length_udpHeader (pktLen : ℕ) : (udpHeader pktLen).length = 8 := by
  simp [udpHeader]

theorem length_ethHeader (h : 6 ≤ req.chaddr.length) : (ethHeader req ctx).length = 14 := by
  simp [ethHeader, ctx.length_mac, h]

/-- **The checksum that is put into the header is right.** -/
theorem intact_ipHeader (pktLen : ℕ) :
    Intact (ipHeader ctx pktLen (ofNat 2 (checksum (ipHeader ctx pktLen [0, 0])))) := by
  have hlen : ([0x45, 0x10] ++ bigEndian 2 (20 + 8 + pktLen) ++ [0, 0, 0, 0, 64, 17] :
      Bytes).length % 2 = 0 := by simp
  rw [checksum_eq ((length_ipHeader rfl).trans_le (by decide)), ipHeader, ipHeader,
    List.append_assoc _ _ (bigEndian 4 ctx.gwIp ++ _),
    List.append_assoc _ _ (bigEndian 4 ctx.gwIp ++ _)]
  exact intact_of_complement hlen

/-- **What `send_reply` sends is a datagram for the client, with the packet in it.** -/
theorem exists_sendReply (hmac : 6 ≤ req.chaddr.length) (hpkt : pkt.length ≤ 2006) :
    ∃ frame, sendReply pkt req ctx = some frame ∧ Carries ctx req pkt frame := by
  have heth : (ethHeader req ctx).length = 14 := length_ethHeader hmac
  have hmac6 : (req.chaddr.take 6).length = 6 := List.length_take_of_le hmac
  set check := ofNat 2 (checksum (ipHeader ctx pkt.length [0, 0]))
  have hip : (ipHeader ctx pkt.length check).length = 20 := length_ipHeader (length_ofNat 2 _)
  have hudp := length_udpHeader pkt.length
  have htype : numberAt 12 2 (ethHeader req ctx) = 0x0800 := by
    rw [ethHeader, numberAt_skip 0 (by rw [List.length_append, hmac6, ctx.length_mac])]
    rfl
  have hfirst : numberAt 0 1 (ipHeader ctx pkt.length check) = 0x45 := by
    simp only [ipHeader, List.append_assoc]
    exact numberAt_append (by decide) _
  have htotal : numberAt 2 2 (ipHeader ctx pkt.length check) = 28 + pkt.length := by
    simp only [ipHeader, List.append_assoc]
    rw [numberAt_skip 0 (k := 2) rfl, numberAt_bigEndian (by omega)]
  have hwhole : numberAt 6 2 (ipHeader ctx pkt.length check) % 2 ^ 14 = 0 := by
    simp only [ipHeader, List.append_assoc]
    rw [numberAt_skip 4 (k := 2) rfl, numberAt_skip 2 (length_bigEndian 2 _),
      numberAt_append (by decide)]
    rfl
  have hprotocol : numberAt 9 1 (ipHeader ctx pkt.length check) = 17 := by
    simp only [ipHeader, List.append_assoc]
    rw [numberAt_skip 7 (k := 2) rfl, numberAt_skip 5 (length_bigEndian 2 _),
      numberAt_append (by decide)]
    rfl
  have hlen : numberAt 4 2 (udpHeader pkt.length) = 8 + pkt.length := by
    simp only [udpHeader, List.append_assoc]
    rw [numberAt_skip 2 (length_bigEndian 2 _),
      numberAt_skip 0 (length_bigEndian 2 _), numberAt_bigEndian (by omega)]
  obtain ⟨hdatagram, hpayload⟩ := isDatagram_append heth hip hudp htype hfirst htotal hwhole
    hprotocol (intact_ipHeader pkt.length) hlen
  have hheader := headerLength_append heth hip hfirst (udpHeader pkt.length ++ pkt)
  refine ⟨_, if_neg (by omega), hdatagram, ?_, ?_, ?_, ?_, ?_, ?_, ?_, hpayload⟩
  · rw [destMac, ethHeader, List.append_assoc, List.append_assoc, field_here hmac6]
  · rw [sourceMac, ethHeader, List.append_assoc, List.append_assoc, field_next hmac6,
      field_here ctx.length_mac]
  · rw [source, numberAt_ip 12 heth (Nat.le_trans (by decide) hip.ge)]
    simp only [ipHeader, List.append_assoc]
    rw [numberAt_skip 10 (k := 2) rfl, numberAt_skip 8 (length_bigEndian 2 _),
      numberAt_skip 2 (k := 6) rfl, numberAt_skip 0 (length_ofNat 2 _),
      numberAt_bigEndian ctx.gw_lt]
  · rw [dest, numberAt_ip 16 heth hip.ge]
    simp only [ipHeader, List.append_assoc]
    rw [numberAt_skip 14 (k := 2) rfl, numberAt_skip 12 (length_bigEndian 2 _),
      numberAt_skip 6 (k := 6) rfl, numberAt_skip 4 (length_ofNat 2 _),
      numberAt_skip 0 (length_bigEndian 4 _)]
    rfl
  · rw [sourcePort, hheader, numberAt_udp 0 heth hip (by omega)]
    simp only [udpHeader, List.append_assoc]
    rw [numberAt_bigEndian (by decide)]
  · rw [destPort, hheader, numberAt_udp 2 heth hip (by omega)]
    simp only [udpHeader, List.append_assoc]
    rw [numberAt_skip 0 (length_bigEndian 2 _), numberAt_bigEndian (by decide)]
  · rw [udpChecksum, hheader, numberAt_udp 6 heth hip (by omega)]
    simp only [udpHeader, List.append_assoc]
    rw [numberAt_skip 4 (length_bigEndian 2 _),
      numberAt_skip 2 (length_bigEndian 2 _),
      numberAt_skip 0 (length_bigEndian 2 _)]
    rfl

end Send

/-! ## The lease -/

/-- What a client takes from a reply. -/
structure Lease where
  msgType : ℕ
  xid : ℕ
  flags : ℕ
  chaddr : Bytes
  address : ℕ
  server : ℕ
  leaseTime : ℕ
  renewal : ℕ
  rebinding : ℕ
  netmask : ℕ
  router : ℕ
  dns : List ℕ
  deriving DecidableEq

/-- An option that is a number of `w` bytes. -/
def optNumber (opts : Bytes) (code : UInt8) (w : ℕ) : Option ℕ :=
  match optGet opts code w with
  | some (some (len, data)) => if len = w then some (ofBigEndian data) else none
  | _ => none

/-- The servers of option 6. -/
def optServers (opts : Bytes) : List ℕ :=
  match optGet opts 6 255 with
  | some (some (_, data)) => (Codec.number 4).getAll data
  | _ => []

/-- A client reads the payload of a datagram. -/
def readLease (data : Bytes) : Option Lease := do
  let pkt := DhcpPkt.codec.get data
  let opts := data.drop optionsOffset
  if data.length < optionsOffset ∨ pkt.op ≠ 2 ∨ pkt.magic ≠ dhcpMagic then none
  else
    some
      { msgType := ← optNumber opts 53 1
        xid := pkt.xid
        flags := pkt.flags
        chaddr := pkt.chaddr
        address := pkt.yiaddr
        server := ← optNumber opts 54 4
        leaseTime := ← optNumber opts 51 4
        renewal := ← optNumber opts 58 4
        rebinding := ← optNumber opts 59 4
        netmask := ← optNumber opts 1 4
        router := ← optNumber opts 3 4
        dns := optServers opts }

/-- The one lease of a server, as the reply to a request. -/
def ServerCtx.lease (ctx : ServerCtx) (msgType : UInt8) (req : DhcpPkt) : Lease where
  msgType := msgType.toNat
  xid := req.xid
  flags := req.flags
  chaddr := req.chaddr
  address := ctx.offerIp
  server := ctx.gwIp
  leaseTime := 86400
  renewal := 43200
  rebinding := 75600
  netmask := ctx.netmask
  router := ctx.gwIp
  dns := if ctx.dns1 = 0 then [] else ctx.dns1 :: if ctx.dns2 = 0 then [] else [ctx.dns2]

/-- What a request has to hold so that it can be echoed. -/
structure DhcpPkt.Echoes (req : DhcpPkt) : Prop where
  hlen : req.hlen < 256 ^ 1
  xid : req.xid < 256 ^ 4
  flags : req.flags < 256 ^ 2
  chaddr : req.chaddr.length = 16

theorem DhcpPkt.echoes_get (bs : Bytes) : (DhcpPkt.codec.get bs).Echoes where
  hlen := ofBigEndian_take_lt 1 _
  xid := ofBigEndian_take_lt 4 _
  flags := ofBigEndian_take_lt 2 _
  chaddr := Codec.length_getSlots Codec.byte 16 _

section Lease

variable {ctx : ServerCtx} {req : DhcpPkt} {msgType : UInt8}

theorem DhcpPkt.Echoes.fits_replyPkt (h : req.Echoes) :
    DhcpPkt.codec.Fits (replyPkt req ctx) := by
  have hbytes (bs : Bytes) : ∀ b ∈ bs, Codec.byte.Fits b := fun b _ => Codec.byte_fits b
  have hmagic : dhcpMagic < 256 ^ 4 := by decide
  have hzero (w : ℕ) : 0 < 256 ^ w := Nat.pow_pos (by decide)
  exact ⟨⟨show 2 < 256 ^ 1 by decide, show 1 < 256 ^ 1 by decide, h.hlen, hzero 1, h.xid, hzero 2,
    h.flags, hzero 4, ctx.offer_lt, ctx.gw_lt, hzero 4, ⟨h.chaddr, hbytes _⟩,
    ⟨List.length_replicate, hbytes _⟩, ⟨List.length_replicate, hbytes _⟩, hmagic⟩, rfl⟩

/-- What `opt_get` finds of a number of four bytes. -/
theorem optNumber_eq {opts : Bytes} {code : UInt8} {v : ℕ} (hv : v < 256 ^ 4)
    (h : optGet opts code 4 = some (some (4, bigEndian 4 v))) : optNumber opts code 4 = some v := by
  rw [optNumber, h]
  simp only [if_true, ofBigEndian_bigEndian, Nat.mod_eq_of_lt hv]

theorem optServers_eq {opts : Bytes} {servers : List ℕ} (hlt : ∀ v ∈ servers, v < 256 ^ 4)
    {len : ℕ} (h : optGet opts 6 255 = some (some (len, servers.flatMap (bigEndian 4)))) :
    optServers opts = servers := by
  rw [optServers, h]
  exact (Codec.number 4).getAll_flatMap (by decide) hlt

theorem drop_replyBytes :
    (replyBytes msgType req ctx).drop optionsOffset =
      (buildReply msgType ctx.toDhcpCtx).1.take (buildReply msgType ctx.toDhcpCtx).2 :=
  DhcpPkt.codec.drop_put _ _

/-- What a client finds under a code. -/
theorem optGet_replyBytes (code : UInt8) (maxLen : ℕ) :
    optGet ((replyBytes msgType req ctx).drop optionsOffset) code maxLen =
      some (lookup (replyOptions msgType ctx.toDhcpCtx) code maxLen) := by
  rw [drop_replyBytes, optGet_buildReply]

theorem lookup_u32 {o : DhcpOption} {options : List DhcpOption} {code : UInt8} {v : ℕ}
    (h : options.find? (fun o => o.code = code) = some o) (hdata : o.data = bigEndian 4 v) :
    lookup options code 4 = some (4, bigEndian 4 v) := by
  rw [lookup, h, Option.map_some, hdata, length_bigEndian,
    List.take_of_length_le (length_bigEndian 4 v).le]

theorem find_dns (ctx : DhcpCtx) :
    (replyOptions msgType ctx).find? (fun o => o.code = 6) =
      if ctx.dns1 = 0 then none else some (optDns ctx) := by
  rw [replyOptions, List.find?_append]
  split
  · rfl
  · rfl

theorem optServers_replyBytes :
    optServers ((replyBytes msgType req ctx).drop optionsOffset) =
      (ctx.lease msgType req).dns := by
  have hdns : optGet ((replyBytes msgType req ctx).drop optionsOffset) 6 255 = _ :=
    optGet_replyBytes 6 255
  rw [lookup, find_dns] at hdns
  by_cases hzero : ctx.dns1 = 0
  · rw [if_pos hzero, Option.map_none] at hdns
    rw [optServers, hdns, ServerCtx.lease, if_pos hzero]
  · rw [if_neg hzero, Option.map_some, List.take_of_length_le (optDns _).fits] at hdns
    have hdata : (optDns ctx.toDhcpCtx).data =
        (ctx.dns1 :: if ctx.dns2 = 0 then [] else [ctx.dns2]).flatMap (bigEndian 4) := by
      rw [optDns]
      split <;> simp
    rw [hdata] at hdns
    rw [ServerCtx.lease, if_neg hzero]
    refine optServers_eq (fun v hv => ?_) hdns
    split at hv
    · rw [List.mem_singleton.1 hv]
      exact ctx.dns1_lt
    · rcases List.mem_cons.1 hv with rfl | hv
      · exact ctx.dns1_lt
      · rw [List.mem_singleton.1 hv]
        exact ctx.dns2_lt

/-- **A client finds the lease in a reply.** -/
theorem readLease_replyBytes (h : req.Echoes) :
    readLease (replyBytes msgType req ctx) = some (ctx.lease msgType req) := by
  have hget : DhcpPkt.codec.get (replyBytes msgType req ctx) = replyPkt req ctx :=
    DhcpPkt.codec.get_put _ _ h.fits_replyPkt
  have hlen : ¬ (replyBytes msgType req ctx).length < optionsOffset := by
    rw [replyBytes, List.length_append, Codec.length_put, DhcpPkt.size_codec]
    omega
  have hoption {o : DhcpOption} {code : UInt8} {v : ℕ} (hv : v < 256 ^ 4)
      (hfind : (replyOptions msgType ctx.toDhcpCtx).find? (fun o => o.code = code) = some o)
      (hdata : o.data = bigEndian 4 v) :
      optNumber ((replyBytes msgType req ctx).drop optionsOffset) code 4 = some v :=
    optNumber_eq hv ((optGet_replyBytes code 4).trans (congrArg some (lookup_u32 hfind hdata)))
  have htype : optNumber ((replyBytes msgType req ctx).drop optionsOffset) 53 1 =
      some msgType.toNat := by
    rw [optNumber, optGet_replyBytes]
    rfl
  have hserver : optNumber ((replyBytes msgType req ctx).drop optionsOffset) 54 4 =
      some ctx.gwIp := hoption ctx.gw_lt rfl rfl
  have hlease : optNumber ((replyBytes msgType req ctx).drop optionsOffset) 51 4 =
      some 86400 := hoption (by decide) rfl rfl
  have hrenewal : optNumber ((replyBytes msgType req ctx).drop optionsOffset) 58 4 =
      some 43200 := hoption (by decide) rfl rfl
  have hrebinding : optNumber ((replyBytes msgType req ctx).drop optionsOffset) 59 4 =
      some 75600 := hoption (by decide) rfl rfl
  have hnetmask : optNumber ((replyBytes msgType req ctx).drop optionsOffset) 1 4 =
      some ctx.netmask := hoption ctx.netmask_lt rfl rfl
  have hrouter : optNumber ((replyBytes msgType req ctx).drop optionsOffset) 3 4 =
      some ctx.gwIp := hoption ctx.gw_lt rfl rfl
  rw [readLease]
  simp only [hget, htype, hserver, hlease, hrenewal, hrebinding, hnetmask, hrouter,
    optServers_replyBytes, Option.bind_eq_bind, Option.bind_some]
  exact if_neg (not_or.2 ⟨hlen, not_or.2 ⟨not_not.2 rfl, not_not.2 rfl⟩⟩)

end Lease

end Droidspaces.Dhcp
