import Droidspaces.Network.DhcpServer
import Mathlib.Data.FinEnum
import Mathlib.Data.List.Forall2
import Mathlib.Data.List.ReduceOption

/-!
# The one lease, over every run

Whatever arrives, the server answers the requests of its own container, in their order, and nothing
else; a client finds the lease in each answer (`sends_lease`).  A client whose messages say what
they say within the room that the server has for options is answered as `ClientMessage.reply` has
it, with any options in its header of IPv4 and anything behind its datagrams (`answers_clients`).
-/

namespace Droidspaces.Dhcp

open Binary DhcpOption Datagram

/-! ## What is asked and what is answered -/

/-- The first byte of the message type. -/
def HasType (opts : Bytes) (type : UInt8) : Prop :=
  ∃ len rest, optGet opts 53 1 = some (some (len, type :: rest))

/-- The reply that a request asks this server for: an offer, or an acknowledgement unless the
request is meant for another server. -/
def Asks (ctx : ServerCtx) (opts : Bytes) (type : UInt8) : Prop :=
  (type = 2 ∧ HasType opts 1) ∨
    (type = 5 ∧ HasType opts 3 ∧
      ∀ sid, optGet opts 54 4 = some (some (4, sid)) → sid = bigEndian 4 ctx.gwIp)

/-- What `recvfrom` leaves of a frame. -/
def Rx.buf (rx : Rx) : Bytes := rx.frame.take 2048

/-- A frame that asks for a reply. -/
def Rx.Asks (ctx : ServerCtx) (rx : Rx) (type : UInt8) : Prop :=
  IsRequest rx.buf ∧ Dhcp.Asks ctx (requestOptions rx.buf) type

/-- A frame that is sent answers one that was received, and a client finds the lease in it. -/
structure Answers (ctx : ServerCtx) (rx : Rx) (type : UInt8) (out : Bytes) : Prop where
  asks : rx.Asks ctx type
  carries : Carries ctx (requestPkt rx.buf) (payload out) out
  lease : readLease (payload out) = some (ctx.lease type (requestPkt rx.buf))

/-- What becomes of a frame. -/
def Outcome (ctx : ServerCtx) (rx : Rx) : Option Bytes → Prop
  | some out => ∃ type, Answers ctx rx type out
  | none => ∀ type, ¬ rx.Asks ctx type

/-- The frames of the container itself that the loop receives before it ends. -/
def heard (ifindex : ℕ) : List Event → List Rx
  | [] => []
  | .stop :: _ => []
  | .pollFails again :: events | .recvFails again :: events =>
    if again then heard ifindex events else []
  | .idle :: events => heard ifindex events
  | .received rx :: events =>
    if rx.ifindex = ifindex ∧ rx.outgoing = false then rx :: heard ifindex events
    else heard ifindex events

/-! ## One frame -/

theorem optGet_total (opts : Bytes) (code : UInt8) (maxLen : ℕ) :
    ∃ found, optGet opts code maxLen = some found := by
  obtain ⟨found, hfound, -⟩ := optGetLoop_total (Nat.zero_add opts.length).ge
  exact ⟨found, hfound⟩

/-- What was found under a type that is not 0. -/
theorem hasType_iff {opts : Bytes} {len : ℕ} {data : Bytes}
    (h : optGet opts 53 1 = some (some (len, data))) {type : UInt8} (hne : type ≠ 0) :
    HasType opts type ↔ data.headD 0 = type := by
  constructor
  · rintro ⟨len', rest, h'⟩
    rw [h, Option.some.injEq, Option.some.injEq, Prod.mk.injEq] at h'
    rw [h'.2]
    rfl
  · intro hhead
    cases data with
    | nil => exact absurd hhead.symm hne
    | cons b rest => exact ⟨len, rest, by rw [h, ← hhead, List.headD_cons]⟩

theorem replyType_spec (ctx : ServerCtx) (opts : Bytes) :
    ∃ found, replyType ctx opts = some found ∧ ∀ type, found = some type ↔ Asks ctx opts type := by
  obtain ⟨type?, htype⟩ := optGet_total opts 53 1
  rw [replyType, htype, Option.bind_eq_bind, Option.bind_some]
  rcases type? with - | ⟨len, data⟩
  · refine ⟨none, rfl, fun type => ⟨nofun, fun h => ?_⟩⟩
    obtain ⟨-, len, rest, h⟩ | ⟨-, ⟨len, rest, h⟩, -⟩ := h <;>
      rw [htype, Option.some.injEq] at h <;> cases h
  have hone := hasType_iff htype (show (1 : UInt8) ≠ 0 by decide)
  have hthree := hasType_iff htype (show (3 : UInt8) ≠ 0 by decide)
  simp only [Asks, hone, hthree]
  generalize data.headD 0 = b
  by_cases h1 : b = 1
  · subst h1
    exact ⟨some 2, rfl, fun type => by simp [eq_comm]⟩
  rw [if_neg h1]
  by_cases h3 : b = 3
  · obtain ⟨sid?, hsid⟩ := optGet_total opts 54 4
    subst h3
    rw [if_pos rfl, hsid, Option.bind_some]
    split
    · next sid =>
      refine ⟨_, rfl, fun type => ?_⟩
      by_cases heq : sid = bigEndian 4 ctx.gwIp
      · simp [heq, eq_comm]
      · simp [heq]
    · next hother =>
      have hnone : ∀ sid, sid? = some (4, sid) → sid = bigEndian 4 ctx.gwIp := fun sid h =>
        absurd h (hother sid)
      refine ⟨some 5, rfl, fun type => ⟨fun h => ?_, fun h => ?_⟩⟩
      · exact .inr ⟨(Option.some.inj h).symm, rfl, fun sid h => hnone sid (Option.some.inj h)⟩
      · obtain ⟨-, h⟩ | ⟨rfl, -⟩ := h
        · exact absurd h (by decide)
        · rfl
  · rw [if_neg h3]
    exact ⟨none, rfl, fun type => by simp [h1, h3]⟩

/-- All options of a reply fit, so that the position behind them is their length. -/
theorem buildReply_snd (msgType : UInt8) (ctx : DhcpCtx) :
    (buildReply msgType ctx).2 = ((replyOptions msgType ctx).flatMap encode).length + 1 := by
  have hlen := length_flatMap_replyOptions msgType ctx
  have hput := putAll_eq (replyOptions msgType ctx) (List.replicate 308 0)
  rw [List.length_replicate, if_pos (by omega), putAll, List.length_replicate] at hput
  rw [buildReply]
  simp only [foldl_optPut_of_foldlM hput]

theorem length_replyBytes_le (msgType : UInt8) (req : DhcpPkt) (ctx : ServerCtx) :
    (replyBytes msgType req ctx).length ≤ 2006 := by
  have hoptions := length_flatMap_replyOptions msgType ctx.toDhcpCtx
  have htake : ((buildReply msgType ctx.toDhcpCtx).1.take
      (buildReply msgType ctx.toDhcpCtx).2).length ≤ 50 := by
    rw [buildReply_snd]
    exact (List.length_take_le _ _).trans (by omega)
  rw [replyBytes, List.length_append, Codec.length_put, DhcpPkt.size_codec, optionsOffset]
  omega

/-- **A frame of the container is answered if it asks for a reply**, and only then. -/
theorem handle_spec (ctx : ServerCtx) {ifindex : ℕ} {rx : Rx} (hown : rx.ifindex = ifindex)
    (hin : rx.outgoing = false) :
    ∃ out, handle ctx ifindex rx = some out ∧ Outcome ctx rx out := by
  have hin' : ¬ rx.outgoing = true := by simp [hin]
  rw [handle, if_neg (not_not.2 hown), if_neg hin', readRequest_eq, Option.bind_eq_bind,
    Option.bind_some]
  by_cases hreq : IsRequest rx.buf
  · rw [Rx.buf] at hreq
    obtain ⟨found, hfound, hiff⟩ := replyType_spec ctx (requestOptions rx.buf)
    rw [Rx.buf] at hfound
    simp only [if_pos hreq, hfound]
    rcases found with - | type
    · exact ⟨none, rfl, fun type h => nomatch (hiff type).2 h.2⟩
    · have hechoes := DhcpPkt.echoes_get (requestBytes rx.buf)
      have hmac : 6 ≤ (requestPkt rx.buf).chaddr.length := by
        rw [requestPkt, hechoes.chaddr]
        decide
      obtain ⟨frame, hframe, hcarries⟩ :=
        exists_sendReply hmac (length_replyBytes_le type (requestPkt rx.buf) ctx)
      refine ⟨some frame, congrArg some hframe, type, ⟨hreq, (hiff type).1 rfl⟩, ?_, ?_⟩
      · rw [hcarries.payload]
        exact hcarries
      · rw [hcarries.payload]
        exact readLease_replyBytes hechoes
  · rw [Rx.buf] at hreq
    rw [if_neg hreq]
    exact ⟨none, rfl, fun type h => hreq h.1⟩

theorem handle_foreign (ctx : ServerCtx) {ifindex : ℕ} {rx : Rx}
    (h : ¬ (rx.ifindex = ifindex ∧ rx.outgoing = false)) :
    handle ctx ifindex rx = some none := by
  rw [handle]
  by_cases hown : rx.ifindex = ifindex
  · rw [if_neg (not_not.2 hown), if_pos (by simpa [hown] using h)]
  · rw [if_pos hown]

/-! ## Every run -/

/-- What becomes of the frames of the container, one after the other. -/
theorem serverLoop_spec (ctx : ServerCtx) (ifindex : ℕ) (events : List Event) :
    ∃ outs, serverLoop ctx ifindex events = some outs.reduceOption ∧
      List.Forall₂ (Outcome ctx) (heard ifindex events) outs := by
  induction events with
  | nil => exact ⟨[], rfl, .nil⟩
  | cons event events ih =>
    obtain ⟨outs, hloop, hall⟩ := ih
    cases event with
    | stop => exact ⟨[], rfl, .nil⟩
    | idle => exact ⟨outs, hloop, hall⟩
    | pollFails again | recvFails again =>
      cases again with
      | true => exact ⟨outs, hloop, hall⟩
      | false => exact ⟨[], rfl, .nil⟩
    | received rx =>
      rw [serverLoop, heard, hloop]
      by_cases hown : rx.ifindex = ifindex ∧ rx.outgoing = false
      · obtain ⟨out, hhandle, hout⟩ := handle_spec ctx hown.1 hown.2
        refine ⟨out :: outs, ?_, by rw [if_pos hown]; exact .cons hout hall⟩
        rw [hhandle]
        cases out <;> rfl
      · rw [handle_foreign ctx hown, if_neg hown]
        exact ⟨outs, rfl, hall⟩

open Classical in
theorem answers_of_outcomes {ctx : ServerCtx} {rxs : List Rx} {outs : List (Option Bytes)}
    (h : List.Forall₂ (Outcome ctx) rxs outs) :
    List.Forall₂ (fun rx out => ∃ type, Answers ctx rx type out)
      (rxs.filter fun rx => ∃ type, rx.Asks ctx type) outs.reduceOption := by
  induction h with
  | nil => exact .nil
  | @cons rx out rxs outs hout _ ih =>
    cases out with
    | none =>
      have hnot : ¬ ∃ type, rx.Asks ctx type := fun ⟨type, h⟩ => hout type h
      rwa [List.filter_cons_of_neg (by simpa using hnot), List.reduceOption_cons_of_none]
    | some out =>
      have hasks : ∃ type, rx.Asks ctx type := hout.imp fun _ h => h.asks
      rw [List.filter_cons_of_pos (by simpa using hasks), List.reduceOption_cons_of_some]
      exact .cons hout ih

open Classical in
/-- **Every run.**  Whatever the rounds of the loop meet, the frames that it sends answer, in their
order, the frames of its own container that ask for a reply, each once, and a client finds the one
lease in each of them. -/
theorem sends_lease (ctx : ServerCtx) (ifindex : ℕ) (events : List Event) :
    ∃ sent, serverLoop ctx ifindex events = some sent ∧
      List.Forall₂ (fun rx out => ∃ type, Answers ctx rx type out)
        ((heard ifindex events).filter fun rx => ∃ type, rx.Asks ctx type) sent := by
  obtain ⟨outs, hloop, hall⟩ := serverLoop_spec ctx ifindex events
  exact ⟨_, hloop, answers_of_outcomes hall⟩

/-! ## A client -/

/-- A message of a client: the packet, its options up to the end, and anything behind it. -/
structure ClientMessage where
  pkt : DhcpPkt
  options : List DhcpOption
  pad : Bytes
  fits : DhcpPkt.codec.Fits pkt
  op : pkt.op = 1
  magic : pkt.magic = dhcpMagic
  short : (options.flatMap encode).length < optionsSize

namespace ClientMessage

variable (m : ClientMessage)

def encode : Bytes :=
  DhcpPkt.codec.put m.pkt ++ (m.options.flatMap DhcpOption.encode ++ optEnd :: m.pad)

/-- The data of the first option with a code. -/
def data (code : UInt8) : Option Bytes :=
  (m.options.find? fun o => o.code = code).map DhcpOption.data

/-- The type of the reply: an offer to a discovery; an acknowledgement to a request, unless an
address of another server stands in it. -/
def replyType (ctx : ServerCtx) : Option UInt8 :=
  if (m.data 53).bind List.head? = some 1 then some 2
  else if (m.data 53).bind List.head? = some 3 ∧
      ∀ sid ∈ m.data 54, sid.length = 4 → sid = bigEndian 4 ctx.gwIp then some 5
  else none

/-- What the client finds in the reply, if there is one. -/
def reply (ctx : ServerCtx) : Option Lease :=
  (m.replyType ctx).map fun type => ctx.lease type m.pkt

end ClientMessage

/-- What the container sends: a message in a datagram for the server, or what is no datagram for
the port of a server at all. -/
def Sends (rx : Rx) : Option ClientMessage → Prop
  | some m => IsDatagram rx.frame ∧ destPort rx.frame = 67 ∧ payload rx.frame = m.encode
  | none => ¬ (etherType rx.buf = 0x0800 ∧ protocol rx.buf = 17 ∧ destPort rx.buf = 67)

section Client

variable {rx : Rx} {m : ClientMessage}

theorem numberAt_take {off n k : ℕ} (h : off + n ≤ k) (bs : Bytes) :
    numberAt off n (bs.take k) = numberAt off n bs := by
  rw [numberAt, numberAt, field, field, List.drop_take, List.take_take, Nat.min_eq_left (by omega)]

theorem headerLength_buf : headerLength rx.buf = headerLength rx.frame := by
  rw [Rx.buf, headerLength, numberAt_take (by decide), headerLength]

theorem headerLength_le (bs : Bytes) : headerLength bs ≤ 60 := by
  rw [headerLength]
  omega

/-- What stands where the server looks for a packet. -/
theorem exists_drop_frame (hpayload : payload rx.frame = m.encode) :
    ∃ rest, rx.frame.drop (payloadOffset rx.frame) =
      DhcpPkt.codec.put m.pkt ++ (m.options.flatMap DhcpOption.encode ++ optEnd :: rest) := by
  rw [payload, field, ClientMessage.encode] at hpayload
  refine ⟨m.pad ++ (rx.frame.drop (payloadOffset rx.frame)).drop (udpLength rx.frame - 8), ?_⟩
  conv_lhs => rw [← List.take_append_drop (udpLength rx.frame - 8) (rx.frame.drop _)]
  rw [payloadOffset, hpayload]
  simp only [List.append_assoc, List.cons_append]

theorem exists_requestBytes (hpayload : payload rx.frame = m.encode) :
    (∃ rest, requestBytes rx.buf = DhcpPkt.codec.put m.pkt ++
      (m.options.flatMap DhcpOption.encode ++ optEnd :: rest)) ∧
      payloadOffset rx.buf + optionsOffset ≤ rx.buf.length := by
  obtain ⟨rest, hdrop⟩ := exists_drop_frame hpayload
  have hheader := headerLength_le rx.frame
  have hoff : payloadOffset rx.buf = payloadOffset rx.frame := by
    rw [payloadOffset, headerLength_buf, payloadOffset]
  have hle : payloadOffset rx.frame ≤ 82 := by
    rw [payloadOffset]
    omega
  have hput := DhcpPkt.codec.length_put m.pkt
  rw [DhcpPkt.size_codec] at hput
  constructor
  · obtain ⟨k, hk⟩ := Nat.exists_eq_add_of_lt m.short
    have hsize : optionsSize = (m.options.flatMap DhcpOption.encode).length + (k + 1) := by omega
    have hall : optionsOffset + optionsSize ≤ 2048 - payloadOffset rx.frame := by
      rw [optionsOffset, optionsSize]
      omega
    refine ⟨rest.take k, ?_⟩
    rw [requestBytes, hoff, Rx.buf, field, List.drop_take, List.take_take, Nat.min_eq_left hall,
      hdrop, ← hput, List.take_length_add_append, hsize, List.take_length_add_append,
      List.take_succ_cons]
  · have hlen := congrArg List.length hdrop
    rw [List.length_drop, List.length_append, hput] at hlen
    rw [hoff, Rx.buf, List.length_take]
    rw [optionsOffset] at *
    omega

/-- **The server reads from the datagram what the client wrote.** -/
theorem Sends.isRequest (h : Sends rx (some m)) :
    IsRequest rx.buf ∧ requestPkt rx.buf = m.pkt ∧
      ∀ code maxLen, optGet (requestOptions rx.buf) code maxLen =
        some (lookup m.options code maxLen) := by
  obtain ⟨hdatagram, hport, hpayload⟩ := h
  obtain ⟨⟨rest, hbytes⟩, hfits⟩ := exists_requestBytes hpayload
  have hpkt : requestPkt rx.buf = m.pkt := by
    rw [requestPkt, hbytes, DhcpPkt.codec.get_put _ _ m.fits]
  have hopts : requestOptions rx.buf =
      m.options.flatMap DhcpOption.encode ++ optEnd :: rest := by
    rw [requestOptions, hbytes, ← DhcpPkt.size_codec, DhcpPkt.codec.drop_put]
  have hheader := headerLength_le rx.frame
  refine ⟨⟨?_, ?_, ?_, ?_, hfits, hpkt ▸ m.magic, hpkt ▸ m.op⟩, hpkt, fun code maxLen => ?_⟩
  · rw [Rx.buf, etherType, numberAt_take (by decide)]
    exact hdatagram.etherType
  · rw [Rx.buf, protocol, numberAt_take (by decide)]
    exact hdatagram.protocol
  · rw [headerLength_buf]
    exact hdatagram.header
  · rw [destPort, headerLength_buf, Rx.buf, numberAt_take (by omega)]
    exact hport
  · have hlen := length_le_flatMap_encode m.options
    rw [hopts]
    refine @optGetLoop_flatMap _ _ _ m.options _ [] rest ?_ rfl
    rw [List.length_append, List.length_cons]
    omega

theorem hasType_iff_data {opts : Bytes} (h : ∀ code maxLen, optGet opts code maxLen =
    some (lookup m.options code maxLen)) {type : UInt8} :
    HasType opts type ↔ (m.data 53).bind List.head? = some type := by
  rw [HasType, h, lookup, ClientMessage.data]
  cases m.options.find? fun o => o.code = 53 with
  | none => simp
  | some o =>
    cases hdata : o.data with
    | nil => simp [hdata]
    | cons b rest => simp [hdata]

theorem server_iff_data {opts : Bytes} (h : ∀ code maxLen, optGet opts code maxLen =
    some (lookup m.options code maxLen)) (sid : Bytes) :
    optGet opts 54 4 = some (some (4, sid)) ↔ m.data 54 = some sid ∧ sid.length = 4 := by
  rw [h, lookup, ClientMessage.data]
  cases m.options.find? fun o => o.code = 54 with
  | none => simp
  | some o =>
    rw [Option.map_some, Option.map_some, Option.some.injEq, Option.some.injEq, Option.some.injEq,
      Prod.mk.injEq]
    constructor
    · rintro ⟨hlen, rfl⟩
      rw [List.take_of_length_le hlen.le]
      exact ⟨rfl, hlen⟩
    · rintro ⟨rfl, hlen⟩
      exact ⟨hlen, List.take_of_length_le hlen.le⟩

/-- The server takes a message for what it is. -/
theorem Sends.asks_iff (h : Sends rx (some m)) (ctx : ServerCtx) (type : UInt8) :
    rx.Asks ctx type ↔ m.replyType ctx = some type := by
  obtain ⟨hreq, -, hopts⟩ := h.isRequest
  have hserver := server_iff_data hopts
  rw [Rx.Asks, Dhcp.Asks, hasType_iff_data hopts, hasType_iff_data hopts, ClientMessage.replyType]
  simp only [hreq, true_and, hserver]
  split
  · next h1 => simp [h1, eq_comm]
  · next h1 =>
    split
    · next h3 =>
      obtain ⟨h3, hsid⟩ := h3
      constructor
      · rintro (⟨-, h⟩ | ⟨rfl, -⟩)
        · exact absurd h h1
        · rfl
      · rintro ⟨⟩
        exact .inr ⟨rfl, h3, fun sid h => hsid sid h.1 h.2⟩
    · next h3 =>
      constructor
      · rintro (⟨-, h⟩ | ⟨-, h, hsid⟩)
        · exact absurd h h1
        · exact absurd ⟨h, fun sid hdata hlen => hsid sid ⟨hdata, hlen⟩⟩ h3
      · intro h
        cases h

/-- What a client finds in the outcome of what it sent. -/
theorem Sends.outcome {ctx : ServerCtx} {out : Option Bytes} {m? : Option ClientMessage}
    (h : Sends rx m?) (hout : Outcome ctx rx out) :
    out.map (fun out => readLease (payload out)) =
      (m?.bind fun m => m.reply ctx).map some := by
  cases m? with
  | none =>
    cases out with
    | none => rfl
    | some out =>
      obtain ⟨type, ⟨hreq, -⟩, -, -⟩ := hout
      exact absurd ⟨hreq.etherType, hreq.protocol, hreq.port⟩ h
  | some m =>
    have hasks := h.asks_iff ctx
    obtain ⟨-, hpkt, -⟩ := h.isRequest
    cases out with
    | none =>
      have hnone : m.replyType ctx = none :=
        Option.eq_none_iff_forall_ne_some.2 fun type htype => hout type ((hasks type).2 htype)
      rw [Option.bind_some, ClientMessage.reply, hnone]
      rfl
    | some out =>
      obtain ⟨type, hasked, -, hlease⟩ := hout
      rw [Option.bind_some, ClientMessage.reply, (hasks type).1 hasked, Option.map_some,
        Option.map_some, Option.map_some, hlease, hpkt]

/-- **A client is answered.**  Each message that the container sends, with any options in the header
of IPv4 and anything behind the message or the datagram, gets the reply that is meant for it, and no
other datagram gets one. -/
theorem answers_clients (ctx : ServerCtx) (ifindex : ℕ) (events : List Event)
    (messages : List (Option ClientMessage))
    (h : List.Forall₂ Sends (heard ifindex events) messages) :
    ∃ sent, serverLoop ctx ifindex events = some sent ∧
      sent.map (fun out => readLease (payload out)) =
        (messages.reduceOption.filterMap fun m => m.reply ctx).map some := by
  obtain ⟨outs, hloop, hall⟩ := serverLoop_spec ctx ifindex events
  refine ⟨_, hloop, ?_⟩
  clear hloop
  generalize heard ifindex events = rxs at h hall
  induction h generalizing outs with
  | nil =>
    cases hall
    rfl
  | @cons rx m? rxs messages hsends _ ih =>
    obtain ⟨out, outs, hout, houts, rfl⟩ := List.forall₂_cons_left_iff.1 hall
    have hfound := hsends.outcome hout
    cases out with
    | none =>
      rw [List.reduceOption_cons_of_none, ih outs houts]
      cases m? with
      | none => rw [List.reduceOption_cons_of_none]
      | some m =>
        have hreply : m.reply ctx = none := Option.map_eq_none_iff.1 hfound.symm
        simp only [List.reduceOption_cons_of_some, List.filterMap_cons, hreply]
    | some out =>
      cases m? with
      | none => cases hfound
      | some m =>
        obtain ⟨lease, hreply, hlease⟩ := Option.map_eq_some_iff.1 hfound.symm
        have hread : readLease (payload out) = some lease := hlease.symm
        rw [Option.bind_some] at hreply
        simp only [List.reduceOption_cons_of_some, List.filterMap_cons, hreply, List.map_cons,
          ih outs houts, hread]

end Client

def bridgeCtx : ServerCtx where
  gwIp := 0xAC1C0001
  netmask := 0xFFFF0000
  dns1 := 0x01010101
  dns2 := 0x08080808
  offerIp := 0xAC1C0005
  serverMac := List.replicate 6 1
  offer_lt := by decide
  gw_lt := by decide
  netmask_lt := by decide
  dns1_lt := by decide
  dns2_lt := by decide
  length_mac := rfl

def clientPkt : DhcpPkt where
  op := 1
  htype := 1
  hlen := 6
  hops := 0
  xid := 0x3903F326
  secs := 0
  flags := 0x8000
  ciaddr := 0
  yiaddr := 0
  siaddr := 0
  giaddr := 0
  chaddr := List.replicate 6 2 ++ List.replicate 10 0
  sname := List.replicate 64 0
  file := List.replicate 128 0
  magic := dhcpMagic

theorem clientPkt_fits : DhcpPkt.codec.Fits clientPkt := by
  have hbytes (bs : Bytes) : ∀ b ∈ bs, Codec.byte.Fits b := fun b _ => Codec.byte_fits b
  have hzero (w : ℕ) : 0 < 256 ^ w := Nat.pow_pos (by decide)
  exact ⟨⟨show 1 < 256 ^ 1 by decide, show 1 < 256 ^ 1 by decide, show 6 < 256 ^ 1 by decide,
    hzero 1, show 0x3903F326 < 256 ^ 4 by decide, hzero 2, show 0x8000 < 256 ^ 2 by decide, hzero 4,
    hzero 4, hzero 4, hzero 4, ⟨rfl, hbytes _⟩, ⟨List.length_replicate, hbytes _⟩,
    ⟨List.length_replicate, hbytes _⟩, show dhcpMagic < 256 ^ 4 by decide⟩, rfl⟩

theorem messageType_ne_pad : (53 : UInt8) ≠ optPad := by decide

theorem messageType_ne_end : (53 : UInt8) ≠ optEnd := by decide

theorem serverId_ne_pad : (54 : UInt8) ≠ optPad := by decide

theorem serverId_ne_end : (54 : UInt8) ≠ optEnd := by decide

/-- A discovery, and a request that names its server before it says what it is. -/
def discovery : ClientMessage where
  pkt := clientPkt
  options := [⟨53, [1], messageType_ne_pad, messageType_ne_end, by decide⟩]
  pad := [0, 0]
  fits := clientPkt_fits
  op := rfl
  magic := rfl
  short := by decide

def request : ClientMessage where
  pkt := clientPkt
  options := [⟨54, [172, 28, 0, 1], serverId_ne_pad, serverId_ne_end, by decide⟩,
    ⟨53, [3], messageType_ne_pad, messageType_ne_end, by decide⟩]
  pad := []
  fits := clientPkt_fits
  op := rfl
  magic := rfl
  short := by decide

/-- A frame with a message, with an option in the header of IPv4 and two bytes behind it. -/
def clientFrame (check : Bytes) (m : ClientMessage) : Bytes :=
  List.replicate 12 2 ++ [8, 0] ++
    ([0x46, 0] ++ bigEndian 2 (32 + m.encode.length) ++ [0, 0, 0, 0, 64, 17] ++ check ++
      [0, 0, 0, 0, 255, 255, 255, 255, 148, 4, 0, 0]) ++
    ([0, 68, 0, 67] ++ bigEndian 2 (8 + m.encode.length) ++ [0, 0]) ++ m.encode ++ [9, 9]

/-- A discovery and a request, with a frame of another container between them. -/
theorem answers_clients_bridge :
    ∃ sent, serverLoop bridgeCtx 7
        [.received ⟨7, false, clientFrame [228, 211] discovery⟩, .idle,
          .received ⟨8, false, clientFrame [228, 211] discovery⟩,
          .received ⟨7, false, clientFrame [228, 207] request⟩, .stop] = some sent ∧
      sent.map (fun out => readLease (payload out)) =
        [some (bridgeCtx.lease 2 clientPkt), some (bridgeCtx.lease 5 clientPkt)] := by
  have hdiscovery : Sends ⟨7, false, clientFrame [228, 211] discovery⟩ (some discovery) :=
    ⟨by decide +kernel, by decide +kernel, by decide +kernel⟩
  have hrequest : Sends ⟨7, false, clientFrame [228, 207] request⟩ (some request) :=
    ⟨by decide +kernel, by decide +kernel, by decide +kernel⟩
  obtain ⟨sent, hloop, hsent⟩ := answers_clients bridgeCtx 7
    [.received ⟨7, false, clientFrame [228, 211] discovery⟩, .idle,
      .received ⟨8, false, clientFrame [228, 211] discovery⟩,
      .received ⟨7, false, clientFrame [228, 207] request⟩, .stop]
    [some discovery, some request] (.cons hdiscovery (.cons hrequest .nil))
  exact ⟨sent, hloop, hsent.trans (by decide +kernel)⟩

end Droidspaces.Dhcp
