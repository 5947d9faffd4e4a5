import Droidspaces.Network.Requests

/-!
# A session of requests

`ds_nl_talk` and the functions of `netlink.c` that call it, one after the other on one socket.
`session_answers`: if the kernel does what it reads in each message and says how that went, the
functions return what the kernel said about what they were called with, each about its own call,
whatever is left on the socket of what came before.
-/

namespace Droidspaces.Network

open Binary Netlink

/-! ## The code -/

/-- One message in `ds_nl_talk`; `NLMSG_ERROR` is 2 and `NLM_F_MULTI` is the second bit. -/
def talkStep (seq : ℕ) (_ : Unit) (m : Msg) : Except ℤ Unit :=
  if m.seq ≠ seq then .ok ()
  else if m.type = 2 then .error (toInt32 (field 0 4 m.payload))
  else if m.type = nlmsgDone then .error 0
  else if m.flags / 2 % 2 = 1 then .ok ()
  else .error 0

/-- `EINTR` -/
def eintr : ℕ := 4

/-- `ds_nl_talk`, once the request is sent: what it returns, if it does, and what is left on the
socket. -/
def dsNlTalk (seq : ℕ) : List Recv → Option (Option ℤ × List Recv)
  | [] => some (none, [])
  | .fails errno :: rest => if errno = eintr then dsNlTalk seq rest else some (some (-errno), rest)
  | .datagram bs :: rest => do
    match ← forDatagram (talkStep seq) (bs.take nlBufsize) () with
    | .error r => some (some r, rest)
    | .ok _ => dsNlTalk seq rest

/-- The functions of `netlink.c` that talk about links, addresses, routes and rules; where they are
given a name of a link, `if_nametoindex` has found its index. -/
inductive NlCall
  | createBridge (name : Iface)
  | createVeth (host peer : Iface)
  | setMaster (index master : ℕ)
  | linkSetUp (index : ℕ) (up : Bool)
  | delLink (index : ℕ)
  | rename (index : ℕ) (newname : Iface)
  | setMac (index : ℕ) (mac : Bytes)
  | moveToNetns (index netnsFd : ℕ)
  | moveToNetnsNamed (index netnsFd : ℕ) (newname : Iface)
  | linkExists (name : Iface)
  | addAddr4 (index addr pfx : ℕ)
  | addRoute4 (dst : Subnet) (gw oif : ℕ)
  | addRule4 (src dst : Subnet) (table priority : ℤ)
  | delRule4 (src dst : Subnet) (table priority : ℤ)

namespace NlCall

/-- `NLM_F_REQUEST | NLM_F_ACK`, and with `NLM_F_CREATE` and `NLM_F_EXCL` or `NLM_F_REPLACE`. -/
def flagsAck : ℕ := 5

def flagsCreate : ℕ := 0x605

def flagsReplace : ℕ := 0x505

/-- The message that a function sends, or what it returns instead.  `-ENOSPC` is -28 and `-EINVAL`
is -22. -/
def message (seq pid : ℕ) : NlCall → Except ℤ Msg
  | createBridge name => .ok ⟨16, flagsCreate, seq, pid, createBridgeBody name⟩
  | createVeth host peer =>
    match createVethBody host peer with
    | none => .error (-28)
    | some body => .ok ⟨16, flagsCreate, seq, pid, body⟩
  | setMaster index master => .ok ⟨16, flagsAck, seq, pid, setMasterBody index master⟩
  | linkSetUp index up => .ok ⟨16, flagsAck, seq, pid, linkSetUpBody index up⟩
  | delLink index => .ok ⟨17, flagsAck, seq, pid, ifinfomsg index 0 0⟩
  | rename index newname => .ok ⟨16, flagsAck, seq, pid, renameBody index newname⟩
  | setMac index mac => .ok ⟨16, flagsAck, seq, pid, setMacBody index mac⟩
  | moveToNetns index netnsFd => .ok ⟨16, flagsAck, seq, pid, moveToNetnsBody index netnsFd⟩
  | moveToNetnsNamed index netnsFd newname =>
    .ok ⟨16, flagsAck, seq, pid, moveToNetnsNamedBody index netnsFd newname⟩
  | linkExists name => .ok ⟨18, 1, seq, pid, linkExistsBody name⟩
  | addAddr4 index addr pfx =>
    if 32 < pfx then .error (-22)
    else .ok ⟨20, flagsReplace, seq, pid, addAddr4Body index addr pfx⟩
  | addRoute4 dst gw oif => .ok ⟨24, flagsReplace, seq, pid, addRoute4Body dst gw oif⟩
  | addRule4 src dst table priority =>
    .ok ⟨32, flagsCreate, seq, pid, ruleOpBody src dst table priority⟩
  | delRule4 src dst table priority =>
    .ok ⟨33, flagsAck, seq, pid, ruleOpBody src dst table priority⟩

/-- What a function makes of what `ds_nl_talk` returns: `-EEXIST` is -17, `-ENODEV` -19 and
`-ENOENT` -2. -/
def result (err : ℤ) : NlCall → ℤ
  | createBridge _ => if err = 0 ∨ err = -17 then 0 else err
  | delLink _ => if err = 0 ∨ err = -19 ∨ err = -2 then 0 else err
  | linkExists _ => if err = 0 then 1 else 0
  | addRule4 .. | delRule4 .. => if err = -17 ∨ err = -2 then 0 else err
  | _ => err

end NlCall

/-- Calls one after the other on one socket, from the sequence number that was used last: what they
return. -/
def session (pid : ℕ) : ℕ → List NlCall → List Recv → Option (List ℤ × List Recv)
  | _, [], stream => some ([], stream)
  | seq, c :: calls, stream => do
    match c.message ((seq + 1) % 2 ^ 32) pid with
    | .error err =>
      let (results, rest) ← session pid seq calls stream
      some (err :: results, rest)
    | .ok m =>
      match ← dsNlTalk m.seq stream with
      | (none, _) => none
      | (some err, stream) =>
        let (results, rest) ← session pid m.seq calls stream
        some (c.result err :: results, rest)

/-! ## What is meant -/

/-- What the kernel is asked. -/
inductive Ask
  | link (type flags : ℕ) (a : LinkAsk)
  | addr (flags : ℕ) (a : AddrAsk)
  | route (flags : ℕ) (a : RouteAsk)
  | rule (type flags : ℕ) (r : PolicyRule)

/-- The kernel reads a message. -/
def readAsk (m : Msg) : Ask :=
  if m.type = 20 then .addr m.flags (readAddrAsk m.payload)
  else if m.type = 24 then .route m.flags (readRouteAsk m.payload)
  else if m.type = 32 ∨ m.type = 33 then .rule m.type m.flags (readRuleAsk m.payload)
  else .link m.type m.flags (readLinkAsk m.payload)

/-- The prefix that is meant by an address and a length. -/
def ofSubnet (s : Subnet) : Option Subnet := if s.len = 0 then none else some s

namespace NlCall

/-- What a call is about. -/
def ask : NlCall → Ask
  | createBridge name =>
    .link 16 flagsCreate { name := some name, kind := some "bridge".toList }
  | createVeth host peer =>
    .link 16 flagsCreate { name := some host, kind := some "veth".toList, peer := some peer }
  | setMaster index master => .link 16 flagsAck { index, master := some master }
  | linkSetUp index up => .link 16 flagsAck { index, flags := if up then 1 else 0, change := 1 }
  | delLink index => .link 17 flagsAck { index }
  | rename index newname => .link 16 flagsAck { index, name := some newname }
  | setMac index mac => .link 16 flagsAck { index, mac := some mac }
  | moveToNetns index netnsFd => .link 16 flagsAck { index, netns := some netnsFd }
  | moveToNetnsNamed index netnsFd newname =>
    .link 16 flagsAck
      { index, netns := some netnsFd, name := if newname = [] then none else some newname }
  | linkExists name => .link 18 1 { name := some name }
  | addAddr4 index addr pfx =>
    .addr flagsReplace
      { index
        addr := ⟨addr, pfx⟩
        address := some addr
        broadcast := if pfx < 32 then some (addr ||| 0xffffffff >>> pfx) else none }
  | addRoute4 dst gw oif =>
    .route flagsReplace
      { dst := ofSubnet dst
        gateway := if gw = 0 then none else some gw
        oif := some oif
        table := 254
        onLink := gw = 0 }
  | addRule4 src dst table priority =>
    .rule 32 flagsCreate
      { src := ofSubnet src, dst := ofSubnet dst, table := table.toNat, prio := priority.toNat }
  | delRule4 src dst table priority =>
    .rule 33 flagsAck
      { src := ofSubnet src, dst := ofSubnet dst, table := table.toNat, prio := priority.toNat }

/-- The rule that a call is about has a table and a priority, and its numbers fit. -/
def IsRule (src dst : Subnet) (table priority : ℤ) : Prop :=
  (src.addr < 256 ^ 4 ∧ src.len < 256) ∧ (dst.addr < 256 ^ 4 ∧ dst.len < 256) ∧
    (0 < table ∧ table < 2 ^ 31) ∧ 0 ≤ priority ∧ priority < 2 ^ 31

/-- The names are names of links, and the numbers fit. -/
def IsValid : NlCall → Prop
  | createBridge name | linkExists name => IsName name
  | createVeth host peer => IsName host ∧ IsName peer
  | setMaster index n | moveToNetns index n => index < 256 ^ 4 ∧ n < 256 ^ 4
  | linkSetUp index _ | delLink index => index < 256 ^ 4
  | rename index newname => index < 256 ^ 4 ∧ IsName newname
  | setMac index mac => index < 256 ^ 4 ∧ mac.length = 6
  | moveToNetnsNamed index n newname =>
    index < 256 ^ 4 ∧ n < 256 ^ 4 ∧ (newname = [] ∨ IsName newname)
  | addAddr4 index addr pfx => index < 256 ^ 4 ∧ addr < 256 ^ 4 ∧ pfx ≤ 32
  | addRoute4 dst gw oif =>
    (dst.addr < 256 ^ 4 ∧ dst.len < 256) ∧ gw < 256 ^ 4 ∧ oif < 256 ^ 4
  | addRule4 src dst table priority | delRule4 src dst table priority =>
    IsRule src dst table priority

theorem attrs_nil : attrs [] = [] := rfl

/-- Two attributes fit into a message that changes a link. -/
theorem readLinkAsk_change {index : ℕ} (hindex : index < 256 ^ 4) {as : List Attr}
    (has : ∀ a ∈ as, a.type < 256 ^ 2 ∧ a.data.length ≤ 16) (htwo : as.length ≤ 2) :
    readLinkAsk (changeLinkBody index as) = askOf index 0 0 as := by
  have hlen : (as.flatMap Attr.encode).length ≤ 20 * as.length := by
    clear htwo
    induction as with
    | nil => exact le_rfl
    | cons a as ih =>
      obtain ⟨ha, has⟩ := List.forall_mem_cons.1 has
      have hle : align (4 + a.data.length) ≤ 20 := by
        rw [align]
        omega
      have hlater := ih has
      rw [List.flatMap_cons, List.length_append, a.length_encode, List.length_cons]
      omega
  refine readLinkAsk_changeLinkBody hindex (by omega) fun a ha => ?_
  exact ⟨(has a ha).1, by have := (has a ha).2; omega⟩

/-- **What a call is about is what the kernel reads.** -/
theorem exists_message {c : NlCall} (h : c.IsValid) (seq pid : ℕ) :
    ∃ m, c.message seq pid = .ok m ∧ m.seq = seq ∧ readAsk m = c.ask := by
  cases c with
  | createBridge name =>
    exact ⟨_, rfl, rfl, congrArg _ (readLinkAsk_createBridgeBody h)⟩
  | createVeth host peer =>
    obtain ⟨hhost, hpeer⟩ := h
    obtain ⟨body, hbody, hread⟩ :=
      Option.map_eq_some_iff.1 (readLinkAsk_createVethBody hhost hpeer)
    refine ⟨⟨16, flagsCreate, seq, pid, body⟩, ?_, rfl, congrArg _ hread⟩
    rw [message, hbody]
  | setMaster index master =>
    refine ⟨_, rfl, rfl, congrArg _ ((readLinkAsk_change h.1 (by simp) (by simp)).trans ?_)⟩
    simp [askOf, attrData_cons, attrData_nil, attrs_nil, nlRtaU32_ofNat h.2]
  | linkSetUp index up =>
    have hflags : (if up then 1 else 0) < 256 ^ 4 := by cases up <;> decide
    have hread := readLinkAsk_append h hflags (show 1 < 256 ^ 4 by decide)
      (List.forall_mem_nil Attr.Fits)
    rw [List.flatMap_nil, List.append_nil] at hread
    refine ⟨_, rfl, rfl, congrArg _ (hread.trans ?_)⟩
    simp [askOf, attrData_nil, attrs_nil]
  | delLink index =>
    refine ⟨_, rfl, rfl, congrArg _ ((readLinkAsk_change h (List.forall_mem_nil _)
      (Nat.zero_le _)).trans ?_)⟩
    simp [askOf, attrData_nil, attrs_nil]
  | rename index newname =>
    have hlen := length_cName h.2
    refine ⟨_, rfl, rfl, congrArg _ ((readLinkAsk_change h.1 (by simpa using hlen)
      (by simp)).trans ?_)⟩
    simp [askOf, attrData_cons, attrData_nil, attrs_nil, nameOf_cName h.2]
  | setMac index mac =>
    refine ⟨_, rfl, rfl, congrArg _ ((readLinkAsk_change h.1 (by simp [h.2]) (by simp)).trans ?_)⟩
    simp [askOf, attrData_cons, attrData_nil, attrs_nil]
  | moveToNetns index netnsFd =>
    refine ⟨_, rfl, rfl, congrArg _ ((readLinkAsk_change h.1 (by simp) (by simp)).trans ?_)⟩
    simp [askOf, attrData_cons, attrData_nil, attrs_nil, nlRtaU32_ofNat h.2]
  | moveToNetnsNamed index netnsFd newname =>
    obtain ⟨hindex, hfd, hname⟩ := h
    refine ⟨_, rfl, rfl, congrArg (Ask.link 16 flagsAck) ?_⟩
    rw [moveToNetnsNamedBody]
    split
    · next hnil =>
      refine (readLinkAsk_change hindex (by simp) (by simp)).trans ?_
      simp [askOf, attrData_cons, attrData_nil, attrs_nil, nlRtaU32_ofNat hfd]
    · next hne =>
      have hn := hname.resolve_left hne
      have hlen := length_cName hn
      refine (readLinkAsk_change hindex (by simpa using hlen) (by simp)).trans ?_
      simp [askOf, attrData_cons, attrData_nil, attrs_nil, nlRtaU32_ofNat hfd, nameOf_cName hn]
  | linkExists name =>
    have hlen := length_encode_cName h 3
    have hbody : linkExistsBody name =
        ifinfomsg 0 0 0 ++ ([⟨3, cName name⟩] : List Attr).flatMap Attr.encode :=
      foldl_nlAddattr [⟨3, cName name⟩] (by rw [length_ifinfomsg])
        (by rw [length_ifinfomsg, List.flatMap_singleton]; omega)
    have hfits : ∀ a ∈ ([⟨3, cName name⟩] : List Attr), a.Fits :=
      List.forall_mem_singleton.2 (fits_cName h (by decide))
    have hread := readLinkAsk_append (Nat.pow_pos (by decide)) (Nat.pow_pos (by decide))
      (Nat.pow_pos (by decide)) hfits
    rw [← hbody] at hread
    refine ⟨_, rfl, rfl, congrArg _ (hread.trans ?_)⟩
    simp [askOf, attrData_cons, attrData_nil, attrs_nil, nameOf_cName h]
  | addAddr4 index addr pfx =>
    obtain ⟨hindex, haddr, hpfx⟩ := h
    refine ⟨⟨20, flagsReplace, seq, pid, addAddr4Body index addr pfx⟩, ?_, rfl, ?_⟩
    · rw [message, if_neg (Nat.not_lt.2 hpfx)]
    · exact congrArg _ (readAddrAsk_addAddr4Body hindex haddr hpfx)
  | addRoute4 dst gw oif =>
    obtain ⟨hdst, hgw, hoif⟩ := h
    exact ⟨_, rfl, rfl, congrArg _ (readRouteAsk_addRoute4Body hdst hgw hoif)⟩
  | addRule4 src dst table priority =>
    obtain ⟨hsrc, hdst, htable, hpriority⟩ := h
    exact ⟨_, rfl, rfl, congrArg _ (readRuleAsk_ruleOpBody hsrc hdst htable hpriority)⟩
  | delRule4 src dst table priority =>
    obtain ⟨hsrc, hdst, htable, hpriority⟩ := h
    exact ⟨_, rfl, rfl, congrArg _ (readRuleAsk_ruleOpBody hsrc hdst htable hpriority)⟩

end NlCall

/-! ## What the kernel says -/

/-- The message that answers a request: an error, which may be 0 to acknowledge it, or what was
asked for. -/
def IsReply (err : ℤ) (m : Msg) : Prop :=
  (m.type = 2 ∧ toInt32 (field 0 4 m.payload) = err) ∨
    (err = 0 ∧ m.type ≠ 2 ∧ m.type ≠ nlmsgDone ∧ m.flags / 2 % 2 ≠ 1)

/-- The answer to a request comes on the socket, in front of `rest`; before it there may be messages
that belong to other requests, and a signal may come in between. -/
inductive Awaits (seq : ℕ) (err : ℤ) : List Recv → List Recv → Prop
  | here (before after : List Msg) (m : Msg) (rest : List Recv)
      (h : InDatagram (before ++ m :: after)) (hbefore : ∀ m ∈ before, m.seq ≠ seq)
      (hseq : m.seq = seq) (hreply : IsReply err m) :
      Awaits seq err (.datagram ((before ++ m :: after).flatMap Msg.encode) :: rest) rest
  | other (ms : List Msg) {stream rest : List Recv} (h : InDatagram ms)
      (hms : ∀ m ∈ ms, m.seq ≠ seq) (hlater : Awaits seq err stream rest) :
      Awaits seq err (.datagram (ms.flatMap Msg.encode) :: stream) rest
  | signal {stream rest : List Recv} (hlater : Awaits seq err stream rest) :
      Awaits seq err (.fails eintr :: stream) rest

theorem foldlM_talkStep {seq : ℕ} {ms : List Msg} (h : ∀ m ∈ ms, m.seq ≠ seq) :
    ms.foldlM (talkStep seq) () = .ok () := by
  induction ms with
  | nil => rfl
  | cons m ms ih =>
    obtain ⟨hm, hms⟩ := List.forall_mem_cons.1 h
    rw [List.foldlM_cons, talkStep, if_pos hm]
    exact ih hms

theorem talkStep_reply {seq : ℕ} {err : ℤ} {m : Msg} (hseq : m.seq = seq) (h : IsReply err m) :
    talkStep seq () m = .error err := by
  rw [talkStep, if_neg (not_not.2 hseq)]
  rcases h with ⟨htype, herr⟩ | ⟨rfl, htype, hdone, hmulti⟩
  · rw [if_pos htype, herr]
  · rw [if_neg htype, if_neg hdone, if_neg hmulti]

/-- **The answer is that to this request.** -/
theorem dsNlTalk_eq {seq : ℕ} {err : ℤ} {stream rest : List Recv} (h : Awaits seq err stream rest) :
    dsNlTalk seq stream = some (some err, rest) := by
  induction h with
  | here before after m rest h hbefore hseq hreply =>
    have hfold : (before ++ m :: after).foldlM (talkStep seq) () = .error err := by
      rw [List.foldlM_append, foldlM_talkStep hbefore]
      change List.foldlM (talkStep seq) () (m :: after) = _
      rw [List.foldlM_cons, talkStep_reply hseq hreply]
      rfl
    rw [dsNlTalk, forDatagram_eq h, hfold]
    rfl
  | other ms h hms _ ih =>
    rw [dsNlTalk, forDatagram_eq h, foldlM_talkStep hms]
    exact ih
  | signal _ ih => rw [dsNlTalk, if_pos rfl, ih]

section Session

variable {K : Type} (perform : K → Ask → K × ℤ)

/-- What the kernel says to the calls, one after the other, about what each is about. -/
def answers : K → List NlCall → List ℤ
  | _, [] => []
  | k, c :: calls => c.result (perform k c.ask).2 :: answers (perform k c.ask).1 calls

/-- The kernel reads each message, does what it is asked for, and answers it. -/
def Answered (pid : ℕ) : K → ℕ → List NlCall → List Recv → List Recv → Prop
  | _, _, [], stream, rest => stream = rest
  | k, seq, c :: calls, stream, rest =>
    ∀ m, c.message ((seq + 1) % 2 ^ 32) pid = .ok m →
      ∃ mid, Awaits m.seq (perform k (readAsk m)).2 stream mid ∧
        Answered pid (perform k (readAsk m)).1 m.seq calls mid rest

/-- **Each call gets the answer to what it is about.**  The functions return, in any session, what
the kernel says when it is asked for what they were called with, one after the other. -/
theorem session_answers (k : K) (pid seq : ℕ) (calls : List NlCall) (stream rest : List Recv)
    (hvalid : ∀ c ∈ calls, c.IsValid) (h : Answered perform pid k seq calls stream rest) :
    session pid seq calls stream = some (answers perform k calls, rest) := by
  induction calls generalizing k seq stream with
  | nil =>
    rw [session, show stream = rest from h]
    rfl
  | cons c calls ih =>
    obtain ⟨hc, hcalls⟩ := List.forall_mem_cons.1 hvalid
    obtain ⟨m, hmessage, -, hask⟩ := NlCall.exists_message hc ((seq + 1) % 2 ^ 32) pid
    obtain ⟨mid, hawaits, hanswered⟩ := h m hmessage
    rw [hask] at hawaits hanswered
    rw [session, hmessage]
    simp only [dsNlTalk_eq hawaits, Option.bind_eq_bind, Option.bind_some,
      ih _ _ _ hcalls hanswered, answers]

end Session

/-- A kernel that knows the names of its links, and makes one when it is told its kind. -/
def performLinks (links : List Iface) : Ask → List Iface × ℤ
  | .link _ _ a =>
    match a.name, a.kind with
    | some n, some _ => (n :: links, 0)
    | some n, none => (links, if links.contains n then 0 else -19)
    | none, _ => (links, 0)
  | _ => (links, 0)

/-- A message without attributes, which acknowledges a request if its type is 2. -/
def ackMsg (type seq : ℕ) : Msg := ⟨type, 0, seq, 7, [0, 0, 0, 0]⟩

theorem ackMsg_fits {type seq : ℕ} (h : type < 256) (h' : seq < 256) : (ackMsg type seq).Fits where
  type_lt := show type < 256 ^ 2 by omega
  flags_lt := show 0 < 256 ^ 2 by decide
  seq_lt := show seq < 256 ^ 4 by omega
  pid_lt := show 7 < 256 ^ 4 by decide
  padded := show 4 % 4 = 0 from rfl

/-- The acknowledgement of an earlier request is still there, and a signal comes in between. -/
theorem session_answers_bridge :
    session 7 0 [.createBridge "ds0".toList, .linkExists "ds0".toList]
      [.datagram (([ackMsg 2 9] ++ ackMsg 2 1 :: []).flatMap Msg.encode), .fails eintr,
        .datagram (([] ++ ackMsg 16 2 :: []).flatMap Msg.encode)] = some ([0, 1], []) := by
  have hname : IsName "ds0".toList := isName_of_all (by decide) (by decide) (by decide)
  have hfirst : InDatagram ([ackMsg 2 9] ++ ackMsg 2 1 :: []) :=
    ⟨by decide, List.forall_mem_cons.2 ⟨ackMsg_fits (by decide) (by decide),
      List.forall_mem_singleton.2 (ackMsg_fits (by decide) (by decide))⟩, by decide⟩
  have hsecond : InDatagram ([] ++ ackMsg 16 2 :: []) :=
    ⟨by decide, List.forall_mem_singleton.2 (ackMsg_fits (by decide) (by decide)), by decide⟩
  refine session_answers performLinks [] 7 0 _ _ [] ?_ ?_
  · exact List.forall_mem_cons.2 ⟨hname, List.forall_mem_singleton.2 hname⟩
  · intro m hm
    obtain rfl := Except.ok.inj hm
    refine ⟨_, .here [ackMsg 2 9] [] (ackMsg 2 1) _ hfirst (by decide) rfl (.inl ⟨rfl, ?_⟩), ?_⟩
    · decide +kernel
    · intro m hm
      obtain rfl := Except.ok.inj hm
      refine ⟨_, .signal (.here [] [] (ackMsg 16 2) _ hsecond (List.forall_mem_nil _) rfl
        (.inr ⟨?_, by decide, by decide, by decide⟩)), rfl⟩
      decide +kernel

end Droidspaces.Network
