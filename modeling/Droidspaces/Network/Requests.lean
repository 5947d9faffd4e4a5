import Droidspaces.Network.DumpAnswers

/-!
# Netlink requests

The messages that `netlink.c` builds attribute by attribute.  A reader of such messages, as the
kernel is one, finds in each what the function was called with.
-/

namespace Droidspaces.Network

open Binary Netlink

/-! ## Building a message -/

/-- `nl_addattr`, on what stands behind the header: the new bytes, and where the attribute begins.
An attribute for which there is no room is left out. -/
def nlAddattr (maxlen type : ℕ) (data body : Bytes) : Bytes × Option ℕ :=
  if maxlen < align (16 + body.length) + align (4 + data.length) then (body, none)
  else
    (body ++ (List.replicate (align body.length - body.length) 0 ++ Attr.encode ⟨type, data⟩),
      some (align body.length))

/-- `nl_nest_begin` -/
def nlNestBegin (maxlen type : ℕ) (body : Bytes) : Bytes × Option ℕ :=
  nlAddattr maxlen type [] body

/-- `nl_nest_end`: the length of the attribute reaches to the end of the message. -/
def nlNestEnd (nest : Option ℕ) (body : Bytes) : Bytes :=
  match nest with
  | none => body
  | some off => splice off (ofNat 2 (align body.length - off)) body

/-- `struct ifinfomsg` -/
def ifinfomsg (index flags change : ℕ) : Bytes :=
  [0, 0, 0, 0] ++ ofNat 4 index ++ ofNat 4 flags ++ ofNat 4 change

/-- A name with its zero. -/
def cName (n : Iface) : Bytes := nameBytes n ++ [0]

/-- The payload of `ds_nl_create_bridge`. -/
def createBridgeBody (name : Iface) : Bytes :=
  let body := (nlAddattr 1056 3 (cName name) (ifinfomsg 0 0 0)).1
  let (body, linfo) := nlNestBegin 1056 18 body
  let body := (nlAddattr 1056 1 (cName "bridge".toList) body).1
  nlNestEnd linfo body

/-- The payload of `ds_nl_create_veth`.  The header of the peer stands in `VETH_INFO_PEER` as it is,
in front of the attributes. -/
def createVethBody (host peer : Iface) : Option Bytes :=
  let body := (nlAddattr 2080 3 (cName host) (ifinfomsg 0 0 0)).1
  let (body, linfo) := nlNestBegin 2080 18 body
  let body := (nlAddattr 2080 1 (cName "veth".toList) body).1
  let (body, ldata) := nlNestBegin 2080 2 body
  let (body, peerRta) := nlNestBegin 2080 1 body
  let off := align (16 + body.length)
  if 2080 < off + 16 then none
  else
    let body := body ++ List.replicate (off - (16 + body.length)) 0 ++ ifinfomsg 0 0 0
    let body := (nlAddattr 2080 3 (cName peer) body).1
    let body := nlNestEnd peerRta body
    let body := nlNestEnd ldata body
    some (nlNestEnd linfo body)

/-- The payload of a request that changes a link by attributes of its own: `ds_nl_set_master`,
`ds_nl_rename`, `ds_nl_set_mac`, `ds_nl_move_to_netns` and `ds_nl_move_to_netns_named`. -/
def changeLinkBody (index : ℕ) (as : List Attr) : Bytes :=
  as.foldl (fun body a => (nlAddattr 288 a.type a.data body).1) (ifinfomsg index 0 0)

def setMasterBody (index master : ℕ) : Bytes := changeLinkBody index [⟨10, ofNat 4 master⟩]

def renameBody (index : ℕ) (newname : Iface) : Bytes := changeLinkBody index [⟨3, cName newname⟩]

def setMacBody (index : ℕ) (mac : Bytes) : Bytes := changeLinkBody index [⟨1, mac⟩]

def moveToNetnsBody (index netnsFd : ℕ) : Bytes := changeLinkBody index [⟨28, ofNat 4 netnsFd⟩]

def moveToNetnsNamedBody (index netnsFd : ℕ) (newname : Iface) : Bytes :=
  if newname = [] then moveToNetnsBody index netnsFd
  else changeLinkBody index [⟨28, ofNat 4 netnsFd⟩, ⟨3, cName newname⟩]

/-- The payload of `ds_nl_link_set_up`; `IFF_UP` is 1. -/
def linkSetUpBody (index : ℕ) (up : Bool) : Bytes := ifinfomsg index (if up then 1 else 0) 1

/-- The payload of `ds_nl_link_exists`. -/
def linkExistsBody (name : Iface) : Bytes := (nlAddattr 544 3 (cName name) (ifinfomsg 0 0 0)).1

/-- `struct rtmsg` in `ds_nl_rule_op`. -/
def ruleHead (src dst : Subnet) (table : ℤ) : Bytes :=
  [2, UInt8.ofNat dst.len, UInt8.ofNat src.len, 0,
    if 0 < table ∧ table < 256 then UInt8.ofNat table.toNat else 0, 0, 0, 1, 0, 0, 0, 0]

/-- The attributes that `ds_nl_rule_op` adds. -/
def ruleAttrs (src dst : Subnet) (table priority : ℤ) : List Attr :=
  (if 0 < src.len then [⟨2, bigEndian 4 src.addr⟩] else []) ++
    ((if 0 < dst.len then [⟨1, bigEndian 4 dst.addr⟩] else []) ++
      ((if 0 < table then [⟨15, ofNat 4 table.toNat⟩] else []) ++
        if 0 ≤ priority then [⟨6, ofNat 4 priority.toNat⟩] else []))

/-- The payload of `ds_nl_rule_op`. -/
def ruleOpBody (src dst : Subnet) (table priority : ℤ) : Bytes :=
  (ruleAttrs src dst table priority).foldl (fun body a => (nlAddattr 284 a.type a.data body).1)
    (ruleHead src dst table)

/-- The attributes that `ds_nl_add_addr4` adds: the address twice, and the broadcast address. -/
def addrAttrs (addr pfx : ℕ) : List Attr :=
  [⟨2, bigEndian 4 addr⟩, ⟨1, bigEndian 4 addr⟩] ++
    if pfx < 32 then [⟨4, bigEndian 4 (addr ||| 0xffffffff >>> pfx)⟩] else []

/-- `struct ifaddrmsg` in `ds_nl_add_addr4`. -/
def addrHead (index pfx : ℕ) : Bytes := [2, UInt8.ofNat pfx, 0, 0] ++ ofNat 4 index

/-- The payload of `ds_nl_add_addr4`. -/
def addAddr4Body (index addr pfx : ℕ) : Bytes :=
  (addrAttrs addr pfx).foldl (fun body a => (nlAddattr 280 a.type a.data body).1)
    (addrHead index pfx)

/-- The attributes that `ds_nl_add_route4` adds; a gateway 0 is none. -/
def addRouteAttrs (dst : Subnet) (gw oif : ℕ) : List Attr :=
  (if 0 < dst.len then [⟨1, bigEndian 4 dst.addr⟩] else []) ++
    ((if gw ≠ 0 then [⟨5, bigEndian 4 gw⟩] else []) ++ [⟨4, ofNat 4 oif⟩])

/-- `struct rtmsg` in `ds_nl_add_route4`: the main table, and the scope of a link if there is no
gateway. -/
def addRouteHead (dst : Subnet) (gw : ℕ) : Bytes :=
  [2, UInt8.ofNat dst.len, 0, 0, 254, 3, if gw = 0 then 253 else 0, 1, 0, 0, 0, 0]

/-- The payload of `ds_nl_add_route4`. -/
def addRoute4Body (dst : Subnet) (gw oif : ℕ) : Bytes :=
  (addRouteAttrs dst gw oif).foldl (fun body a => (nlAddattr 284 a.type a.data body).1)
    (addRouteHead dst gw)

/-! ## Reading a message -/

def attrData (as : List Attr) (type : ℕ) : Option Bytes :=
  (as.find? (·.type = type)).map Attr.data

/-- What a request about links says. -/
structure LinkAsk where
  index : ℕ := 0
  flags : ℕ := 0
  change : ℕ := 0
  name : Option Iface := none
  master : Option ℕ := none
  mac : Option Bytes := none
  netns : Option ℕ := none
  kind : Option Iface := none
  peer : Option Iface := none

def askOf (index flags change : ℕ) (as : List Attr) : LinkAsk :=
  let info := attrs ((attrData as 18).getD [])
  let peer := (attrData info 2).bind fun data => attrData (attrs data) 1
  { index
    flags
    change
    name := (attrData as 3).map nameOf
    master := (attrData as 10).map nlRtaU32
    mac := attrData as 1
    netns := (attrData as 28).map nlRtaU32
    kind := (attrData info 1).map nameOf
    peer := peer.bind fun data => (attrData (linkAttrs data) 3).map nameOf }

def readLinkAsk (payload : Bytes) : LinkAsk :=
  askOf (toNat (field 4 4 payload)) (toNat (field 8 4 payload)) (toNat (field 12 4 payload))
    (linkAttrs payload)

/-- The prefix of a rule: none if it has no length. -/
def readSubnet (len : ℕ) (data : Option Bytes) : Option Subnet :=
  if len = 0 then none else data.map fun data => ⟨ofBigEndian data, len⟩

/-- What a request about rules says. -/
def readRuleAsk (payload : Bytes) : PolicyRule :=
  let as := routeAttrs payload
  { src := readSubnet (headByte 2 payload) (attrData as 2)
    dst := readSubnet (headByte 1 payload) (attrData as 1)
    table := ((attrData as 15).map nlRtaU32).getD (headByte 4 payload)
    prio := ((attrData as 6).map nlRtaU32).getD 0
    toTable := headByte 7 payload = 1 }

/-- What a request about addresses says. -/
structure AddrAsk where
  index : ℕ
  addr : Subnet
  address : Option ℕ
  broadcast : Option ℕ

def readAddrAsk (payload : Bytes) : AddrAsk :=
  let as := attrs (payload.drop 8)
  { index := toNat (field 4 4 payload)
    addr := ⟨((attrData as 2).map ofBigEndian).getD 0, headByte 1 payload⟩
    address := (attrData as 1).map ofBigEndian
    broadcast := (attrData as 4).map ofBigEndian }

/-- What a request about routes says. -/
structure RouteAsk where
  dst : Option Subnet
  gateway : Option ℕ
  oif : Option ℕ
  table : ℕ
  onLink : Bool

def readRouteAsk (payload : Bytes) : RouteAsk :=
  let as := routeAttrs payload
  { dst := readSubnet (headByte 1 payload) (attrData as 1)
    gateway := (attrData as 5).map ofBigEndian
    oif := (attrData as 4).map nlRtaU32
    table := headByte 4 payload
    onLink := headByte 6 payload = 253 }

/-! ## What was built is read -/

section Build

variable {maxlen type : ℕ} {data body inner : Bytes}

theorem nlAddattr_eq (hbody : body.length % 4 = 0)
    (hroom : 16 + body.length + align (4 + data.length) ≤ maxlen) :
    nlAddattr maxlen type data body =
      (body ++ Attr.encode ⟨type, data⟩, some body.length) := by
  have halign : align body.length = body.length := align_of_mod hbody
  have halign' : align (16 + body.length) = 16 + body.length := align_of_mod (by omega)
  rw [nlAddattr, halign', if_neg (by omega), halign, Nat.sub_self, List.replicate_zero,
    List.nil_append]

theorem length_nest (type : ℕ) : (Attr.encode ⟨type, []⟩).length = 4 :=
  (Attr.length_encode ⟨type, []⟩).trans (show align (4 + 0) = 4 by decide)

/-- The attribute holds what was put behind its header. -/
theorem nlNestEnd_eq (hbody : body.length % 4 = 0) (hinner : inner.length % 4 = 0) :
    nlNestEnd (some body.length) (body ++ (Attr.encode ⟨type, []⟩ ++ inner)) =
      body ++ Attr.encode ⟨type, inner⟩ := by
  have hlen : align (body ++ (Attr.encode ⟨type, []⟩ ++ inner)).length - body.length =
      4 + inner.length := by
    rw [List.length_append, List.length_append, length_nest, align_of_mod (by omega)]
    omega
  have hpad : align inner.length - inner.length = 0 := by rw [align_of_mod hinner, Nat.sub_self]
  rw [nlNestEnd, hlen, Attr.encode, Attr.encode, List.append_assoc,
    splice_append _ _ _ _ (by rw [length_ofNat, length_ofNat]), hpad]
  simp [align]

theorem length_encode_mod (a : Attr) : a.encode.length % 4 = 0 := by
  rw [Attr.length_encode, align]
  omega

theorem length_cName {n : Iface} (h : IsName n) : (cName n).length ≤ 16 := by
  have hshort := h.short
  rw [cName, nameBytes, List.length_append, List.length_map, List.length_singleton]
  omega

/-- The room that an attribute with a name takes. -/
theorem length_encode_cName {n : Iface} (h : IsName n) (type : ℕ) :
    (Attr.encode ⟨type, cName n⟩).length ≤ 20 := by
  have hlen := length_cName h
  have hle : align (4 + (cName n).length) ≤ 20 := by
    rw [align]
    omega
  exact (Attr.length_encode _).trans_le hle

theorem length_ifinfomsg (index flags change : ℕ) : (ifinfomsg index flags change).length = 16 := by
  simp [ifinfomsg]

theorem nlAddattr_cName {n : Iface} (h : IsName n) (hbody : body.length % 4 = 0)
    (hroom : 36 + body.length ≤ maxlen) :
    nlAddattr maxlen type (cName n) body =
      (body ++ Attr.encode ⟨type, cName n⟩, some body.length) := by
  have hle : align (4 + (cName n).length) ≤ 20 :=
    (Attr.length_encode _).symm.trans_le (length_encode_cName h type)
  exact nlAddattr_eq hbody (by omega)

theorem nlNestBegin_eq (hbody : body.length % 4 = 0) (hroom : 20 + body.length ≤ maxlen) :
    nlNestBegin maxlen type body = (body ++ Attr.encode ⟨type, []⟩, some body.length) := by
  have hfour : align (4 + ([] : Bytes).length) = 4 := by decide
  exact nlAddattr_eq hbody (by omega)

theorem isName_bridge : IsName "bridge".toList :=
  isName_of_all (by decide) (by decide) (by decide)

theorem isName_veth : IsName "veth".toList :=
  isName_of_all (by decide) (by decide) (by decide)

theorem createBridgeBody_eq {name : Iface} (h : IsName name) :
    createBridgeBody name = ifinfomsg 0 0 0 ++
      [⟨3, cName name⟩, ⟨18, Attr.encode ⟨1, cName "bridge".toList⟩⟩].flatMap Attr.encode := by
  have hname := length_encode_cName h 3
  have hmod := length_encode_mod ⟨3, cName name⟩
  set body := ifinfomsg 0 0 0 ++ Attr.encode ⟨3, cName name⟩ with hbody
  have hlen : body.length = 16 + (Attr.encode ⟨3, cName name⟩).length := by
    rw [hbody, List.length_append, length_ifinfomsg]
  have hfirst : nlAddattr 1056 3 (cName name) (ifinfomsg 0 0 0) = (body, _) :=
    nlAddattr_cName h (by decide) (by rw [length_ifinfomsg]; omega)
  have hnest : nlNestBegin 1056 18 body = _ := nlNestBegin_eq (by omega) (by omega)
  have hinner : nlAddattr 1056 1 (cName "bridge".toList) (body ++ Attr.encode ⟨18, []⟩) = _ :=
    nlAddattr_cName isName_bridge (by rw [List.length_append, length_nest]; omega)
      (by rw [List.length_append, length_nest]; omega)
  rw [createBridgeBody]
  simp only [hfirst, hnest, hinner]
  rw [List.append_assoc body, nlNestEnd_eq (by omega) (length_encode_mod _), hbody,
    List.append_assoc, List.flatMap_cons, List.flatMap_singleton]

theorem createVethBody_eq {host peer : Iface} (h : IsName host) (h' : IsName peer) :
    createVethBody host peer = some (ifinfomsg 0 0 0 ++
      [⟨3, cName host⟩, ⟨18, Attr.encode ⟨1, cName "veth".toList⟩ ++
        Attr.encode ⟨2, Attr.encode ⟨1, ifinfomsg 0 0 0 ++
          Attr.encode ⟨3, cName peer⟩⟩⟩⟩].flatMap Attr.encode) := by
  have hhost := length_encode_cName h 3
  have hmod := length_encode_mod ⟨3, cName host⟩
  have hmod' := length_encode_mod ⟨3, cName peer⟩
  have hkind : (Attr.encode ⟨1, cName "veth".toList⟩).length = 12 := by decide
  set body := ifinfomsg 0 0 0 ++ Attr.encode ⟨3, cName host⟩ with hbody
  have hlen : body.length = 16 + (Attr.encode ⟨3, cName host⟩).length := by
    rw [hbody, List.length_append, length_ifinfomsg]
  have hfirst : nlAddattr 2080 3 (cName host) (ifinfomsg 0 0 0) = (body, _) :=
    nlAddattr_cName h (by decide) (by rw [length_ifinfomsg]; omega)
  have hlinfo : nlNestBegin 2080 18 body = _ := nlNestBegin_eq (by omega) (by omega)
  set kind := body ++ Attr.encode ⟨18, []⟩ ++ Attr.encode ⟨1, cName "veth".toList⟩ with hkindDef
  have hlenKind : kind.length = body.length + 16 := by
    rw [hkindDef, List.length_append, List.length_append, length_nest, hkind]
  have hinfo : nlAddattr 2080 1 (cName "veth".toList) (body ++ Attr.encode ⟨18, []⟩) = (kind, _) :=
    nlAddattr_cName isName_veth (by rw [List.length_append, length_nest]; omega)
      (by rw [List.length_append, length_nest]; omega)
  have hldata : nlNestBegin 2080 2 kind = _ := nlNestBegin_eq (by omega) (by omega)
  set data := kind ++ Attr.encode ⟨2, []⟩ with hdata
  have hlenData : data.length = kind.length + 4 := by
    rw [hdata, List.length_append, length_nest]
  have hpeerRta : nlNestBegin 2080 1 data = _ := nlNestBegin_eq (by omega) (by omega)
  set front := data ++ Attr.encode ⟨1, []⟩ ++ ifinfomsg 0 0 0 with hfront
  have hlenFront : front.length = data.length + 20 := by
    rw [hfront, List.length_append, List.length_append, length_nest, length_ifinfomsg]
  have hpeerName : nlAddattr 2080 3 (cName peer) front = _ :=
    nlAddattr_cName h' (by omega) (by omega)
  have hoff : align (16 + (data ++ Attr.encode ⟨1, []⟩).length) =
      16 + (data ++ Attr.encode ⟨1, []⟩).length :=
    align_of_mod (by rw [List.length_append, length_nest]; omega)
  have hpeerEnd : nlNestEnd (some data.length) (front ++ Attr.encode ⟨3, cName peer⟩) =
      data ++ Attr.encode ⟨1, ifinfomsg 0 0 0 ++ Attr.encode ⟨3, cName peer⟩⟩ := by
    rw [hfront, List.append_assoc, List.append_assoc,
      nlNestEnd_eq (by omega) (by rw [List.length_append, length_ifinfomsg]; omega)]
  have hdataEnd (inner : Bytes) (hinner : inner.length % 4 = 0) :
      nlNestEnd (some kind.length) (data ++ inner) = kind ++ Attr.encode ⟨2, inner⟩ := by
    rw [hdata, List.append_assoc, nlNestEnd_eq (by omega) hinner]
  have hkindEnd (inner : Bytes) (hinner : inner.length % 4 = 0) :
      nlNestEnd (some body.length) (kind ++ inner) =
        body ++ Attr.encode ⟨18, Attr.encode ⟨1, cName "veth".toList⟩ ++ inner⟩ := by
    rw [hkindDef, List.append_assoc, List.append_assoc,
      nlNestEnd_eq (by omega) (by rw [List.length_append, hkind]; omega)]
  rw [createVethBody]
  simp only [hfirst, hlinfo, hinfo, hldata, hpeerRta, hoff, Nat.sub_self,
    List.replicate_zero, List.append_nil]
  rw [if_neg (by rw [List.length_append, length_nest]; omega), ← hfront, hpeerName]
  dsimp only
  rw [hpeerEnd, hdataEnd _ (length_encode_mod _), hkindEnd _ (length_encode_mod _), hbody,
    List.append_assoc, List.flatMap_cons, List.flatMap_singleton]

/-- Attributes that are added one behind the other. -/
theorem foldl_nlAddattr (as : List Attr) (hbody : body.length % 4 = 0)
    (hroom : 16 + body.length + (as.flatMap Attr.encode).length ≤ maxlen) :
    as.foldl (fun body a => (nlAddattr maxlen a.type a.data body).1) body =
      body ++ as.flatMap Attr.encode := by
  induction as generalizing body with
  | nil => simp
  | cons a as ih =>
    have hmod := length_encode_mod a
    rw [List.flatMap_cons, List.length_append, a.length_encode] at hroom
    rw [a.length_encode] at hmod
    rw [List.foldl_cons, nlAddattr_eq hbody (by omega), List.flatMap_cons, ← List.append_assoc]
    exact ih (by rw [List.length_append, a.length_encode]; omega)
      (by rw [List.length_append, a.length_encode]; omega)

theorem changeLinkBody_eq {index : ℕ} {as : List Attr}
    (h : (as.flatMap Attr.encode).length ≤ 256) :
    changeLinkBody index as = ifinfomsg index 0 0 ++ as.flatMap Attr.encode :=
  foldl_nlAddattr as (by rw [length_ifinfomsg]) (by rw [length_ifinfomsg]; omega)

end Build

section Read

variable {as : List Attr}

theorem linkAttrs_append (index flags change : ℕ) (h : ∀ a ∈ as, a.Fits) :
    linkAttrs (ifinfomsg index flags change ++ as.flatMap Attr.encode) = as := by
  rw [linkAttrs, List.drop_left' (length_ifinfomsg index flags change), attrs_flatMap h]

theorem readLinkAsk_append {index flags change : ℕ} (hindex : index < 256 ^ 4)
    (hflags : flags < 256 ^ 4) (hchange : change < 256 ^ 4) (h : ∀ a ∈ as, a.Fits) :
    readLinkAsk (ifinfomsg index flags change ++ as.flatMap Attr.encode) =
      askOf index flags change as := by
  have hzero : ([0, 0, 0, 0] : Bytes).length = 4 := rfl
  have hhead (rest : Bytes) :
      toNat (field 4 4 (ifinfomsg index flags change ++ rest)) = index ∧
        toNat (field 8 4 (ifinfomsg index flags change ++ rest)) = flags ∧
        toNat (field 12 4 (ifinfomsg index flags change ++ rest)) = change := by
    simp only [ifinfomsg, List.append_assoc]
    refine ⟨?_, ?_, ?_⟩
    · rw [field_next hzero, toNat_field_here hindex]
    · rw [show 8 = 4 + 4 from rfl, field_skip hzero, field_next (length_ofNat 4 _),
        toNat_field_here hflags]
    · rw [show 12 = 4 + (4 + 4) from rfl, field_skip hzero, field_skip (length_ofNat 4 _),
        field_next (length_ofNat 4 _), toNat_field_here hchange]
  obtain ⟨hi, hf, hc⟩ := hhead (as.flatMap Attr.encode)
  rw [readLinkAsk, linkAttrs_append index flags change h, hi, hf, hc]

theorem fits_of_le {type : ℕ} {data : Bytes} (htype : type < 256 ^ 2) (h : data.length ≤ 256) :
    Attr.Fits ⟨type, data⟩ := ⟨htype, show 4 + data.length < 256 ^ 2 by omega⟩

theorem fits_cName {n : Iface} (h : IsName n) {type : ℕ} (htype : type < 256 ^ 2) :
    Attr.Fits ⟨type, cName n⟩ := fits_of_le htype ((length_cName h).trans (by decide))

theorem nameOf_cName {n : Iface} (h : IsName n) : nameOf (cName n) = n := nameOf_nameBytes h

theorem attrData_cons (a : Attr) (as : List Attr) (type : ℕ) :
    attrData (a :: as) type = if a.type = type then some a.data else attrData as type := by
  rw [attrData, List.find?_cons]
  by_cases h : a.type = type
  · rw [if_pos h, decide_eq_true h]
    rfl
  · rw [if_neg h, decide_eq_false h]
    rfl

theorem attrData_nil (type : ℕ) : attrData [] type = none := rfl

/-- One attribute by itself. -/
theorem attrs_encode {a : Attr} (h : a.Fits) : attrs a.encode = [a] := by
  have hone := attrs_flatMap (List.forall_mem_singleton.2 h)
  rwa [List.flatMap_singleton] at hone

theorem readLinkAsk_createBridgeBody {name : Iface} (h : IsName name) :
    readLinkAsk (createBridgeBody name) = { name := some name, kind := some "bridge".toList } := by
  have hkind : attrs (Attr.encode ⟨1, cName "bridge".toList⟩) = [⟨1, cName "bridge".toList⟩] :=
    attrs_encode (fits_cName isName_bridge (by decide))
  have has : ∀ a ∈ ([⟨3, cName name⟩, ⟨18, Attr.encode ⟨1, cName "bridge".toList⟩⟩] : List Attr),
      a.Fits :=
    List.forall_mem_cons.2 ⟨fits_cName h (by decide),
      List.forall_mem_singleton.2 ⟨by decide, by decide⟩⟩
  rw [createBridgeBody_eq h, readLinkAsk_append (by decide) (by decide) (by decide) has, askOf]
  simp only [attrData_cons, attrData_nil, Nat.reduceEqDiff, if_true, if_false, Option.getD_some,
    hkind, Option.map_some, Option.map_none, Option.bind_none, nameOf_cName h,
    nameOf_cName isName_bridge]

theorem readLinkAsk_createVethBody {host peer : Iface} (h : IsName host) (h' : IsName peer) :
    (createVethBody host peer).map readLinkAsk =
      some { name := some host, kind := some "veth".toList, peer := some peer } := by
  have hpeer := length_encode_cName h' 3
  have hlen : (ifinfomsg 0 0 0 ++ Attr.encode ⟨3, cName peer⟩).length ≤ 36 := by
    rw [List.length_append, length_ifinfomsg]
    omega
  have hpeerAttrs : linkAttrs (ifinfomsg 0 0 0 ++ Attr.encode ⟨3, cName peer⟩) =
      [⟨3, cName peer⟩] := by
    have hfits : ∀ a ∈ ([⟨3, cName peer⟩] : List Attr), a.Fits :=
      List.forall_mem_singleton.2 (fits_cName h' (by decide))
    have hone := linkAttrs_append 0 0 0 hfits
    rwa [List.flatMap_singleton] at hone
  have hdata : attrs (Attr.encode ⟨1, ifinfomsg 0 0 0 ++ Attr.encode ⟨3, cName peer⟩⟩) =
      [⟨1, ifinfomsg 0 0 0 ++ Attr.encode ⟨3, cName peer⟩⟩] :=
    attrs_encode (fits_of_le (by decide) (hlen.trans (by decide)))
  have hlenPeer :
      (Attr.encode ⟨1, ifinfomsg 0 0 0 ++ Attr.encode ⟨3, cName peer⟩⟩).length ≤ 40 := by
    refine (Attr.length_encode _).trans_le ?_
    show align (4 + (ifinfomsg 0 0 0 ++ Attr.encode ⟨3, cName peer⟩).length) ≤ 40
    rw [align]
    omega
  rw [createVethBody_eq h h', Option.map_some]
  generalize Attr.encode ⟨1, ifinfomsg 0 0 0 ++ Attr.encode ⟨3, cName peer⟩⟩ = data at *
  have hfits : ∀ a ∈ ([⟨1, cName "veth".toList⟩, ⟨2, data⟩] : List Attr), a.Fits :=
    List.forall_mem_cons.2 ⟨fits_cName isName_veth (by decide), List.forall_mem_singleton.2
      (fits_of_le (by decide) (hlenPeer.trans (by decide)))⟩
  have hinfo : attrs (Attr.encode ⟨1, cName "veth".toList⟩ ++ Attr.encode ⟨2, data⟩) =
      [⟨1, cName "veth".toList⟩, ⟨2, data⟩] := by
    have htwo := attrs_flatMap hfits
    rwa [List.flatMap_cons, List.flatMap_singleton] at htwo
  have hlenInfo : (Attr.encode ⟨1, cName "veth".toList⟩ ++ Attr.encode ⟨2, data⟩).length ≤ 256 := by
    have hkind := length_encode_cName isName_veth 1
    have hle : (Attr.encode ⟨2, data⟩).length ≤ 44 := by
      refine (Attr.length_encode _).trans_le ?_
      show align (4 + data.length) ≤ 44
      rw [align]
      omega
    rw [List.length_append]
    omega
  have has : ∀ a ∈ ([⟨3, cName host⟩,
      ⟨18, Attr.encode ⟨1, cName "veth".toList⟩ ++ Attr.encode ⟨2, data⟩⟩] : List Attr), a.Fits :=
    List.forall_mem_cons.2 ⟨fits_cName h (by decide),
      List.forall_mem_singleton.2 (fits_of_le (by decide) hlenInfo)⟩
  rw [readLinkAsk_append (by decide) (by decide) (by decide) has, askOf]
  simp only [attrData_cons, attrData_nil, Nat.reduceEqDiff, if_true, if_false, Option.getD_some,
    hinfo, hdata, hpeerAttrs, Option.map_some, Option.map_none, Option.bind_some, nameOf_cName h,
    nameOf_cName h', nameOf_cName isName_veth]

/-! ## Changes of links, and rules -/

theorem readLinkAsk_changeLinkBody {index : ℕ} (hindex : index < 256 ^ 4)
    (hroom : (as.flatMap Attr.encode).length ≤ 256) (h : ∀ a ∈ as, a.Fits) :
    readLinkAsk (changeLinkBody index as) = askOf index 0 0 as := by
  rw [changeLinkBody_eq hroom, readLinkAsk_append hindex (by decide) (by decide) h]

theorem data_of_mem_ruleAttrs {src dst : Subnet} {table priority : ℤ} {a : Attr}
    (h : a ∈ ruleAttrs src dst table priority) : a.data.length = 4 ∧ a.type ≤ 15 := by
  simp only [ruleAttrs, List.mem_append, List.mem_ite_nil_right, List.mem_singleton] at h
  rcases h with ⟨-, rfl⟩ | ⟨-, rfl⟩ | ⟨-, rfl⟩ | ⟨-, rfl⟩ <;> simp

theorem length_ruleAttrs (src dst : Subnet) (table priority : ℤ) :
    (ruleAttrs src dst table priority).length ≤ 4 := by
  have hite {c : Prop} [Decidable c] (a : Attr) : (if c then [a] else []).length ≤ 1 := by
    split <;> simp
  have h₁ := @hite (0 < src.len) _ ⟨2, bigEndian 4 src.addr⟩
  have h₂ := @hite (0 < dst.len) _ ⟨1, bigEndian 4 dst.addr⟩
  have h₃ := @hite (0 < table) _ ⟨15, ofNat 4 table.toNat⟩
  have h₄ := @hite (0 ≤ priority) _ ⟨6, ofNat 4 priority.toNat⟩
  simp only [ruleAttrs, List.length_append]
  omega

theorem length_flatMap_encode (h : ∀ a ∈ as, a.data.length = 4) :
    (as.flatMap Attr.encode).length = 8 * as.length := by
  induction as with
  | nil => rfl
  | cons a as ih =>
    obtain ⟨ha, has⟩ := List.forall_mem_cons.1 h
    rw [List.flatMap_cons, List.length_append, ih has, Attr.length_encode, ha, List.length_cons,
      show align (4 + 4) = 8 by decide]
    omega

/-- Attributes of four bytes behind a header. -/
theorem foldl_nlAddattr_four {maxlen : ℕ} {head : Bytes} (hhead : head.length % 4 = 0)
    (h : ∀ a ∈ as, a.data.length = 4) (hroom : 16 + head.length + 8 * as.length ≤ maxlen) :
    as.foldl (fun body a => (nlAddattr maxlen a.type a.data body).1) head =
      head ++ as.flatMap Attr.encode :=
  foldl_nlAddattr as hhead (by rwa [length_flatMap_encode h])

theorem fits_of_four (h : ∀ a ∈ as, a.data.length = 4 ∧ a.type ≤ 15) : ∀ a ∈ as, a.Fits := by
  intro a ha
  obtain ⟨hlen, htype⟩ := h a ha
  exact ⟨by omega, by omega⟩

theorem headByte_append {i : ℕ} {head rest : Bytes} (h : i < head.length) :
    headByte i (head ++ rest) = headByte i head := by
  rw [headByte, field_append (by omega), headByte]

theorem ofBigEndian_four {v : ℕ} (h : v < 256 ^ 4) : ofBigEndian (bigEndian 4 v) = v := by
  rw [ofBigEndian_bigEndian, Nat.mod_eq_of_lt h]

theorem ruleOpBody_eq (src dst : Subnet) (table priority : ℤ) :
    ruleOpBody src dst table priority =
      ruleHead src dst table ++ (ruleAttrs src dst table priority).flatMap Attr.encode := by
  have hfew := length_ruleAttrs src dst table priority
  have hhead : (ruleHead src dst table).length = 12 := rfl
  exact foldl_nlAddattr_four (by rw [hhead]) (fun a ha => (data_of_mem_ruleAttrs ha).1)
    (by omega)

/-- **The kernel is asked for the rule that is meant.** -/
theorem readRuleAsk_ruleOpBody {src dst : Subnet} {table priority : ℤ}
    (hsrc : src.addr < 256 ^ 4 ∧ src.len < 256) (hdst : dst.addr < 256 ^ 4 ∧ dst.len < 256)
    (htable : 0 < table ∧ table < 2 ^ 31) (hpriority : 0 ≤ priority ∧ priority < 2 ^ 31) :
    readRuleAsk (ruleOpBody src dst table priority) =
      { src := if src.len = 0 then none else some src
        dst := if dst.len = 0 then none else some dst
        table := table.toNat
        prio := priority.toNat } := by
  have has : ∀ a ∈ ruleAttrs src dst table priority, a.Fits :=
    fits_of_four fun a ha => data_of_mem_ruleAttrs ha
  have hhead : (ruleHead src dst table).length = 12 := rfl
  have hattrs :
      routeAttrs (ruleOpBody src dst table priority) = ruleAttrs src dst table priority := by
    rw [ruleOpBody_eq, routeAttrs, List.drop_left' hhead, attrs_flatMap has]
  have hbyte (i : ℕ) (hi : i < 12) :
      headByte i (ruleOpBody src dst table priority) = headByte i (ruleHead src dst table) := by
    rw [ruleOpBody_eq, headByte_append (by omega)]
  have hsrcByte : headByte 2 (ruleHead src dst table) = src.len :=
    UInt8.toNat_ofNat_of_lt' hsrc.2
  have hdstByte : headByte 1 (ruleHead src dst table) = dst.len :=
    UInt8.toNat_ofNat_of_lt' hdst.2
  have haction : headByte 7 (ruleHead src dst table) = 1 := rfl
  rw [readRuleAsk, hattrs, hbyte 2 (by decide), hbyte 1 (by decide), hbyte 7 (by decide),
    hsrcByte, hdstByte, haction, ruleAttrs, if_pos htable.1, if_pos hpriority.1]
  have htable' : nlRtaU32 (ofNat 4 table.toNat) = table.toNat := nlRtaU32_ofNat (by omega)
  have hprio' : nlRtaU32 (ofNat 4 priority.toNat) = priority.toNat := nlRtaU32_ofNat (by omega)
  by_cases hs : src.len = 0 <;> by_cases hd : dst.len = 0 <;>
    simp [readSubnet, attrData_cons, Nat.pos_iff_ne_zero, hs, hd, htable', hprio',
      ofBigEndian_four hsrc.1, ofBigEndian_four hdst.1]

/-! ## Addresses and routes -/

theorem addAddr4Body_eq (index addr pfx : ℕ) :
    addAddr4Body index addr pfx =
      addrHead index pfx ++ (addrAttrs addr pfx).flatMap Attr.encode := by
  have hhead : (addrHead index pfx).length = 8 := by simp [addrHead]
  have hfour : ∀ a ∈ addrAttrs addr pfx, a.data.length = 4 := by
    simp only [addrAttrs, List.mem_append, List.mem_cons, List.not_mem_nil, or_false,
      List.mem_ite_nil_right]
    rintro a ((rfl | rfl) | ⟨-, rfl⟩) <;> simp
  have hfew : (addrAttrs addr pfx).length ≤ 3 := by
    rw [addrAttrs]
    split <;> simp
  exact foldl_nlAddattr_four (by rw [hhead]) hfour (by omega)

/-- **The kernel is asked for the address that is meant**, with the broadcast address of its
prefix. -/
theorem readAddrAsk_addAddr4Body {index addr pfx : ℕ} (hindex : index < 256 ^ 4)
    (haddr : addr < 256 ^ 4) (hpfx : pfx ≤ 32) :
    readAddrAsk (addAddr4Body index addr pfx) =
      { index
        addr := ⟨addr, pfx⟩
        address := some addr
        broadcast := if pfx < 32 then some (addr ||| 0xffffffff >>> pfx) else none } := by
  have hhead : (addrHead index pfx).length = 8 := by simp [addrHead]
  have hfour : ∀ a ∈ addrAttrs addr pfx, a.data.length = 4 ∧ a.type ≤ 15 := by
    simp only [addrAttrs, List.mem_append, List.mem_cons, List.not_mem_nil, or_false,
      List.mem_ite_nil_right]
    rintro a ((rfl | rfl) | ⟨-, rfl⟩) <;> simp
  have hattrs : attrs ((addAddr4Body index addr pfx).drop 8) = addrAttrs addr pfx := by
    rw [addAddr4Body_eq, List.drop_left' hhead, attrs_flatMap (fits_of_four hfour)]
  have hlen : headByte 1 (addAddr4Body index addr pfx) = pfx := by
    rw [addAddr4Body_eq, headByte_append (by omega)]
    exact UInt8.toNat_ofNat_of_lt' (show pfx < 256 by omega)
  have hidx : toNat (field 4 4 (addAddr4Body index addr pfx)) = index := by
    have hfour : ([2, UInt8.ofNat pfx, 0, 0] : Bytes).length = 4 := rfl
    rw [addAddr4Body_eq, addrHead, List.append_assoc, field_next hfour, toNat_field_here hindex]
  have hbroadcast : addr ||| 0xffffffff >>> pfx < 256 ^ 4 := by
    have hle : 0xffffffff >>> pfx < 2 ^ 32 :=
      (Nat.shiftRight_le _ _).trans_lt (by decide)
    exact Nat.or_lt_two_pow (show addr < 2 ^ 32 from haddr) hle
  rw [readAddrAsk, hattrs, hlen, hidx, addrAttrs]
  by_cases h : pfx < 32 <;>
    simp [attrData_cons, attrData_nil, h, ofBigEndian_four haddr, ofBigEndian_four hbroadcast]

theorem data_of_mem_addRouteAttrs {dst : Subnet} {gw oif : ℕ} {a : Attr}
    (h : a ∈ addRouteAttrs dst gw oif) : a.data.length = 4 ∧ a.type ≤ 15 := by
  simp only [addRouteAttrs, List.mem_append, List.mem_ite_nil_right, List.mem_singleton] at h
  rcases h with ⟨-, rfl⟩ | ⟨-, rfl⟩ | rfl <;> simp

theorem addRoute4Body_eq (dst : Subnet) (gw oif : ℕ) :
    addRoute4Body dst gw oif =
      addRouteHead dst gw ++ (addRouteAttrs dst gw oif).flatMap Attr.encode := by
  have hhead : (addRouteHead dst gw).length = 12 := rfl
  have hfew : (addRouteAttrs dst gw oif).length ≤ 3 := by
    rw [addRouteAttrs]
    split <;> split <;> simp
  exact foldl_nlAddattr_four (by rw [hhead]) (fun a ha => (data_of_mem_addRouteAttrs ha).1)
    (by omega)

/-- **The kernel is asked for the route that is meant.** -/
theorem readRouteAsk_addRoute4Body {dst : Subnet} {gw oif : ℕ}
    (hdst : dst.addr < 256 ^ 4 ∧ dst.len < 256) (hgw : gw < 256 ^ 4) (hoif : oif < 256 ^ 4) :
    readRouteAsk (addRoute4Body dst gw oif) =
      { dst := if dst.len = 0 then none else some dst
        gateway := if gw = 0 then none else some gw
        oif := some oif
        table := 254
        onLink := gw = 0 } := by
  have hhead : (addRouteHead dst gw).length = 12 := rfl
  have hattrs : routeAttrs (addRoute4Body dst gw oif) = addRouteAttrs dst gw oif := by
    rw [addRoute4Body_eq, routeAttrs, List.drop_left' hhead,
      attrs_flatMap (fits_of_four fun a ha => data_of_mem_addRouteAttrs ha)]
  have hbyte (i : ℕ) (hi : i < 12) :
      headByte i (addRoute4Body dst gw oif) = headByte i (addRouteHead dst gw) := by
    rw [addRoute4Body_eq, headByte_append (by omega)]
  have hdstByte : headByte 1 (addRouteHead dst gw) = dst.len := UInt8.toNat_ofNat_of_lt' hdst.2
  have htable : headByte 4 (addRouteHead dst gw) = 254 := rfl
  have hscope : headByte 6 (addRouteHead dst gw) = if gw = 0 then 253 else 0 := by
    rw [addRouteHead]
    split <;> rfl
  rw [readRouteAsk, hattrs, hbyte 1 (by decide), hbyte 4 (by decide), hbyte 6 (by decide),
    hdstByte, htable, hscope, addRouteAttrs]
  by_cases hd : dst.len = 0 <;> by_cases hg : gw = 0 <;>
    simp [readSubnet, attrData_cons, attrData_nil, Nat.pos_iff_ne_zero, hd, hg,
      nlRtaU32_ofNat hoif, ofBigEndian_four hdst.1, ofBigEndian_four hgw]

end Read

end Droidspaces.Network
