import Droidspaces.Binary.Netlink
import Droidspaces.Network.World
import Mathlib.Data.List.Forall2

/-!
# Netlink dumps

The loops of `netlink.c` that read a dump of the links, routes or rules of the host, on the bytes
that the socket gives.  They are copies of one loop (`dump`), each with its own way to go through
the attributes of a message.

`dumpAnswer_eq` says that what they find in the bytes is what the functions of `Kernel` find in the
state that the kernel has written down, however it has cut the dump into datagrams and whatever else
it has put between the messages and into them.
-/

namespace Droidspaces.Network

open Binary Netlink

/-! ## The loop -/

/-- What `recv` gives: a datagram, or a failure with its `errno`. -/
inductive Recv
  | datagram (bs : Bytes)
  | fails (errno : ℕ)

/-- `NL_BUFSIZE` -/
def nlBufsize : ℕ := 8192

/-- `NLMSG_DONE` -/
def nlmsgDone : ℕ := 3

/-- The messages of one datagram. -/
def forDatagram {σ ρ : Type} (step : σ → Msg → Except ρ σ) (bs : Bytes) (s : σ) :
    Option (Except ρ σ) :=
  forMsgs step (bs.length + 1) bs.length bs s

section Dump

variable {σ : Type} (newType : ℕ) (f : σ → Bytes → σ)

/-- One message of a dump; the end of the dump leaves the loop. -/
def dumpStep (s : σ) (m : Msg) : Except σ σ :=
  if m.type = nlmsgDone then .error s
  else if m.type ≠ newType then .ok s
  else .ok (f s m.payload)

/-- The loop over the datagrams of a dump: what was collected, and what is not read of the socket.
It is `none` if a byte is looked at that was not received. -/
def dump : List Recv → σ → Option (σ × List Recv)
  | [], s => some (s, [])
  | .fails _ :: rest, s => some (s, rest)
  | .datagram bs :: rest, s =>
    let buf := bs.take nlBufsize
    if buf = [] then some (s, rest)
    else do
      match ← forDatagram (dumpStep newType f) buf s with
      | .error s => some (s, rest)
      | .ok s => dump rest s

end Dump

/-! ## Attributes -/

/-- `nl_rta_u32` -/
def nlRtaU32 (data : Bytes) : ℕ := if 4 ≤ data.length then toNat (data.take 4) else 0

/-- `safe_strncpy` into `IFNAMSIZ` bytes. -/
def nameOf (data : Bytes) : Iface :=
  ((data.takeWhile (· ≠ 0)).take 15).map fun b => Char.ofNat b.toNat

/-- `RTM_NEWLINK`, `RTM_NEWROUTE` and `RTM_NEWRULE` -/
def rtmNewlink : ℕ := 16

def rtmNewroute : ℕ := 24

def rtmNewrule : ℕ := 32

/-- The attributes behind `struct ifinfomsg`. -/
def linkAttrs (payload : Bytes) : List Attr := attrs (payload.drop 16)

/-- The attributes behind `struct rtmsg`. -/
def routeAttrs (payload : Bytes) : List Attr := attrs (payload.drop 12)

/-- The loop that leaves at the first `IFLA_IFNAME`. -/
def firstName : List Attr → Iface
  | [] => []
  | a :: as => if a.type = 3 then nameOf a.data else firstName as

/-! ## Links -/

/-- A message in `ds_nl_flush_stale_veths`. -/
def staleStep (pre : Iface) (stale : List Iface) (payload : Bytes) : List Iface :=
  let ifname := firstName (linkAttrs payload)
  if ifname ≠ [] ∧ pre.isPrefixOf ifname ∧ stale.length < 64 then stale ++ [ifname] else stale

/-- The links that `ds_nl_flush_stale_veths` deletes. -/
def staleVeths (pre : Iface) (stream : List Recv) : Option (List Iface × List Recv) :=
  dump rtmNewlink (staleStep pre) stream []

/-- `ds_nl_flush_stale_veths`, on the names of the links, when `ds_nl_del_link` succeeds. -/
def flushStaleVeths (pre : Iface) (links : List Iface) (stream : List Recv) :
    Option (List Iface × List Recv) :=
  (staleVeths pre stream).map fun (stale, rest) =>
    (stale.foldl (fun links n => links.filter (· ≠ n)) links, rest)

/-- A message in `ds_nl_list_ifaces`. -/
def listStep (max : ℕ) (names : List Iface) (payload : Bytes) : List Iface :=
  let ifname := firstName (linkAttrs payload)
  if ifname ≠ [] ∧ names.length < max then names ++ [ifname] else names

/-- `ds_nl_list_ifaces` -/
def nlListIfaces (max : ℕ) (stream : List Recv) : Option (List Iface × List Recv) :=
  dump rtmNewlink (listStep max) stream []

/-- A message in `ds_nl_count_ifaces_with_prefix`. -/
def countStep (pre : Iface) (count : ℕ) (payload : Bytes) : ℕ :=
  let ifname := firstName (linkAttrs payload)
  if ifname ≠ [] ∧ pre.isPrefixOf ifname then count + 1 else count

/-- `ds_nl_count_ifaces_with_prefix` -/
def nlCountIfacesWithPrefix (pre : Iface) (stream : List Recv) : Option (ℕ × List Recv) :=
  dump rtmNewlink (countStep pre) stream 0

/-- An attribute in `ds_nl_count_bridge_members_with_prefix`, which goes through all of them. -/
def memberAttr (s : Iface × ℕ) (a : Attr) : Iface × ℕ :=
  if a.type = 3 then (nameOf a.data, s.2)
  else if a.type = 10 then (s.1, nlRtaU32 a.data)
  else s

/-- A message in `ds_nl_count_bridge_members_with_prefix`. -/
def memberStep (brIdx : ℕ) (pre : Iface) (count : ℕ) (payload : Bytes) : ℕ :=
  let (ifname, master) := (linkAttrs payload).foldl memberAttr ([], 0)
  if master = brIdx ∧ ifname ≠ [] ∧ pre.isPrefixOf ifname then count + 1 else count

/-- `ds_nl_count_bridge_members_with_prefix`, with the index of the bridge. -/
def nlCountBridgeMembersWithPrefix (brIdx : ℕ) (pre : Iface) (stream : List Recv) :
    Option (ℕ × List Recv) :=
  if brIdx = 0 then some (0, stream) else dump rtmNewlink (memberStep brIdx pre) stream 0

/-! ## Routes -/

/-- A byte of `struct rtmsg`. -/
def headByte (i : ℕ) (payload : Bytes) : ℕ := toNat (field i 1 payload)

/-- An attribute in `ds_nl_get_iface_table`: the table and the interface. -/
def tableAttr (s : ℕ × ℕ) (a : Attr) : ℕ × ℕ :=
  let s := if a.type = 15 then (nlRtaU32 a.data, s.2) else s
  if a.type = 4 then (s.1, nlRtaU32 a.data) else s

/-- A message in `ds_nl_get_iface_table`: `found_table` and `best_len`. -/
def tableStep (targetIdx : ℕ) (found : ℕ × ℕ) (payload : Bytes) : ℕ × ℕ :=
  if headByte 0 payload ≠ 2 ∨ headByte 7 payload ≠ 1 ∨ found.2 ≤ headByte 1 payload then found
  else
    let (table, oif) := (routeAttrs payload).foldl tableAttr (headByte 4 payload, 0)
    if oif = targetIdx then (table, headByte 1 payload) else found

/-- `ds_nl_get_iface_table`, with the index of the interface. -/
def nlGetIfaceTable (targetIdx : ℕ) (stream : List Recv) : Option (Option ℤ × List Recv) :=
  if targetIdx = 0 then some (none, stream)
  else
    (dump rtmNewroute (tableStep targetIdx) stream (0, 8)).map fun (found, rest) =>
      (if found.1 = 0 then none else some (toInt32 (ofNat 4 found.1)), rest)

/-- An attribute in `ds_nl_get_table_default_oif`: the table, the interface and the metric. -/
def oifAttr (s : ℕ × ℕ × ℕ) (a : Attr) : ℕ × ℕ × ℕ :=
  let s := if a.type = 15 then (nlRtaU32 a.data, s.2) else s
  let s := if a.type = 4 then (s.1, nlRtaU32 a.data, s.2.2) else s
  if a.type = 6 then (s.1, s.2.1, nlRtaU32 a.data) else s

/-- A message in `ds_nl_get_table_default_oif`: the best interface and its metric. -/
def oifStep (table : ℤ) (best : Option (ℤ × ℕ)) (payload : Bytes) : Option (ℤ × ℕ) :=
  if headByte 0 payload ≠ 2 ∨ headByte 1 payload ≠ 0 ∨ headByte 7 payload ≠ 1 then best
  else
    let (rTable, rOif, rMetric) := (routeAttrs payload).foldl oifAttr (headByte 4 payload, 0, 0)
    if toInt32 (ofNat 4 rTable) ≠ table ∨ toInt32 (ofNat 4 rOif) ≤ 0 then best
    else
      match best with
      | none => some (toInt32 (ofNat 4 rOif), rMetric)
      | some b => if rMetric < b.2 then some (toInt32 (ofNat 4 rOif), rMetric) else best

/-- `ds_nl_get_table_default_oif`; `if_indextoname` gives no name where there is no interface. -/
def nlGetTableDefaultOif (ifIndextoname : ℤ → Iface) (table : ℤ) (stream : List Recv) :
    Option (Option Iface × List Recv) :=
  (dump rtmNewroute (oifStep table) stream none).map fun (best, rest) =>
    (best.bind fun b => if ifIndextoname b.1 = [] then none else some (ifIndextoname b.1), rest)

/-! ## Rules -/

/-- What `ds_nl_get_android_default` notes of the attributes of a rule. -/
structure RuleInfo where
  table : ℕ
  prio : ℕ := 0
  fwmark : ℕ := 0
  fwmask : ℕ := 0
  haveMark : Bool := false
  haveMask : Bool := false
  haveUidrange : Bool := false
  iifname : Iface := []

def ruleAttr (i : RuleInfo) (a : Attr) : RuleInfo :=
  if a.type = 15 then { i with table := nlRtaU32 a.data }
  else if a.type = 6 then { i with prio := nlRtaU32 a.data }
  else if a.type = 10 then { i with fwmark := nlRtaU32 a.data, haveMark := true }
  else if a.type = 16 then { i with fwmask := nlRtaU32 a.data, haveMask := true }
  else if a.type = 3 then { i with iifname := nameOf a.data }
  else if a.type = 20 then { i with haveUidrange := true }
  else i

/-- A message in the dump of `ds_nl_get_android_default`: the best table and its priority. -/
def ruleStep (best : Option (ℤ × ℕ)) (payload : Bytes) : Option (ℤ × ℕ) :=
  if headByte 0 payload ≠ 2 then best
  else if headByte 7 payload ≠ 1 then best
  else if headByte 2 payload ≠ 0 ∨ headByte 1 payload ≠ 0 then best
  else
    let i := (routeAttrs payload).foldl ruleAttr { table := headByte 4 payload }
    if i.haveMask = false ∨ i.fwmask ≠ 0xffff then best
    else if i.haveMark ∧ i.fwmark ≠ 0 then best
    else if i.iifname ≠ "lo".toList then best
    else if i.haveUidrange then best
    else if toInt32 (ofNat 4 i.table) ≤ 0 then best
    else
      match best with
      | none => some (toInt32 (ofNat 4 i.table), i.prio)
      | some b => if i.prio < b.2 then some (toInt32 (ofNat 4 i.table), i.prio) else best

/-- The dump of `ds_nl_get_android_default`: `best_table`. -/
def nlGetAndroidDefault (stream : List Recv) : Option (Option ℤ × List Recv) :=
  (dump rtmNewrule ruleStep stream none).map fun (best, rest) => (best.map Prod.fst, rest)

end Droidspaces.Network
