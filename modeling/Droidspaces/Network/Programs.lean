import Droidspaces.Network.Uplink
import Droidspaces.Transition.RelyGuarantee

/-!
# The NAT code of `network.c`

Policy rules, host-side setup of a container's veth, the reprobe of the route monitor and the
cleanup of a stopped container, as programs of requests.  Every definition follows the C function
of the same name, one operation for every netlink request and every netfilter rule.

`network` runs the programs of any number of processes over one kernel.
-/

namespace Droidspaces.Network

open Transition

/-- Programs of the NAT code. -/
abbrev Code := Prog Op Op.Res

def act (op : Op) : Code op.Res := Prog.perform op

/-- Uplink detection within the NAT code. -/
def detect {α : Type} (m : Detect α) : Code α := m.embed .query fun _ r => r

/-! ## Policy rules (`netlink.c`, `network.c`) -/

/-- `DS_RULE_PRIO_TO_SUBNET`. -/
def rulePrioToSubnet : ℕ := 6090

/-- `DS_RULE_PRIO_TETHER`. -/
def rulePrioTether : ℕ := 6095

/-- `DS_RULE_PRIO_FROM_SUBNET`. -/
def rulePrioFromSubnet : ℕ := 6100

/-- `DS_ANDROID_TABLE_LOCAL_NETWORK`. -/
def androidTableLocalNetwork : ℕ := 97

/-- The end of `ds_nl_rule_op`: a rule that is there already, or gone already, is a success. -/
def ruleResult (ret : ℤ) : ℤ := if ret = eexist ∨ ret = enoent then 0 else ret

/-- `ds_nl_add_rule4`. -/
def dsNlAddRule4 (src dst : Option Subnet) (table : ℤ) (prio : ℕ) : Code ℤ := do
  return ruleResult (← act (.newRule { src, dst, table := table.toNat, prio }))

/-- `ds_nl_del_rule4`. -/
def dsNlDelRule4 (src dst : Option Subnet) (table : ℤ) (prio : ℕ) : Code ℤ := do
  return ruleResult (← act (.delRule { src, dst, table := table.toNat, prio }))

/-- "to 172.28.0.0/16 lookup main". -/
def toRule : PolicyRule where
  dst := some defaultSubnet
  table := rtTableMain
  prio := rulePrioToSubnet

/-- "from 172.28.0.0/16 lookup local_network". -/
def tetherRule : PolicyRule where
  src := some defaultSubnet
  table := androidTableLocalNetwork
  prio := rulePrioTether

/-- "from 172.28.0.0/16 lookup `table`". -/
def fromRule (table : ℤ) : PolicyRule where
  src := some defaultSubnet
  table := table.toNat
  prio := rulePrioFromSubnet

/-- The request for the FROM rule of a table. -/
def addFromRule (table : ℤ) : Code ℤ :=
  dsNlAddRule4 (some defaultSubnet) none table rulePrioFromSubnet

def delFromRule (table : ℤ) : Code ℤ :=
  dsNlDelRule4 (some defaultSubnet) none table rulePrioFromSubnet

/-- `install_policy_rules`. -/
def installPolicyRules : Code ℤ := do
  let toSubnet ← dsNlAddRule4 none (some defaultSubnet) rtTableMain rulePrioToSubnet
  let tether ←
    dsNlAddRule4 (some defaultSubnet) none androidTableLocalNetwork rulePrioTether
  let gwTable := (← act .globals).gwTable
  let fromSubnet ← if 0 < gwTable then addFromRule gwTable else pure 0
  return if toSubnet < 0 ∨ tether < 0 ∨ fromSubnet < 0 then -1 else 0

variable (P : Platform)

/-- `ds_net_setup_android_routing`. -/
def setupAndroidRouting : Code Unit := do
  match ← detect (findActiveUplink P (← act .globals).upstream) with
  | some (_, table) => act (.setGwTable table)
  | none => pure ()
  let _ ← installPolicyRules

/-! ## Netfilter rules -/

/-- `DS_NAT_BRIDGE`. -/
def natBridge : Iface := "ds-br0".toList

/-- `host_filter_iface`. -/
def hostFilterIface (m : Monitor) : Iface := if m.bridgeless then m.veth else natBridge

/-- `ds_ipt_ensure_input_accept` and `ds_ipt_ensure_forward_accept`. -/
def acceptRules (iface : Iface) : List HostRule :=
  [.inputAccept iface, .forwardIn iface, .forwardOut iface]

def ensureRule (r : HostRule) : Code Unit := act (.ensure r)

def removeRule (r : HostRule) : Code Unit := act (.removeAll r)

/-- One operation for every rule of a list. -/
def forRules (op : HostRule → Code Unit) : List HostRule → Code Unit
  | [] => return ()
  | r :: rules => do
    op r
    forRules op rules

/-- The rules of `install_netfilter_rules`, port forwards apart, in its order. -/
def netfilterRules (iface : Iface) : List HostRule :=
  (if iface = [] then [] else acceptRules iface) ++ [.masquerade defaultSubnet, .mssClamp]

/-- `install_netfilter_rules`. -/
def installNetfilterRules : Code Unit := do
  let m ← act .globals
  forRules ensureRule (netfilterRules (hostFilterIface m))

/-- `ds_ipt_remove_iface_rules`. -/
def dsIptRemoveIfaceRules (iface : Iface) : Code Unit :=
  forRules removeRule [.forwardIn iface, .forwardOut iface, .inputAccept iface]

/-- `ds_ipt_remove_ds_rules`. -/
def dsIptRemoveDsRules : Code Unit :=
  forRules removeRule [.masquerade defaultSubnet, .forwardIn natBridge,
    .forwardOut natBridge, .inputAccept natBridge, .mssClamp]

/-! ## Setup, reprobe and cleanup -/

/-- The prefix of `veth_host_name` in NAT mode, which `ds_net_cleanup` counts. -/
def vethPrefix : Iface := "ds-v".toList

/-- `veth_host_name`. -/
def vethHostName (child : Pid) : Iface := vethPrefix ++ Nat.toDigits 10 child

/-- `setup_veth_host_side`. -/
def setupVethHostSide (cfg : NatConfig) (child : Pid) : Code ℤ := do
  let veth := vethHostName child
  act (.setHost cfg.bridgeless veth)
  act (.delLink veth)
  if !cfg.bridgeless then
    if !(← act (.linkExists natBridge)) then
      let _ ← act (.createLink natBridge)
  installNetfilterRules
  if !(← act (.createLink veth)) then
    return -1
  if !(← act .attachPeer) then
    return -1
  act (.setUpstream cfg.upstream)
  if P.android then
    setupAndroidRouting P
  return 0

/-- The netfilter half of `do_uplink_reprobe`. -/
def reconcileNetfilter : Code Unit := do
  let iface := hostFilterIface (← act .globals)
  if iface ≠ [] then
    if !(← act (.hostRulesPresent (netfilterRules iface))) then
      installNetfilterRules

/-- `do_uplink_reprobe` when no uplink is found. -/
def withoutUplink (upstream : List Iface) : Code Unit := do
  if upstream ≠ [] then
    let old := (← act .globals).gwTable
    if 0 < old then
      let _ ← delFromRule old
      act (.setGwTable 0)

/-- `do_uplink_reprobe` once the uplink's table is known. -/
def switchUplink (table : ℤ) : Code Unit := do
  let old := (← act .globals).gwTable
  if table ≠ old then
    if 0 < old then
      let _ ← delFromRule old
    if (← addFromRule table) = 0 then
      act (.setGwTable table)

/-- `do_uplink_reprobe`. -/
def doUplinkReprobe : Code Unit := do
  let _ ← installPolicyRules
  reconcileNetfilter
  let upstream := (← act .globals).upstream
  match ← detect (findActiveUplink P upstream) with
  | none => withoutUplink upstream
  | some (_, table) => switchUplink table

/-- The priorities that `ds_net_cleanup` clears, the legacy ones last. -/
def cleanupPrios : List ℕ :=
  [rulePrioToSubnet, rulePrioTether, rulePrioFromSubnet, 90, 100, 200, 201]

/-- The loop of `ds_net_cleanup` over the priorities. -/
def removePolicyRules : List ℕ → Code Unit
  | [] => return ()
  | prio :: prios => do
    let _ ← dsNlDelRule4 none (some defaultSubnet) 0 prio
    let _ ← dsNlDelRule4 (some defaultSubnet) none 0 prio
    removePolicyRules prios

/-- `ds_net_cleanup` of a NAT container. -/
def dsNetCleanup (cfg : NatConfig) (child : Pid) : Code Unit := do
  let veth := vethHostName child
  act (.delLink veth)
  if 0 < (← act (.countIfaces vethPrefix)) then
    if cfg.bridgeless then
      dsIptRemoveIfaceRules veth
  else
    if P.android then
      removePolicyRules cleanupPrios
    if cfg.bridgeless then
      dsIptRemoveIfaceRules veth
    dsIptRemoveDsRules

/-! ## What the programs ask for -/

/-- The operations on policy rules and on the cached table. -/
def Op.Routing : Op → Prop
  | .newRule r => r = toRule ∨ r = tetherRule ∨ ∃ c, r = fromRule c
  | .query _ | .delRule _ | .globals | .setGwTable _ => True
  | _ => False

/-- The operations on netfilter rules. -/
def Op.Netfilter : Op → Prop
  | .ensure _ | .removeAll _ | .hostRulesPresent _ | .globals => True
  | _ => False

section Only

variable {P}

theorem detect_routing {α : Type} (d : Detect α) : (detect d).Only Op.Routing :=
  Prog.only_embed (fun _ => trivial) d

theorem addFromRule_routing (c : ℤ) : (addFromRule c).Only Op.Routing :=
  ⟨Or.inr (Or.inr ⟨c, rfl⟩), fun _ => trivial⟩

theorem installPolicyRules_routing : installPolicyRules.Only Op.Routing := by
  simp only [installPolicyRules]
  refine Prog.only_bind ⟨Or.inl rfl, fun _ => trivial⟩ fun _ => ?_
  refine Prog.only_bind ⟨Or.inr (Or.inl rfl), fun _ => trivial⟩ fun _ => ?_
  refine Prog.only_bind (Prog.only_perform trivial) fun m => ?_
  split
  · exact Prog.only_bind (addFromRule_routing _) fun _ => trivial
  · trivial

theorem setupAndroidRouting_routing : (setupAndroidRouting P).Only Op.Routing := by
  unfold setupAndroidRouting
  refine Prog.only_bind (Prog.only_perform trivial) fun m => ?_
  refine Prog.only_bind (detect_routing _) fun found => ?_
  split
  · exact Prog.only_bind (Prog.only_perform trivial) fun _ =>
      Prog.only_bind installPolicyRules_routing fun _ => trivial
  · exact Prog.only_bind installPolicyRules_routing fun _ => trivial

theorem withoutUplink_routing (upstream : List Iface) :
    (withoutUplink upstream).Only Op.Routing := by
  simp only [withoutUplink]
  split
  · refine Prog.only_bind (Prog.only_perform trivial) fun m => ?_
    split
    · exact Prog.only_bind ⟨trivial, fun _ => trivial⟩ fun _ => Prog.only_perform trivial
    · trivial
  · trivial

theorem switchUplink_routing (table : ℤ) : (switchUplink table).Only Op.Routing := by
  have hadd : (do
      if (← addFromRule table) = 0 then
        act (.setGwTable table) : Code Unit).Only Op.Routing := by
    refine Prog.only_bind (addFromRule_routing table) fun ret => ?_
    split
    · exact Prog.only_perform trivial
    · trivial
  simp only [switchUplink]
  refine Prog.only_bind (Prog.only_perform trivial) fun m => ?_
  split
  · split
    · exact Prog.only_bind ⟨trivial, fun _ => trivial⟩ fun _ => hadd
    · exact hadd
  · trivial

theorem removePolicyRules_routing (prios : List ℕ) :
    (removePolicyRules prios).Only Op.Routing := by
  induction prios with
  | nil => trivial
  | cons prio prios ih =>
    exact Prog.only_bind ⟨trivial, fun _ => trivial⟩ fun _ =>
      Prog.only_bind ⟨trivial, fun _ => trivial⟩ fun _ => ih

theorem forRules_netfilter {op : HostRule → Code Unit} (hop : ∀ r, (op r).Only Op.Netfilter)
    (rules : List HostRule) : (forRules op rules).Only Op.Netfilter := by
  induction rules with
  | nil => trivial
  | cons r rules ih => exact Prog.only_bind (hop r) fun _ => ih

theorem installNetfilterRules_netfilter : installNetfilterRules.Only Op.Netfilter :=
  Prog.only_bind (Prog.only_perform trivial) fun _ =>
    forRules_netfilter (fun _ => Prog.only_perform trivial) _

theorem removeRules_netfilter (rules : List HostRule) :
    (forRules removeRule rules).Only Op.Netfilter :=
  forRules_netfilter (fun _ => Prog.only_perform trivial) rules

theorem reconcileNetfilter_netfilter : reconcileNetfilter.Only Op.Netfilter := by
  simp only [reconcileNetfilter]
  refine Prog.only_bind (Prog.only_perform trivial) fun m => ?_
  split
  · refine Prog.only_bind (Prog.only_perform trivial) fun present => ?_
    split
    · exact installNetfilterRules_netfilter
    · trivial
  · trivial

end Only

/-! ## The machine -/

/-- What a process does next. -/
inductive Entry where
  | setup (cfg : NatConfig) (child : Pid)
  | cleanup (cfg : NatConfig) (child : Pid)
  | reprobe
  | done
  deriving DecidableEq

def code : Entry → Code Entry
  | .setup cfg child => do
    let _ ← setupVethHostSide P cfg child
    return .cleanup cfg child
  | .cleanup cfg child => do
    dsNetCleanup P cfg child
    return .done
  | .reprobe => do
    doUplinkReprobe P
    return .done
  | .done => return .done

/-- Any number of processes over one kernel.  The creation of a link and its attachment may fail;
everything else succeeds. -/
def network : Machine Pid World Op Entry Empty Op.Res where
  code := code P
  exec w p op choice :=
    match op, choice with
    | .createLink _, _ + 1 => some (w, false)
    | .attachPeer, _ + 1 => some (w, false)
    | op, _ => some (w.perform p op)
  child _ _ := none
  runnable _ _ := true
  env _ e := e.elim

/-- The process is between two programs. -/
def idle (m : Code Entry) : Bool :=
  match m with
  | .ret _ => true
  | .call _ _ => false

theorem eq_ret_of_idle {m : Code Entry} (h : idle m = true) : ∃ e, m = .ret e := by
  cases m with
  | ret e => exact ⟨e, rfl⟩
  | call op k => cases h

/-- The process has finished its program. -/
def finished (m : Code Entry) : Bool :=
  match m with
  | .ret .done => true
  | _ => false

theorem eq_done_of_finished {m : Code Entry} (h : finished m = true) : m = .ret .done := by
  unfold finished at h
  split at h
  · rfl
  · cases h

theorem network_spawns : (network P).Spawns where
  exec _ _ _ _ _ _ _ _ _ _ := Or.inl rfl
  env _ e := e.elim

/-- An operation that succeeds whatever the environment chooses. -/
def Op.Certain (op : Op) : Prop :=
  ∀ P w p choice, (network P).exec w p op choice = some (w.perform p op)

variable {P} in
/-- One operation that succeeds, in a proof about the network with history. -/
theorem wp_act {γ α : Type} {note : γ → World → Pid → (op : Op) → op.Res → World → γ}
    {noteEnv : γ → World → Empty → World → γ}
    {C : Contract ((network P).withGhost note noteEnv)} {p : Pid} {s : World × γ}
    {K : World × γ → Prop} {op : Op} {k : op.Res → Code α} {Q : α → World × γ → Prop}
    (hop : op.Certain) (hstable : C.Stable p K) (hI : C.inv s) (hK : K s)
    (h : ∀ w g, K (w, g) → C.inv (w, g) → C.guard (w, g) p op →
      let t := ((w.perform p op).1, note g w p op (w.perform p op).2 (w.perform p op).1)
      C.safe (w, g) p op ∧ C.inv t ∧ (∀ q, q ≠ p → C.rely q (w, g) t) ∧
        C.wp p (k (w.perform p op).2) Q t) :
    C.wp p (act op >>= k) Q s := by
  refine Contract.wp_perform hstable hI hK ?_
  rintro ⟨w, g⟩ hKv hIv - hguard choice ⟨w', g'⟩ r hexec
  obtain ⟨hexec, hg⟩ := Machine.withGhost_exec hexec
  have hperform : w.perform p op = (w', r) := Option.some.inj ((hop P w p choice).symm.trans hexec)
  have hstep := h w g hKv hIv hguard
  simp only [hperform] at hstep
  obtain rfl : g' = note g w p op r w' := hg
  obtain ⟨hsafe, hinv, hrely, hrest⟩ := hstep
  exact ⟨⟨hsafe, hinv, fun q hq _ => hrely q hq, fun q e he => by cases he⟩, fun _ => hrest⟩

/-- One program of process `p` with nobody in between. -/
def World.runs {α : Type} (w : World) (p : Pid) (m : Code α) : World :=
  (m.runIn (fun w op => w.perform p op) w).1

end Droidspaces.Network
