import Droidspaces.Network.Programs
import Droidspaces.Transition.System

/-!
# Policy rules after the last container

Containers are started and stopped, the uplink changes and monitors reprobe it, one after the
other.  Each monitor keeps track of the one FROM rule it has installed, and the kernel holds them
all.  The cleanup of the last container deletes one rule of each kind, so it leaves nothing
exactly if there is at most one FROM rule when it begins (`stops_leave_none_iff`).

`two_uplinks_leave_a_rule` starts two containers on either side of an uplink change.
-/

namespace Droidspaces.Network

open Transition

variable (P : Platform)

/-! ## Runs of whole calls -/

/-- The world and the containers that are up. -/
structure Fleet where
  world : World
  up : List Pid

/-- The priorities of the container rules. -/
def rulePrios : List ℕ := [rulePrioToSubnet, rulePrioTether, rulePrioFromSubnet]

def isVeth (l : Link) : Bool := vethPrefix.isPrefixOf l.name

/-- The rest of the host changes the kernel: it adds none of the container rules and none of the
links. -/
def hostChange (k k' : Kernel) : Bool :=
  (rulePrios.all fun prio => (subnetRules prio k'.rules).isSublist (subnetRules prio k.rules)) &&
    k'.links.all fun l => !isVeth l || k.linkExists l.name

inductive FleetEvent where
  /-- A container boots, or reboots within its monitor. -/
  | start (p : Pid) (cfg : NatConfig)
  | reprobe (p : Pid)
  | stop (p : Pid) (cfg : NatConfig)
  /-- An uplink change, or anything else the host does. -/
  | host (k : Kernel)

/-- One call with nobody in between; the globals of a monitor end with it. -/
def Fleet.step (s : Fleet) : FleetEvent → Option Fleet
  | .start p cfg => some ⟨s.world.runs p (setupVethHostSide P cfg p), p :: s.up.erase p⟩
  | .reprobe p =>
    -- only Android has the route monitor
    if P.android = true ∧ p ∈ s.up then some { s with world := s.world.runs p (doUplinkReprobe P) }
    else none
  | .stop p cfg =>
    if p ∈ s.up then
      some ⟨(s.world.runs p (dsNetCleanup P cfg p)).setMonitor p {}, s.up.erase p⟩
    else none
  | .host k => if hostChange s.world.kernel k then some { s with world := s.world.withKernel k } else none

def fleet : System Fleet FleetEvent where
  step := Fleet.step P

/-- The stop of the last container. -/
def IsLastStop (s : Fleet) : FleetEvent → Prop
  | .stop p _ => s.up = [p]
  | _ => False

/-- No container rule is left. -/
def NoneLeft (k : Kernel) : Prop := ∀ prio ∈ rulePrios, subnetRules prio k.rules = []

/-- The kernel holds at most one FROM rule. -/
def OneFromRule (k : Kernel) : Prop := (subnetRules rulePrioFromSubnet k.rules).length ≤ 1

/-! ## What the code asks for -/

/-- The operations of the calls, while the containers `up` are up. -/
def Allowed (up : List Pid) : Op → Prop
  | .newRule r => P.android = true ∧ (r = toRule ∨ r = tetherRule ∨ ∃ c, r = fromRule c)
  | .createLink n => n = natBridge ∨ ∃ q ∈ up, n = vethHostName q
  | _ => True

section Allowed

variable {P} {up : List Pid}

theorem allowed_of_routing (hP : P.android = true) {op : Op} (h : op.Routing) :
    Allowed P up op := by
  cases op with
  | newRule r => exact ⟨hP, h⟩
  | createLink n => exact h.elim
  | _ => trivial

theorem allowed_of_netfilter {op : Op} (h : op.Netfilter) : Allowed P up op := by
  cases op with
  | newRule r => exact h.elim
  | createLink n => exact h.elim
  | _ => trivial

theorem setupVethHostSide_allowed (cfg : NatConfig) {p : Pid} (hp : p ∈ up) :
    (setupVethHostSide P cfg p).Only (Allowed P up) := by
  have hveth : (act (.createLink (vethHostName p))).Only (Allowed P up) :=
    Prog.only_perform (Or.inr ⟨p, hp, rfl⟩)
  have hbridge : (act (.createLink natBridge)).Only (Allowed P up) :=
    Prog.only_perform (Or.inl rfl)
  have htail : ∀ u : Unit, (do
      installNetfilterRules
      if !(← act (.createLink (vethHostName p))) then
        return -1
      if !(← act .attachPeer) then
        return -1
      act (.setUpstream cfg.upstream)
      if P.android then
        setupAndroidRouting P
      return 0 : Code ℤ).Only (Allowed P up) := by
    intro _
    refine Prog.only_bind (installNetfilterRules_netfilter.mono fun _ => allowed_of_netfilter)
      fun _ => ?_
    refine Prog.only_bind hveth fun created => ?_
    split
    · trivial
    refine Prog.only_bind (Prog.only_perform trivial) fun attached => ?_
    split
    · trivial
    refine Prog.only_bind (Prog.only_perform trivial) fun _ => ?_
    split
    · rename_i hP
      exact Prog.only_bind
        (setupAndroidRouting_routing.mono fun _ => allowed_of_routing hP) fun _ => trivial
    · trivial
  simp only [setupVethHostSide]
  refine Prog.only_bind (Prog.only_perform trivial) fun _ => ?_
  refine Prog.only_bind (Prog.only_perform trivial) fun _ => ?_
  split
  · refine Prog.only_bind (Prog.only_perform trivial) fun present => ?_
    split
    · exact Prog.only_bind hbridge fun _ => htail ()
    · exact htail ()
  · exact htail ()

theorem doUplinkReprobe_allowed (hP : P.android = true) :
    (doUplinkReprobe P).Only (Allowed P up) := by
  have hrouting {α : Type} {m : Code α} (h : m.Only Op.Routing) : m.Only (Allowed P up) :=
    h.mono fun _ => allowed_of_routing hP
  simp only [doUplinkReprobe]
  refine Prog.only_bind (hrouting installPolicyRules_routing) fun _ => ?_
  refine Prog.only_bind (reconcileNetfilter_netfilter.mono fun _ => allowed_of_netfilter)
    fun _ => ?_
  refine Prog.only_bind (Prog.only_perform trivial) fun m => ?_
  refine Prog.only_bind (hrouting (detect_routing _)) fun found => ?_
  split
  · exact hrouting (withoutUplink_routing _)
  · exact hrouting (switchUplink_routing _)

end Allowed

/-! ## The invariant -/

/-- The container rules and links while the containers `up` are up. -/
structure Tidy (up : List Pid) (k : Kernel) : Prop where
  toSubnet : ∀ r ∈ subnetRules rulePrioToSubnet k.rules, r = toRule
  tether : ∀ r ∈ subnetRules rulePrioTether k.rules, r = tetherRule
  fromSubnet : ∀ r ∈ subnetRules rulePrioFromSubnet k.rules, ∃ c, r = fromRule c
  nodup : ∀ prio ∈ rulePrios, (subnetRules prio k.rules).Nodup
  veth : ∀ l ∈ k.links, isVeth l = true → ∃ q ∈ up, l.name = vethHostName q
  off : P.android = false → NoneLeft k

section Tidy

variable {P} {up : List Pid} {k k' : Kernel} {w : World} {p : Pid}

theorem Tidy.of_sublist {up' : List Pid} (h : Tidy P up k)
    (hrules : ∀ prio ∈ rulePrios,
      (subnetRules prio k'.rules).Sublist (subnetRules prio k.rules))
    (hveth : ∀ l ∈ k'.links, isVeth l = true → ∃ q ∈ up', l.name = vethHostName q) :
    Tidy P up' k' where
  toSubnet r hr := h.toSubnet r ((hrules rulePrioToSubnet (by decide)).subset hr)
  tether r hr := h.tether r ((hrules rulePrioTether (by decide)).subset hr)
  fromSubnet r hr := h.fromSubnet r ((hrules rulePrioFromSubnet (by decide)).subset hr)
  nodup prio hprio := (h.nodup prio hprio).sublist (hrules prio hprio)
  veth := hveth
  off hP prio hprio := by
    have hsub := hrules prio hprio
    rw [h.off hP prio hprio] at hsub
    exact List.sublist_nil.1 hsub

theorem of_mem_subnetRules_newRule {prio : ℕ} {r x : PolicyRule} {rules : List PolicyRule}
    (hx : x ∈ subnetRules prio (newRule r rules).1) :
    x = r ∧ aboutSubnet prio r = true ∨ x ∈ subnetRules prio rules := by
  obtain ⟨hmem, habout⟩ := List.mem_filter.1 hx
  rcases mem_newRule.1 hmem with rfl | hmem
  · exact Or.inl ⟨rfl, habout⟩
  · exact Or.inr (List.mem_filter.2 ⟨hmem, habout⟩)

theorem aboutSubnet_eq_prio {prio : ℕ} {r : PolicyRule} (h : aboutSubnet prio r = true) :
    r.prio = prio := by
  simp only [aboutSubnet, Bool.and_eq_true, beq_iff_eq] at h
  exact h.1

theorem Tidy.newRule (h : Tidy P up k) {r : PolicyRule} (hP : P.android = true)
    (hr : r = toRule ∨ r = tetherRule ∨ ∃ c, r = fromRule c) :
    Tidy P up { k with rules := (newRule r k.rules).1 } where
  toSubnet x hx := by
    rcases of_mem_subnetRules_newRule hx with ⟨rfl, habout⟩ | hx
    · have hprio := aboutSubnet_eq_prio habout
      rcases hr with rfl | rfl | ⟨c, rfl⟩
      · rfl
      · exact absurd hprio (by decide)
      · exact absurd hprio (by simp [fromRule, rulePrioFromSubnet, rulePrioToSubnet])
    · exact h.toSubnet x hx
  tether x hx := by
    rcases of_mem_subnetRules_newRule hx with ⟨rfl, habout⟩ | hx
    · have hprio := aboutSubnet_eq_prio habout
      rcases hr with rfl | rfl | ⟨c, rfl⟩
      · exact absurd hprio (by decide)
      · rfl
      · exact absurd hprio (by simp [fromRule, rulePrioFromSubnet, rulePrioTether])
    · exact h.tether x hx
  fromSubnet x hx := by
    rcases of_mem_subnetRules_newRule hx with ⟨rfl, habout⟩ | hx
    · have hprio := aboutSubnet_eq_prio habout
      rcases hr with rfl | rfl | hc
      · exact absurd hprio (by decide)
      · exact absurd hprio (by decide)
      · exact hc
    · exact h.fromSubnet x hx
  nodup prio hprio := nodup_subnetRules_newRule (h.nodup prio hprio)
  veth := h.veth
  off hoff := by
    rw [hP] at hoff
    cases hoff

/-- Every operation of a call keeps it. -/
theorem Tidy.perform (h : Tidy P up w.kernel) {op : Op} (hop : Allowed P up op) :
    Tidy P up (w.perform p op).1.kernel := by
  have hsame : ∀ prio ∈ rulePrios,
      (subnetRules prio w.kernel.rules).Sublist (subnetRules prio w.kernel.rules) :=
    fun _ _ => List.Sublist.refl _
  cases op with
  | newRule r => exact h.newRule hop.1 hop.2
  | delRule sel => exact h.of_sublist (fun _ _ => List.eraseP_sublist.filter _) h.veth
  | createLink n =>
    simp only [World.perform]
    split
    · exact h
    · refine h.of_sublist hsame fun l hl hveth => ?_
      rcases List.mem_append.1 hl with hl | hl
      · exact h.veth l hl hveth
      · obtain rfl := List.mem_singleton.1 hl
        rcases hop with rfl | hq
        · exact absurd hveth (by decide)
        · exact hq
  | delLink n => exact h.of_sublist hsame fun l hl => h.veth l (List.mem_filter.1 hl).1
  | ensure r =>
    simp only [World.perform]
    split <;> exact h.of_sublist hsame h.veth
  | _ => exact h.of_sublist hsame h.veth

/-- Every call keeps it. -/
theorem Tidy.runs {α : Type} {m : Code α} (h : Tidy P up w.kernel) (hm : m.Only (Allowed P up)) :
    Tidy P up (w.runs p m).kernel := by
  refine Prog.Only.runIn (I := fun w : World => Tidy P up w.kernel) ?_ hm h
  exact fun w op hw hop => hw.perform hop

end Tidy

/-! ## What the last cleanup deletes -/

section Cleanup

variable {P} {k : Kernel} {w : World} {p : Pid}

/-- The two requests of `ds_net_cleanup` for one priority. -/
def subnetSelector (toSubnet : Bool) (prio : ℕ) : RuleSelector where
  src := if toSubnet then none else some defaultSubnet
  dst := if toSubnet then some defaultSubnet else none
  table := 0
  prio := prio

def clearPrio (rules : List PolicyRule) (prio : ℕ) : List PolicyRule :=
  (delRule (subnetSelector false prio) (delRule (subnetSelector true prio) rules).1).1

theorem runs_act {α : Type} (op : Op) (f : op.Res → Code α) (w : World) :
    w.runs p (act op >>= f) = (w.perform p op).1.runs p (f (w.perform p op).2) := rfl

theorem runs_bind {α β : Type} (m : Code α) (f : α → Code β) (w : World) :
    w.runs p (m >>= f) = (w.runs p m).runs p (f (m.runIn (fun w op => w.perform p op) w).2) :=
  congrArg Prod.fst (Prog.runIn_bind _ m f w)

theorem runIn_removePolicyRules (prios : List ℕ) (w : World) :
    (removePolicyRules prios).runIn (fun w op => w.perform p op) w =
      (w.setRules (prios.foldl clearPrio w.kernel.rules), ()) := by
  induction prios generalizing w with
  | nil => rfl
  | cons prio prios ih => exact ih (w.setRules (clearPrio w.kernel.rules prio))

theorem selects_subnetSelector {toSubnet : Bool} {prio : ℕ} {r : PolicyRule} :
    (subnetSelector toSubnet prio).selects r = true ↔ r.toTable = true ∧ r.prio = prio ∧
      (if toSubnet then r.dst else r.src) = some defaultSubnet := by
  cases toSubnet <;> simp [RuleSelector.selects, subnetSelector, and_assoc]

theorem aboutSubnet_of_selects {toSubnet : Bool} {prio : ℕ} {r : PolicyRule}
    (h : (subnetSelector toSubnet prio).selects r = true) : aboutSubnet prio r = true := by
  obtain ⟨-, hprio, hsubnet⟩ := selects_subnetSelector.1 h
  cases toSubnet <;> simp_all [aboutSubnet]

theorem subnetRules_delRule_ne {toSubnet : Bool} {prio x : ℕ} (hx : x ≠ prio)
    (rules : List PolicyRule) :
    subnetRules x (delRule (subnetSelector toSubnet prio) rules).1 = subnetRules x rules := by
  refine filter_delRule_of_not fun r hr => ?_
  have hprio := (selects_subnetSelector.1 hr).2.1
  simp [aboutSubnet, hprio, Ne.symm hx]

theorem subnetRules_clearPrio_ne {prio x : ℕ} (hx : x ≠ prio) (rules : List PolicyRule) :
    subnetRules x (clearPrio rules prio) = subnetRules x rules := by
  rw [clearPrio, subnetRules_delRule_ne hx, subnetRules_delRule_ne hx]

/-- At each priority the cleanup deletes one rule to the subnet and one from it. -/
theorem subnetRules_clearPrio (prio : ℕ) (rules : List PolicyRule) :
    subnetRules prio (clearPrio rules prio) =
      ((subnetRules prio rules).eraseP (subnetSelector true prio).selects).eraseP
        (subnetSelector false prio).selects := by
  rw [clearPrio, subnetRules, filter_delRule fun r => aboutSubnet_of_selects,
    filter_delRule fun r => aboutSubnet_of_selects]
  rfl

theorem subnetRules_clearPrios {prios : List ℕ} {prio : ℕ} (hprio : prio ∈ prios)
    (hnodup : prios.Nodup) (rules : List PolicyRule) :
    subnetRules prio (prios.foldl clearPrio rules) =
      ((subnetRules prio rules).eraseP (subnetSelector true prio).selects).eraseP
        (subnetSelector false prio).selects := by
  have hnot : ∀ (prios : List ℕ) (rules : List PolicyRule), prio ∉ prios →
      subnetRules prio (prios.foldl clearPrio rules) = subnetRules prio rules := by
    intro prios
    induction prios with
    | nil => intro rules _; rfl
    | cons q prios ih =>
      intro rules hq
      obtain ⟨hne, hq⟩ := not_or.1 (List.mem_cons.not.1 hq)
      rw [List.foldl_cons, ih _ hq, subnetRules_clearPrio_ne hne]
  induction prios generalizing rules with
  | nil => cases hprio
  | cons q prios ih =>
    obtain ⟨hq, hnodup⟩ := List.nodup_cons.1 hnodup
    rw [List.foldl_cons]
    rcases List.mem_cons.1 hprio with rfl | hprio
    · rw [hnot prios _ hq, subnetRules_clearPrio]
    · have hne : prio ≠ q := fun heq => hq (heq ▸ hprio)
      rw [ih hprio hnodup, subnetRules_clearPrio_ne hne]

/-- A program of netfilter operations leaves the policy rules alone. -/
theorem rules_runs_forRules (rules : List HostRule) (w : World) :
    (w.runs p (forRules removeRule rules)).kernel.rules = w.kernel.rules := by
  induction rules generalizing w with
  | nil => rfl
  | cons r rules ih => exact ih _

/-- `ds_net_cleanup` behind the count. -/
theorem countIfaces_delLink (h : Tidy P [p] w.kernel) :
    ((w.perform p (.delLink (vethHostName p))).1.kernel.countIfacesWithPrefix vethPrefix) = 0 := by
  refine List.countP_eq_zero.2 fun l hl hveth => ?_
  obtain ⟨hl, hne⟩ := List.mem_filter.1 hl
  obtain ⟨q, hq, hname⟩ := h.veth l hl hveth
  obtain rfl := List.mem_singleton.1 hq
  simp [hname] at hne

/-- The policy rules after the cleanup of the last container. -/
theorem rules_cleanup (h : Tidy P [p] w.kernel) (cfg : NatConfig) :
    (w.runs p (dsNetCleanup P cfg p)).kernel.rules =
      if P.android then cleanupPrios.foldl clearPrio w.kernel.rules else w.kernel.rules := by
  have hfilter : ∀ w : World, (w.runs p (do
      if cfg.bridgeless then
        dsIptRemoveIfaceRules (vethHostName p)
      dsIptRemoveDsRules : Code Unit)).kernel.rules = w.kernel.rules := by
    intro w
    split
    · rw [runs_bind]
      exact (rules_runs_forRules _ _).trans (rules_runs_forRules _ _)
    · exact rules_runs_forRules _ _
  have hcount : ¬ 0 < ((w.perform p (.delLink (vethHostName p))).1.perform p
      (.countIfaces vethPrefix)).2 := by
    rw [Nat.not_lt, Nat.le_zero]
    exact countIfaces_delLink h
  simp only [dsNetCleanup]
  rw [runs_act, runs_act, if_neg hcount]
  split
  · have hkept : ((w.perform p (.delLink (vethHostName p))).1.perform p
        (.countIfaces vethPrefix)).1.kernel.rules = w.kernel.rules := rfl
    rw [runs_bind, hfilter, World.runs, runIn_removePolicyRules, World.rules_setRules, hkept]
  · exact hfilter _

theorem eraseP_eq_tail {α : Type*} {q : α → Bool} {l : List α} (h : ∀ x ∈ l, q x = true) :
    l.eraseP q = l.tail := by
  cases l with
  | nil => rfl
  | cons x l => exact List.eraseP_cons_of_pos (h x List.mem_cons_self)

theorem tail_eq_nil_iff {α : Type*} {l : List α} : l.tail = [] ↔ l.length ≤ 1 := by
  rw [← List.length_eq_zero_iff, List.length_tail]
  omega

theorem length_le_one_of_nodup {α : Type*} {l : List α} {a : α} (hl : l.Nodup)
    (h : ∀ x ∈ l, x = a) : l.length ≤ 1 := by
  rw [List.eq_replicate_of_mem h, List.nodup_replicate] at hl
  exact hl

/-- The two deletions among rules that only the request for `toSubnet` selects. -/
theorem eraseP_eraseP_subnetSelector {prio : ℕ} (toSubnet : Bool) {l : List PolicyRule}
    (h : ∀ r ∈ l, ∀ b, (subnetSelector b prio).selects r = (b == toSubnet)) :
    (l.eraseP (subnetSelector true prio).selects).eraseP (subnetSelector false prio).selects =
      l.tail := by
  cases toSubnet with
  | true =>
    rw [eraseP_eq_tail fun r hr => h r hr true, List.eraseP_of_forall_not]
    intro r hr
    rw [h r (List.mem_of_mem_tail hr) false]
    decide
  | false =>
    have hnone : l.eraseP (subnetSelector true prio).selects = l := by
      refine List.eraseP_of_forall_not fun r hr => ?_
      rw [h r hr true]
      decide
    rw [hnone, eraseP_eq_tail fun r hr => h r hr false]

/-- At priorities 6090 and 6095 nothing is left, at priority 6100 all FROM rules but one. -/
theorem noneLeft_cleanup_iff (h : Tidy P [p] w.kernel) (cfg : NatConfig) :
    NoneLeft (w.runs p (dsNetCleanup P cfg p)).kernel ↔ OneFromRule w.kernel := by
  unfold NoneLeft
  rw [rules_cleanup h cfg]
  by_cases hP : P.android = true
  · rw [if_pos hP]
    have hleft {prio : ℕ} (hprio : prio ∈ cleanupPrios) :=
      subnetRules_clearPrios hprio (by decide) w.kernel.rules
    have htoSubnet : subnetRules rulePrioToSubnet
        (cleanupPrios.foldl clearPrio w.kernel.rules) = [] := by
      rw [hleft (by decide), eraseP_eraseP_subnetSelector true, tail_eq_nil_iff]
      · exact length_le_one_of_nodup (h.nodup _ (by decide)) h.toSubnet
      · intro r hr b
        rw [h.toSubnet r hr]
        cases b <;> decide
    have htether : subnetRules rulePrioTether
        (cleanupPrios.foldl clearPrio w.kernel.rules) = [] := by
      rw [hleft (by decide), eraseP_eraseP_subnetSelector false, tail_eq_nil_iff]
      · exact length_le_one_of_nodup (h.nodup _ (by decide)) h.tether
      · intro r hr b
        rw [h.tether r hr]
        cases b <;> decide
    have hfrom : subnetRules rulePrioFromSubnet (cleanupPrios.foldl clearPrio w.kernel.rules) =
        (subnetRules rulePrioFromSubnet w.kernel.rules).tail := by
      rw [hleft (by decide), eraseP_eraseP_subnetSelector false]
      intro r hr b
      obtain ⟨c, rfl⟩ := h.fromSubnet r hr
      cases b <;> simp [RuleSelector.selects, subnetSelector, fromRule]
    simp [rulePrios, htoSubnet, htether, hfrom, OneFromRule, tail_eq_nil_iff]
  · have hoff := h.off (Bool.eq_false_iff.2 hP)
    rw [if_neg hP]
    refine iff_of_true hoff ?_
    unfold OneFromRule
    rw [hoff rulePrioFromSubnet (by decide)]
    exact Nat.zero_le 1

end Cleanup

/-! ## Runs -/

/-- Before the first container no container rule and no container link exists. -/
structure Fleet.Fresh (s : Fleet) : Prop where
  up : s.up = []
  rules : NoneLeft s.world.kernel
  links : ∀ l ∈ s.world.kernel.links, isVeth l = false

section Runs

variable {P} {s t : Fleet} {e : FleetEvent}

theorem Fleet.Fresh.tidy (h : s.Fresh) : Tidy P s.up s.world.kernel where
  toSubnet r hr := by
    rw [h.rules rulePrioToSubnet (by decide)] at hr
    cases hr
  tether r hr := by
    rw [h.rules rulePrioTether (by decide)] at hr
    cases hr
  fromSubnet r hr := by
    rw [h.rules rulePrioFromSubnet (by decide)] at hr
    cases hr
  nodup prio hprio := by
    rw [h.rules prio hprio]
    exact List.nodup_nil
  veth l hl hveth := by
    rw [h.links l hl] at hveth
    cases hveth
  off _ := h.rules

/-- More containers may be up. -/
theorem Tidy.mono {up up' : List Pid} {k : Kernel} (h : Tidy P up k) (hup : ∀ q ∈ up, q ∈ up') :
    Tidy P up' k :=
  h.of_sublist (fun _ _ => List.Sublist.refl _) fun l hl hveth =>
    let ⟨q, hq, hname⟩ := h.veth l hl hveth
    ⟨q, hup q hq, hname⟩

/-- The cleanup behind the deletion of the container's link. -/
theorem Tidy.cleanup {w : World} {p : Pid} {up : List Pid} (h : Tidy P up w.kernel)
    (cfg : NatConfig) : Tidy P (up.erase p) (w.runs p (dsNetCleanup P cfg p)).kernel := by
  have hdel : Tidy P (up.erase p) (w.perform p (.delLink (vethHostName p))).1.kernel := by
    refine h.of_sublist (fun _ _ => List.Sublist.refl _) fun l hl hveth => ?_
    obtain ⟨hl, hne⟩ := List.mem_filter.1 hl
    obtain ⟨q, hq, hname⟩ := h.veth l hl hveth
    have hqp : q ≠ p := by
      rintro rfl
      simp [hname] at hne
    exact ⟨q, (List.mem_erase_of_ne hqp).2 hq, hname⟩
  simp only [dsNetCleanup]
  rw [runs_act]
  refine hdel.runs (Prog.only_bind (Prog.only_perform trivial) fun surviving => ?_)
  have hnetfilter (rules : List HostRule) :
      (forRules removeRule rules).Only (Allowed P (up.erase p)) :=
    (removeRules_netfilter rules).mono fun _ => allowed_of_netfilter
  split
  · split
    · exact hnetfilter _
    · trivial
  · split
    · rename_i hP
      refine Prog.only_bind ((removePolicyRules_routing _).mono fun _ => allowed_of_routing hP)
        fun _ => ?_
      split
      · exact Prog.only_bind (hnetfilter _) fun _ => hnetfilter _
      · exact hnetfilter _
    · split
      · exact Prog.only_bind (hnetfilter _) fun _ => hnetfilter _
      · exact hnetfilter _

theorem Fleet.step_tidy (h : Tidy P s.up s.world.kernel) (hstep : s.step P e = some t) :
    Tidy P t.up t.world.kernel := by
  cases e with
  | start p cfg =>
    obtain rfl := Option.some.inj hstep
    refine Tidy.runs (h.mono fun q hq => ?_) (setupVethHostSide_allowed cfg List.mem_cons_self)
    by_cases hqp : q = p
    · exact hqp ▸ List.mem_cons_self
    · exact List.mem_cons_of_mem p ((List.mem_erase_of_ne hqp).2 hq)
  | reprobe p =>
    obtain ⟨⟨hP, -⟩, hstep⟩ := Option.ite_none_right_eq_some.1 hstep
    obtain rfl := Option.some.inj hstep
    exact h.runs (doUplinkReprobe_allowed hP)
  | stop p cfg =>
    obtain ⟨hp, hstep⟩ := Option.ite_none_right_eq_some.1 hstep
    obtain rfl := Option.some.inj hstep
    exact h.cleanup cfg
  | host k =>
    obtain ⟨hk, hstep⟩ := Option.ite_none_right_eq_some.1 hstep
    obtain rfl := Option.some.inj hstep
    simp only [hostChange, Bool.and_eq_true, List.all_eq_true] at hk
    refine h.of_sublist (fun prio hprio => List.isSublist_iff_sublist.1 (hk.1 prio hprio))
      fun l hl hveth => ?_
    have hexists := hk.2 l hl
    rw [hveth, Bool.not_true, Bool.false_or] at hexists
    obtain ⟨l', hl', heq⟩ := List.any_eq_true.1 hexists
    have hname : l'.name = l.name := beq_iff_eq.1 heq
    have hveth' : isVeth l' = true := by
      unfold isVeth
      rw [hname]
      exact hveth
    rw [← hname]
    exact h.veth l' hl' hveth'

/-- **What the last cleanup leaves.**  In every run from a fresh host, the cleanups of last
containers leave no container rule exactly if each of them begins with at most one FROM rule. -/
theorem stops_leave_none_iff {es : List FleetEvent} (hs : s.Fresh) :
    (fleet P).Along (fun s e t => IsLastStop s e → NoneLeft t.world.kernel) s es ↔
      (fleet P).Guarded (fun s e => IsLastStop s e → OneFromRule s.world.kernel) s es := by
  refine (fleet P).along_iff_guarded (I := fun s => Tidy P s.up s.world.kernel)
    (fun s e t h _ hstep => Fleet.step_tidy h hstep) ?_ hs.tidy
  intro s e t h hstep
  refine forall_congr' fun hlast => ?_
  cases e with
  | stop p cfg =>
    have hup : s.up = [p] := hlast
    obtain ⟨-, hstep⟩ := Option.ite_none_right_eq_some.1 hstep
    obtain rfl := Option.some.inj hstep
    exact noneLeft_cleanup_iff (hup ▸ h) cfg
  | _ => exact hlast.elim

end Runs

instance (s : Fleet) (e : FleetEvent) : Decidable (IsLastStop s e) :=
  match e with
  | .stop p _ => inferInstanceAs (Decidable (s.up = [p]))
  | .start _ _ | .reprobe _ | .host _ => isFalse id

instance (k : Kernel) : Decidable (NoneLeft k) :=
  inferInstanceAs (Decidable (∀ prio ∈ rulePrios, subnetRules prio k.rules = []))

instance (k : Kernel) : Decidable (OneFromRule k) :=
  inferInstanceAs (Decidable (_ ≤ 1))

/-- Wi-Fi in table 1003 and mobile data in table 1004; netd has selected `table`. -/
def phoneKernel (table : ℕ) (rules : List PolicyRule) (links : List Link) : Kernel where
  rules := rules ++ [{ prio := 31000, table := table, fwmask := 0xffff, iif := "lo".toList }]
  routes := [⟨1003, 0, "wlan0".toList, 0, true⟩, ⟨1004, 0, "rmnet0".toList, 0, true⟩]
  links := [⟨"wlan0".toList, true⟩, ⟨"rmnet0".toList, true⟩] ++ links
  filter := []

/-- No exclude pattern matches `wlan0` or `rmnet0`. -/
def phonePlatform : Platform where
  android := true
  fnmatch _ _ := false

def phone : Fleet where
  world := ⟨phoneKernel 1003 [] [], fun _ => {}⟩
  up := []

theorem phone_fresh : phone.Fresh := ⟨rfl, by decide +kernel, by decide +kernel⟩

def bridged : NatConfig := ⟨false, []⟩

/-- One container comes and goes: nothing is left. -/
theorem phone_one_container :
    (fleet phonePlatform).Along (fun s e t => IsLastStop s e → NoneLeft t.world.kernel) phone
      [.start 1 bridged, .reprobe 1, .stop 1 bridged] :=
  (stops_leave_none_iff phone_fresh).2 (by decide +kernel)

/-- The phone leaves Wi-Fi between two starts, and both containers stop before a reprobe. -/
def twoUplinks : List FleetEvent :=
  [.start 1 bridged,
    .host (phoneKernel 1004 [toRule, tetherRule, fromRule 1003]
      [⟨natBridge, true⟩, ⟨vethHostName 1, true⟩]),
    .start 2 bridged, .stop 1 bridged, .stop 2 bridged]

/-- The rule of the second uplink outlives both. -/
theorem two_uplinks_leave_a_rule :
    ((fleet phonePlatform).run phone twoUplinks).map
        (fun s => (s.up, subnetRules rulePrioFromSubnet s.world.kernel.rules)) =
        some ([], [fromRule 1004]) ∧
      ¬ (fleet phonePlatform).Along (fun s e t => IsLastStop s e → NoneLeft t.world.kernel) phone
        twoUplinks := by
  decide +kernel

end Droidspaces.Network
