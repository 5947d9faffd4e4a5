import Droidspaces.Network.Programs

/-!
# Uplink monitors converge

Any number of monitors in automatic mode run `do_uplink_reprobe` once, their requests interleaved
in any order, while the uplink stays what it is.  Each of them first installs the FROM rule of the
table it has cached, which the others may just have deleted, then deletes it again and adds the
rule of the table it has found.

The history is the set of monitors that have not deleted their old rule yet.  A FROM rule for
another table than the uplink's always belongs to one of them (`ConvergeInv.owned`), and nobody
deletes the rule of the uplink's table.  So when all have finished exactly that rule is left:
`reprobes_converge`.
-/

namespace Droidspaces.Network

open Transition

variable (P : Platform) (k₀ : Kernel) (monitors : Set Pid) (table : ℤ)

/-! ## History and contract -/

/-- The monitors that may still delete the rule of the table they started with. -/
def notePending (pending : Set Pid) (_ : World) (p : Pid) (op : Op) (_ : op.Res) (_ : World) :
    Set Pid :=
  match op with
  | .delRule _ => pending \ {p}
  | _ => pending

def watchedNetwork : Machine Pid (World × Set Pid) Op Entry Empty Op.Res :=
  (network P).withGhost notePending fun pending _ _ _ => pending

/-- The rules of `install_policy_rules` for the uplink. -/
def fromRules (w : World) : List PolicyRule := subnetRules rulePrioFromSubnet w.kernel.rules

structure ConvergeInv (s : World × Set Pid) : Prop where
  same : SameUplink k₀ s.1.kernel
  pending : s.2 ⊆ monitors
  nodup : (fromRules s.1).Nodup
  owned : ∀ r ∈ fromRules s.1, r = fromRule table ∨
    ∃ q ∈ s.2, 0 < (s.1.monitors q).gwTable ∧ r = fromRule (s.1.monitors q).gwTable

/-- What a monitor relies on: its own globals and history are its own, and the rule of the uplink
stays. -/
structure ConvergeRely (p : Pid) (s t : World × Set Pid) : Prop where
  monitor : t.1.monitors p = s.1.monitors p
  pending : p ∈ t.2 ↔ p ∈ s.2
  rule : fromRule table ∈ s.1.kernel.rules → fromRule table ∈ t.1.kernel.rules

/-- Where a reprobe starts and what it leaves. -/
def convergePre (p : Pid) (s : World × Set Pid) : Entry → Prop
  | .reprobe => p ∈ s.2 ∧ (s.1.monitors p).upstream = []
  | .done => p ∈ monitors →
      (s.1.monitors p).gwTable = table ∧ fromRule table ∈ s.1.kernel.rules
  | _ => False

def convergeContract : Contract (watchedNetwork P) where
  inv := ConvergeInv k₀ monitors table
  rely := ConvergeRely table
  guard _ _ _ := True
  guardEnv := Machine.anyEnv
  safe _ _ _ := True
  pre e p s := convergePre monitors table p s e
  rely_refl _ _ := ⟨rfl, Iff.rfl, id⟩
  rely_trans _ _ _ _ huv hvw :=
    ⟨hvw.monitor.trans huv.monitor, hvw.pending.trans huv.pending, hvw.rule ∘ huv.rule⟩

/-! ## What rule requests do to the FROM rules -/

section FromRules

variable {rules : List PolicyRule} {c : ℤ} {r : PolicyRule}

theorem aboutSubnet_fromRule (c : ℤ) :
    aboutSubnet rulePrioFromSubnet (fromRule c) = true := by
  simp [aboutSubnet, fromRule]

theorem mem_subnetRules_fromRule :
    fromRule c ∈ subnetRules rulePrioFromSubnet rules ↔ fromRule c ∈ rules := by
  simp [subnetRules, aboutSubnet_fromRule]

theorem fromRule_injective {c d : ℤ} (hc : 0 < c) (hd : 0 < d) (h : fromRule c = fromRule d) :
    c = d := by
  have htable : c.toNat = d.toNat := congrArg PolicyRule.table h
  omega

/-- The request that `delFromRule` sends. -/
def fromSelector (c : ℤ) : RuleSelector where
  src := some defaultSubnet
  dst := none
  table := c.toNat
  prio := rulePrioFromSubnet

theorem fromSelector_selects (h : (fromSelector c).selects r = true) :
    aboutSubnet rulePrioFromSubnet r = true := by
  simp only [RuleSelector.selects, fromSelector, Bool.and_eq_true, Bool.or_eq_true, beq_iff_eq,
    Option.isNone_some, Bool.false_eq_true, false_or] at h
  simp [aboutSubnet, h.1.1.1.2, h.1.1.2]

theorem fromSelector_selects_fromRule {d : ℤ} (hc : 0 < c) (hd : 0 < d) :
    (fromSelector c).selects (fromRule d) = true ↔ d = c := by
  have hne : c.toNat ≠ 0 := by omega
  simp only [RuleSelector.selects, fromSelector, fromRule, beq_self_eq_true, Option.isNone_some,
    Option.isNone_none, Bool.or_true, Bool.and_self, Bool.true_and, Bool.or_eq_true, beq_iff_eq,
    hne, false_or]
  omega

/-- Among FROM rules of tables, the request deletes the rule of its table. -/
theorem fromRules_delRule (hc : 0 < c)
    (hplain : ∀ r ∈ subnetRules rulePrioFromSubnet rules, ∃ d, 0 < d ∧ r = fromRule d) :
    subnetRules rulePrioFromSubnet (delRule (fromSelector c) rules).1 =
      (subnetRules rulePrioFromSubnet rules).erase (fromRule c) := by
  rw [subnetRules, filter_delRule fun r hr => fromSelector_selects hr]
  refine eraseP_eq_erase fun r hr => ?_
  obtain ⟨d, hd, rfl⟩ := hplain r hr
  rw [Bool.eq_iff_iff, fromSelector_selects_fromRule hc hd, beq_iff_eq]
  exact ⟨fun h => by rw [h], fromRule_injective hd hc⟩

end FromRules

/-! ## The invariant under single operations -/

section Invariant

variable {P k₀ monitors table} {w w' : World} {g : Set Pid} {p : Pid}

/-- Only the FROM rules, the monitors and what detection reads matter. -/
theorem ConvergeInv.congr (h : ConvergeInv k₀ monitors table (w, g))
    (hkernel : SameUplink w.kernel w'.kernel) (hrules : w'.kernel.rules = w.kernel.rules)
    (hmonitors : w'.monitors = w.monitors) : ConvergeInv k₀ monitors table (w', g) where
  same := h.same.trans hkernel
  pending := h.pending
  nodup := by
    show (subnetRules _ w'.kernel.rules).Nodup
    rw [hrules]
    exact h.nodup
  owned := by
    show ∀ r ∈ subnetRules _ w'.kernel.rules, _
    rw [hrules, hmonitors]
    exact h.owned

theorem ConvergeInv.plain (h : ConvergeInv k₀ monitors table (w, g)) (htable : 0 < table) :
    ∀ r ∈ fromRules w, ∃ d, 0 < d ∧ r = fromRule d := by
  intro r hr
  rcases h.owned r hr with rfl | ⟨q, -, hq, rfl⟩
  · exact ⟨table, htable, rfl⟩
  · exact ⟨_, hq, rfl⟩

/-- A new FROM rule is the uplink's or that of a monitor that will delete it. -/
theorem ConvergeInv.newRule (h : ConvergeInv k₀ monitors table (w, g)) {r : PolicyRule}
    (hr : r.src.isSome = true ∨ r.dst.isSome = true)
    (hown : aboutSubnet rulePrioFromSubnet r = true → r = fromRule table ∨
      ∃ q ∈ g, 0 < (w.monitors q).gwTable ∧ r = fromRule (w.monitors q).gwTable) :
    ConvergeInv k₀ monitors table (w.setRules (newRule r w.kernel.rules).1, g) where
  same := h.same.trans (SameUplink.newRule hr w.kernel)
  pending := h.pending
  nodup := nodup_subnetRules_newRule h.nodup
  owned := by
    intro x hx
    by_cases habout : aboutSubnet rulePrioFromSubnet r = true
    · rcases (mem_subnetRules_newRule habout).1 hx with rfl | hx
      · exact hown habout
      · exact h.owned x hx
    · have hsame : fromRules (w.setRules (Network.newRule r w.kernel.rules).1) = fromRules w :=
        filter_newRule_of_not (Bool.eq_false_iff.2 habout)
      exact h.owned x (by simpa only [hsame] using hx)

/-- The deletion of a monitor's old rule takes just that rule. -/
theorem ConvergeInv.fromRules_del (h : ConvergeInv k₀ monitors table (w, g)) (htable : 0 < table)
    {c : ℤ} (hc : 0 < c) :
    fromRules (w.setRules (delRule (fromSelector c) w.kernel.rules).1) =
      (fromRules w).erase (fromRule c) :=
  fromRules_delRule hc (h.plain htable)

/-- After it the monitor owns nothing any more. -/
theorem ConvergeInv.delRule (h : ConvergeInv k₀ monitors table (w, g)) (htable : 0 < table)
    (hc : 0 < (w.monitors p).gwTable) :
    ConvergeInv k₀ monitors table
      (w.setRules (delRule (fromSelector (w.monitors p).gwTable) w.kernel.rules).1, g \ {p}) where
  same := h.same.trans (SameUplink.delRule (Or.inl rfl) w.kernel)
  pending := fun q hq => h.pending hq.1
  nodup := by
    rw [h.fromRules_del htable hc]
    exact h.nodup.erase _
  owned := by
    rw [h.fromRules_del htable hc]
    intro r hr
    obtain ⟨hne, hr⟩ := h.nodup.mem_erase_iff.1 hr
    rcases h.owned r hr with hr | ⟨q, hq, hpos, rfl⟩
    · exact Or.inl hr
    · refine Or.inr ⟨q, ⟨hq, ?_⟩, hpos, rfl⟩
      rintro rfl
      exact hne rfl

/-- A monitor caches the uplink's table once it owns no rule. -/
theorem ConvergeInv.setGwTable (h : ConvergeInv k₀ monitors table (w, g))
    (hp : p ∈ g → (w.monitors p).gwTable ≤ 0) :
    ConvergeInv k₀ monitors table (w.setMonitor p { w.monitors p with gwTable := table }, g) where
  same := h.same
  pending := h.pending
  nodup := h.nodup
  owned := by
    intro r hr
    rcases h.owned r hr with hr | ⟨q, hq, hpos, hrq⟩
    · exact Or.inl hr
    · have hqp : q ≠ p := by
        rintro rfl
        exact absurd hpos (Int.not_lt.2 (hp hq))
      refine Or.inr ⟨q, hq, ?_⟩
      simp only [World.setMonitor, Function.update_of_ne hqp]
      exact ⟨hpos, hrq⟩

end Invariant

/-! ## Single operations -/

section Steps

variable {P k₀ monitors table} {p : Pid} {s : World × Set Pid} {α : Type} {m : Monitor} {a b : Prop}

/-- What a monitor knows between two operations: its globals, whether it may still delete its old
rule, and whether the rule of the uplink is in place. -/
structure Knows (table : ℤ) (p : Pid) (m : Monitor) (a b : Prop) (s : World × Set Pid) : Prop where
  monitor : s.1.monitors p = m
  pending : p ∈ s.2 ↔ a
  rule : b → fromRule table ∈ s.1.kernel.rules

theorem knows_stable :
    (convergeContract P k₀ monitors table).Stable p (Knows table p m a b) :=
  fun _ _ _ h hrely _ => ⟨hrely.monitor.trans h.monitor, hrely.pending.trans h.pending,
    fun hb => hrely.rule (h.rule hb)⟩

/-- Reading the globals. -/
theorem wp_globals {k : Monitor → Code α} {Q : α → World × Set Pid → Prop}
    (hI : ConvergeInv k₀ monitors table s) (hK : Knows table p m a b s)
    (h : ∀ t, ConvergeInv k₀ monitors table t → Knows table p m a b t →
      (convergeContract P k₀ monitors table).wp p (k m) Q t) :
    (convergeContract P k₀ monitors table).wp p (act .globals >>= k) Q s := by
  refine wp_act (fun _ _ _ _ => rfl) knows_stable hI hK fun w g hKv hIv _ => ?_
  refine ⟨trivial, hIv, fun q _ => ⟨rfl, Iff.rfl, id⟩, ?_⟩
  have hm : (w.perform p .globals).2 = m := hKv.monitor
  rw [hm]
  exact h (w, g) hIv hKv

/-- A netfilter operation changes nothing that matters here. -/
theorem wp_ensureRule {r : HostRule} {k : Unit → Code α} {Q : α → World × Set Pid → Prop}
    (hI : ConvergeInv k₀ monitors table s) (hK : Knows table p m a b s)
    (h : ∀ t, ConvergeInv k₀ monitors table t → Knows table p m a b t →
      (convergeContract P k₀ monitors table).wp p (k ()) Q t) :
    (convergeContract P k₀ monitors table).wp p (ensureRule r >>= k) Q s := by
  refine wp_act (fun _ _ _ _ => rfl) knows_stable hI hK fun w g hKv hIv _ => ?_
  have hw : ∀ w', w' = (w.perform p (.ensure r)).1 → w'.monitors = w.monitors ∧
      w'.kernel.rules = w.kernel.rules ∧ SameUplink w.kernel w'.kernel := by
    rintro w' rfl
    simp only [World.perform]
    split
    · exact ⟨rfl, rfl, SameUplink.refl w.kernel⟩
    · exact ⟨rfl, rfl, ⟨rfl, rfl, rfl⟩⟩
  obtain ⟨hmon, hrules, hsame⟩ := hw _ rfl
  have hI' := hIv.congr hsame hrules hmon
  refine ⟨trivial, hI', fun q _ => ⟨by rw [hmon], Iff.rfl, fun hr => by rwa [hrules]⟩, ?_⟩
  exact h _ hI' ⟨by rw [← hKv.monitor, hmon], hKv.pending, fun hb => by
    rw [hrules]
    exact hKv.rule hb⟩

/-- Every request for a policy rule succeeds and leaves the rule in place. -/
theorem wp_addRule {src dst : Option Subnet} {t : ℤ} {prio : ℕ} {k : ℤ → Code α}
    {Q : α → World × Set Pid → Prop} {r : PolicyRule}
    (hr : r = { src, dst, table := t.toNat, prio }) (hsel : src.isSome = true ∨ dst.isSome = true)
    (hown : aboutSubnet rulePrioFromSubnet r = true → r = fromRule table ∨
      a ∧ 0 < m.gwTable ∧ r = fromRule m.gwTable)
    (hI : ConvergeInv k₀ monitors table s) (hK : Knows table p m a b s)
    (h : ∀ t, ConvergeInv k₀ monitors table t →
      Knows table p m a (b ∨ r = fromRule table) t →
        (convergeContract P k₀ monitors table).wp p (k 0) Q t) :
    (convergeContract P k₀ monitors table).wp p (dsNlAddRule4 src dst t prio >>= k) Q s := by
  simp only [dsNlAddRule4, Prog.bind_assoc]
  rw [← hr]
  refine wp_act (fun _ _ _ _ => rfl) knows_stable hI hK fun w g hKv hIv _ => ?_
  have hret : ruleResult (w.perform p (.newRule r)).2 = 0 := by
    show ruleResult (newRule r w.kernel.rules).2 = 0
    unfold newRule ruleResult
    split <;> simp
  have hI' := hIv.newRule (r := r) (by rwa [hr]) fun habout => (hown habout).imp_right fun ⟨ha, hpos, hr⟩ =>
    ⟨p, hKv.pending.2 ha, by rwa [hKv.monitor], by rwa [hKv.monitor]⟩
  refine ⟨trivial, hI', fun q _ => ⟨rfl, Iff.rfl, fun hT => mem_newRule.2 (Or.inr hT)⟩, ?_⟩
  simp only [hret, Prog.pure_eq, Prog.ret_bind]
  refine h _ hI' ⟨hKv.monitor, hKv.pending, ?_⟩
  rintro (hb | hrule)
  · exact mem_newRule.2 (Or.inr (hKv.rule hb))
  · exact mem_newRule.2 (Or.inl hrule.symm)

/-- The deletion of the old rule. -/
theorem wp_delFromRule {k : ℤ → Code α} {Q : α → World × Set Pid → Prop} (htable : 0 < table)
    (hold : 0 < m.gwTable) (hne : m.gwTable ≠ table)
    (hI : ConvergeInv k₀ monitors table s) (hK : Knows table p m a b s)
    (h : ∀ t ret, ConvergeInv k₀ monitors table t → Knows table p m False b t →
      (convergeContract P k₀ monitors table).wp p (k ret) Q t) :
    (convergeContract P k₀ monitors table).wp p (delFromRule m.gwTable >>= k) Q s := by
  simp only [delFromRule, dsNlDelRule4, Prog.bind_assoc]
  refine wp_act (fun _ _ _ _ => rfl) knows_stable hI hK fun w g hKv hIv _ => ?_
  have hI' := hIv.delRule (p := p) htable (by rwa [hKv.monitor])
  have hrule : fromRule table ∈ w.kernel.rules →
      fromRule table ∈ (delRule (fromSelector m.gwTable) w.kernel.rules).1 := by
    intro hT
    rw [← mem_subnetRules_fromRule] at hT ⊢
    rw [fromRules_delRule hold (hIv.plain htable)]
    exact hIv.nodup.mem_erase_iff.2 ⟨fun heq => hne (fromRule_injective htable hold heq).symm, hT⟩
  rw [hKv.monitor] at hI'
  refine ⟨trivial, hI', fun q hq => ⟨rfl, ?_, hrule⟩, ?_⟩
  · exact ⟨fun hmem => hmem.1, fun hmem => ⟨hmem, hq⟩⟩
  · exact h _ _ hI' ⟨hKv.monitor, ⟨fun hmem => hmem.2 rfl, False.elim⟩,
      fun hb => hrule (hKv.rule hb)⟩

/-- Caching the table of the uplink. -/
theorem wp_setGwTable {k : Unit → Code α} {Q : α → World × Set Pid → Prop}
    (hold : a → m.gwTable ≤ 0)
    (hI : ConvergeInv k₀ monitors table s) (hK : Knows table p m a b s)
    (h : ∀ t, ConvergeInv k₀ monitors table t →
      Knows table p { m with gwTable := table } a b t →
        (convergeContract P k₀ monitors table).wp p (k ()) Q t) :
    (convergeContract P k₀ monitors table).wp p (act (.setGwTable table) >>= k) Q s := by
  refine wp_act (fun _ _ _ _ => rfl) knows_stable hI hK fun w g hKv hIv _ => ?_
  have hI' := hIv.setGwTable (p := p) fun hp => by
    rw [hKv.monitor]
    exact hold (hKv.pending.1 hp)
  refine ⟨trivial, hI', fun q hq => ⟨?_, Iff.rfl, id⟩, ?_⟩
  · exact Function.update_of_ne hq _ _
  · refine h _ hI' ⟨?_, hKv.pending, hKv.rule⟩
    show Function.update _ _ _ p = _
    rw [Function.update_self, hKv.monitor]

/-- Detection finds what it would find at the start. -/
theorem wp_detect {β : Type} {d : Detect β} {k : β → Code α} {Q : α → World × Set Pid → Prop}
    (hI : ConvergeInv k₀ monitors table s) (hK : Knows table p m a b s)
    (h : ∀ t, ConvergeInv k₀ monitors table t → Knows table p m a b t →
      (convergeContract P k₀ monitors table).wp p (k (d.eval k₀.answer)) Q t) :
    (convergeContract P k₀ monitors table).wp p (detect d >>= k) Q s := by
  refine Contract.wp_bind (Contract.wp_embed knows_stable ?_ d h hI hK)
  rintro ⟨w, g⟩ q choice ⟨w', g'⟩ r hKv hIv hexec
  obtain ⟨hexec, hg⟩ := Machine.withGhost_exec hexec
  obtain ⟨rfl, rfl⟩ := Prod.mk.inj (Option.some.inj hexec)
  obtain rfl : g' = g := hg
  exact ⟨rfl, hIv.same.answer q, trivial, hIv, fun _ _ _ => ⟨rfl, Iff.rfl, id⟩,
    fun _ _ he => by cases he⟩

theorem wp_installNetfilterRules {k : Unit → Code α} {Q : α → World × Set Pid → Prop}
    (hI : ConvergeInv k₀ monitors table s) (hK : Knows table p m a b s)
    (h : ∀ t, ConvergeInv k₀ monitors table t → Knows table p m a b t →
      (convergeContract P k₀ monitors table).wp p (k ()) Q t) :
    (convergeContract P k₀ monitors table).wp p (installNetfilterRules >>= k) Q s := by
  simp only [installNetfilterRules, Prog.bind_assoc]
  refine wp_globals hI hK fun t hI hK => ?_
  generalize netfilterRules (hostFilterIface m) = rules
  induction rules generalizing t with
  | nil => exact h t hI hK
  | cons r rules ih =>
    simp only [forRules, Prog.bind_assoc]
    exact wp_ensureRule hI hK fun u hI hK => ih u hI hK

theorem wp_reconcileNetfilter {k : Unit → Code α} {Q : α → World × Set Pid → Prop}
    (hI : ConvergeInv k₀ monitors table s) (hK : Knows table p m a b s)
    (h : ∀ t, ConvergeInv k₀ monitors table t → Knows table p m a b t →
      (convergeContract P k₀ monitors table).wp p (k ()) Q t) :
    (convergeContract P k₀ monitors table).wp p (reconcileNetfilter >>= k) Q s := by
  simp only [reconcileNetfilter, Prog.bind_assoc]
  refine wp_globals hI hK fun t hI hK => ?_
  split
  · simp only [Prog.bind_assoc]
    refine wp_act (fun _ _ _ _ => rfl) knows_stable hI hK fun w g hKv hIv _ => ?_
    refine ⟨trivial, hIv, fun q _ => ⟨rfl, Iff.rfl, id⟩, ?_⟩
    split
    · exact wp_installNetfilterRules hIv hKv h
    · exact h _ hIv hKv
  · exact h t hI hK

/-- `install_policy_rules` puts the monitor's own rule back. -/
theorem wp_installPolicyRules {k : ℤ → Code α} {Q : α → World × Set Pid → Prop}
    (hI : ConvergeInv k₀ monitors table s) (hK : Knows table p m True False s)
    (htable : 0 < table)
    (h : ∀ t, ConvergeInv k₀ monitors table t → Knows table p m True (m.gwTable = table) t →
      (convergeContract P k₀ monitors table).wp p (k 0) Q t) :
    (convergeContract P k₀ monitors table).wp p (installPolicyRules >>= k) Q s := by
  simp only [installPolicyRules, Prog.bind_assoc]
  refine wp_addRule rfl (Or.inr rfl) (fun habout => ?_) hI hK fun t hI hK => ?_
  · exact absurd habout (by decide)
  refine wp_addRule rfl (Or.inl rfl) (fun habout => ?_) hI hK fun t hI hK => ?_
  · exact absurd habout (by decide)
  refine wp_globals hI hK fun t hI hK => ?_
  split
  · rename_i hpos
    simp only [addFromRule, Prog.bind_assoc]
    refine wp_addRule rfl (Or.inl rfl) (fun _ => Or.inr ⟨trivial, hpos, rfl⟩) hI hK
      fun t hI hK => ?_
    exact h t hI ⟨hK.monitor, hK.pending, fun heq => hK.rule (Or.inr (by rw [← heq]; rfl))⟩
  · rename_i hpos
    exact h t hI ⟨hK.monitor, hK.pending, fun heq => by omega⟩

/-- The rule of the uplink goes in, and its table into the cache. -/
theorem wp_addUplink (hold : a → m.gwTable ≤ 0)
    (hI : ConvergeInv k₀ monitors table s) (hK : Knows table p m a b s) :
    (convergeContract P k₀ monitors table).wp p
      (addFromRule table >>= fun ret => if ret = 0 then act (.setGwTable table) else pure ())
      (fun _ t => (t.1.monitors p).gwTable = table ∧ fromRule table ∈ t.1.kernel.rules) s := by
  refine wp_addRule rfl (Or.inl rfl) (fun _ => Or.inl rfl) hI hK fun t hI hK => ?_
  simp only [if_true]
  refine wp_setGwTable (k := Prog.ret) hold hI hK fun t hI hK => ?_
  refine Contract.wp_ret fun v hrely hv => ?_
  exact ⟨by rw [hrely.monitor, hK.monitor], hrely.rule (hK.rule (Or.inr rfl))⟩

theorem wp_switchUplink
    (hI : ConvergeInv k₀ monitors table s) (hK : Knows table p m True (m.gwTable = table) s)
    (htable : 0 < table) :
    (convergeContract P k₀ monitors table).wp p (switchUplink table)
      (fun _ t => (t.1.monitors p).gwTable = table ∧ fromRule table ∈ t.1.kernel.rules) s := by
  simp only [switchUplink]
  refine wp_globals hI hK fun t hI hK => ?_
  by_cases hne : table = m.gwTable
  · rw [if_neg (not_not.2 hne)]
    refine Contract.wp_ret fun v hrely hv => ?_
    exact ⟨by rw [hrely.monitor, hK.monitor, hne], hrely.rule (hK.rule hne.symm)⟩
  · rw [if_pos hne]
    by_cases hold : 0 < m.gwTable
    · simp only [if_pos hold]
      refine wp_delFromRule htable hold (Ne.symm hne) hI hK fun t ret hI hK => ?_
      exact wp_addUplink False.elim hI hK
    · simp only [if_neg hold]
      exact wp_addUplink (fun _ => Int.not_lt.1 hold) hI hK

theorem wp_doUplinkReprobe {n : Iface} (htable : 0 < table)
    (huplink : uplink P k₀ [] = some (n, table)) (hauto : m.upstream = [])
    (hI : ConvergeInv k₀ monitors table s) (hK : Knows table p m True False s) :
    (convergeContract P k₀ monitors table).wp p (doUplinkReprobe P)
      (fun _ t => (t.1.monitors p).gwTable = table ∧ fromRule table ∈ t.1.kernel.rules) s := by
  refine wp_installPolicyRules hI hK htable fun t hI hK => ?_
  refine wp_reconcileNetfilter hI hK fun t hI hK => ?_
  refine wp_globals hI hK fun t hI hK => ?_
  refine wp_detect hI hK fun t hI hK => ?_
  rw [hauto]
  have hfound : (findActiveUplink P []).eval k₀.answer = some (n, table) := huplink
  rw [hfound]
  exact wp_switchUplink hI hK htable

theorem convergeContract_sound {n : Iface} (huplink : uplink P k₀ [] = some (n, table)) :
    (convergeContract P k₀ monitors table).Sound where
  code e p s hI hpre := by
    cases e with
    | setup cfg child => exact hpre.elim
    | cleanup cfg child => exact hpre.elim
    | done =>
      refine Contract.wp_ret fun v hrely _ hp => ?_
      obtain ⟨hcache, hrule⟩ := hpre hp
      exact ⟨by rw [hrely.monitor, hcache], hrely.rule hrule⟩
    | reprobe =>
      have hK : Knows table p (s.1.monitors p) True False s :=
        ⟨rfl, iff_true_intro hpre.1, False.elim⟩
      refine Contract.wp_seq
        (wp_doUplinkReprobe (uplink_pos huplink) huplink hpre.2 hI hK) fun _ t hIt ht => ?_
      refine Contract.wp_ret fun v hrely _ _ => ?_
      exact ⟨by rw [hrely.monitor, ht.1], hrely.rule ht.2⟩
  env _ e := e.elim

end Steps





/-! ## Convergence -/

variable {P monitors table}

/-- **Uplink monitors converge.**  Monitors in automatic mode, with any cached tables, whose FROM
rules are all the kernel has, run `do_uplink_reprobe` once each in any interleaving of their
requests.  If the uplink is in `table` throughout, then at the end the kernel holds exactly the
FROM rule of `table`, and every monitor has cached it. -/
theorem reprobes_converge {n : Iface} {s t : Machine.State Pid World Op Entry Op.Res}
    {es : List (Machine.Event Pid Empty)} (hsome : monitors.Nonempty)
    (hstart : ∀ p ∈ monitors, s.prog p = .ret .reprobe)
    (hidle : ∀ p ∉ monitors, s.prog p = .ret .done)
    (hauto : ∀ p ∈ monitors, (s.world.monitors p).upstream = [])
    (hrules : ∀ r ∈ fromRules s.world, ∃ p ∈ monitors, 0 < (s.world.monitors p).gwTable ∧
      r = fromRule (s.world.monitors p).gwTable)
    (hnodup : (fromRules s.world).Nodup)
    (huplink : uplink P s.world.kernel [] = some (n, table))
    (hrun : (network P).toSystem.run s es = some t)
    (hdone : ∀ p ∈ monitors, t.prog p = .ret .done) :
    fromRules t.world = [fromRule table] ∧ ∀ p ∈ monitors, (t.world.monitors p).gwTable = table := by
  obtain ⟨pending, hghost⟩ := (network P).withGhost_run notePending
    (fun pending _ _ _ => pending) hrun monitors
  have hholds : (convergeContract P s.world.kernel monitors table).Holds
      ⟨(s.world, monitors), s.prog⟩ := by
    refine ⟨⟨SameUplink.refl _, fun _ h => h, hnodup, fun r hr => Or.inr (hrules r hr)⟩, ?_⟩
    intro p _
    by_cases hp : p ∈ monitors
    · show Contract.wp _ p (s.prog p) _ _
      rw [hstart p hp]
      refine Contract.wp_ret fun v hrely _ => ⟨hrely.pending.2 hp, ?_⟩
      rw [hrely.monitor]
      exact hauto p hp
    · show Contract.wp _ p (s.prog p) _ _
      rw [hidle p hp]
      exact Contract.wp_ret fun v _ _ hp' => absurd hp' hp
  have hend := (convergeContract_sound huplink).run
    ((network_spawns P).withGhost _ _) hholds
    ((watchedNetwork P).guardedBy_of_forall (fun _ _ _ => trivial) (fun _ _ => trivial) _ es) hghost
  have hall : ∀ p ∈ monitors,
      (t.world.monitors p).gwTable = table ∧ fromRule table ∈ t.world.kernel.rules := by
    intro p hp
    have hwp := hend.prog p rfl
    simp only [hdone p hp] at hwp
    exact hwp _ (Contract.rely_refl _ p _) hend.inv hp
  obtain ⟨p₀, hp₀⟩ := hsome
  have honly : ∀ r ∈ fromRules t.world, r = fromRule table := by
    intro r hr
    rcases hend.inv.owned r hr with hr | ⟨q, hq, -, hr⟩
    · exact hr
    · have hcache : (t.world.monitors q).gwTable = table := (hall q (hend.inv.pending hq)).1
      rw [hr]
      exact congrArg fromRule hcache
  have hmem : fromRule table ∈ fromRules t.world := mem_subnetRules_fromRule.2 (hall p₀ hp₀).2
  refine ⟨?_, fun p hp => (hall p hp).1⟩
  refine List.perm_singleton.1
    ((List.perm_ext_iff_of_nodup hend.inv.nodup (List.nodup_singleton _)).2 fun r => ?_)
  rw [List.mem_singleton]
  exact ⟨honly r, fun h => h ▸ hmem⟩

/-- Netd has moved to table 1004; two monitors still have 1003 and 1005 cached. -/
def handoffKernel : Kernel where
  rules := [fromRule 1003, fromRule 1005,
    { prio := 31000, table := 1004, fwmask := 0xffff, iif := "lo".toList }]
  routes := [⟨1004, 0, "wlan0".toList, 0, true⟩]
  links := [⟨"wlan0".toList, true⟩]
  filter := netfilterRules natBridge

/-- No exclude pattern matches `wlan0`. -/
def handoffPlatform : Platform where
  android := true
  fnmatch _ _ := false

def handoff : Machine.State Pid World Op Entry Op.Res where
  world := ⟨handoffKernel, fun p => { gwTable := if p = 1 then 1003 else 1005 }⟩
  prog p := .ret (if p = 1 ∨ p = 2 then .reprobe else .done)

/-- The two monitors in turns. -/
def alternating : List (Machine.Event Pid Empty) :=
  (List.replicate 15 [.step 1 0, .step 2 0]).flatten

theorem two_reprobes_converge :
    ∃ t, (network handoffPlatform).toSystem.run handoff alternating = some t ∧
      fromRules t.world = [fromRule 1004] ∧
        ∀ p ∈ ({1, 2} : Set Pid), (t.world.monitors p).gwTable = 1004 := by
  have hends : (((network handoffPlatform).toSystem.run handoff alternating).any fun t =>
      finished (t.prog 1) && finished (t.prog 2)) = true := by decide +kernel
  obtain ⟨t, hrun, hfinished⟩ := (Option.any_eq_true _ _).1 hends
  rw [Bool.and_eq_true] at hfinished
  refine ⟨t, hrun, reprobes_converge (n := "wlan0".toList) ⟨1, Or.inl rfl⟩ ?_ ?_ ?_ ?_ ?_ ?_ hrun ?_⟩
  · rintro p (rfl | rfl) <;> rfl
  · intro p hp
    exact congrArg Prog.ret (if_neg hp)
  · intro p _
    rfl
  · intro r hr
    have hr' : r ∈ [fromRule 1003, fromRule 1005] := hr
    rcases List.mem_pair.1 hr' with rfl | rfl
    · exact ⟨1, Or.inl rfl, by decide, rfl⟩
    · exact ⟨2, Or.inr rfl, by decide, rfl⟩
  · show [fromRule 1003, fromRule 1005].Nodup
    decide
  · decide +kernel
  · rintro p (rfl | rfl)
    · exact eq_done_of_finished hfinished.1
    · exact eq_done_of_finished hfinished.2

end Droidspaces.Network
