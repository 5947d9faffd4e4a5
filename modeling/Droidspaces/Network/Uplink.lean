import Droidspaces.Network.World

/-!
# Uplink detection

`find_active_uplink` of `network.c` and what it calls, as programs of queries.  Every query is a
netlink dump or an `ioctl`, so the programs read the kernel and change nothing; `uplink` is what
they find in one kernel state.

The container's own policy rules carry a source or a destination, and netd's default-network rule
carries neither.  So they never influence what is found (`SameUplink.newRule`,
`SameUplink.delRule`), and what is found is a real table (`uplink_pos`).
-/

namespace Droidspaces.Network

open Transition

/-- Programs of uplink detection. -/
abbrev Detect := Prog Query Query.Res

def ask (q : Query) : Detect q.Res := Prog.perform q

/-- The first element of a list for which the program finds something. -/
def firstSome {β γ : Type} (f : β → Detect (Option γ)) : List β → Detect (Option γ)
  | [] => return none
  | b :: bs => do
    match ← f b with
    | some c => return some c
    | none => firstSome f bs

/-- `k_uplink_patterns`. -/
def uplinkPatterns : List Iface :=
  ["wlan*", "eth*", "v4-*", "rmnet*", "*ccmni*"].map String.toList

/-- `k_uplink_excludes`. -/
def uplinkExcludes : List Iface :=
  ["ds-*", "lo", "dummy*", "swlan*", "ap*", "usb*", "rndis*", "ncm*", "p2p*", "tun*", "ppp*",
    "bt-pan"].map String.toList

/-- `RT_TABLE_MAIN`. -/
def rtTableMain : ℕ := 254

/-- `ds_nl_get_android_default`. -/
def getAndroidDefault : Detect (Option (Iface × ℤ)) := do
  match ← ask .netdDefault with
  | none => return none
  | some table =>
    match ← ask (.tableDefaultOif table) with
    | none => return none
    | some n => return some (n, table)

variable (P : Platform)

/-- `uplink_name_excluded`. -/
def uplinkNameExcluded (n : Iface) : Bool := uplinkExcludes.any (P.fnmatch · n)

/-- `uplink_candidate_ok`. -/
def uplinkCandidateOk (n : Iface) : Detect Bool := do
  if n = [] then
    return false
  if uplinkNameExcluded P n then
    return false
  ask (.ifaceIsRunning n)

/-- One interface of `scan_uplink_whitelist` under one pattern. -/
def scanCandidate (pattern n : Iface) : Detect (Option (Iface × ℤ)) := do
  if !P.fnmatch pattern n then
    return none
  if !(← uplinkCandidateOk P n) then
    return none
  match ← ask (.ifaceTable n) with
  | none => return none
  | some table => return some (n, table)

/-- `scan_uplink_whitelist`. -/
def scanUplinkWhitelist : Detect (Option (Iface × ℤ)) := do
  let all ← ask .listIfaces
  firstSome (fun pattern => firstSome (scanCandidate P pattern) all) uplinkPatterns

/-- One interface of `resolve_pinned_uplink`. -/
def pinnedCandidate (n : Iface) : Detect (Option (Iface × ℤ)) := do
  if !(← ask (.ifaceIsRunning n)) then
    return none
  match ← ask (.ifaceTable n) with
  | none => return none
  | some table => return some (n, table)

/-- `resolve_pinned_uplink`; the interfaces are listed when the first wildcard asks for them. -/
def resolvePinnedUplink : List Iface → Option (List Iface) → Detect (Option (Iface × ℤ))
  | [], _ => return none
  | pattern :: rest, all => do
    if '*' ∈ pattern ∨ '?' ∈ pattern then
      let names ← match all with
        | some names => pure names
        | none => ask .listIfaces
      match ← firstSome pinnedCandidate (names.filter (P.fnmatch pattern)) with
      | some found => return some found
      | none => resolvePinnedUplink rest (some names)
    else
      match ← pinnedCandidate pattern with
      | some found => return some found
      | none => resolvePinnedUplink rest all

/-- Tier 1 of `find_active_uplink`, on Android only: netd's default-network rule. -/
def netdUplink : Detect (Option (Iface × ℤ)) := do
  if !P.android then
    return none
  match ← getAndroidDefault with
  | none => return none
  | some (n, table) => return if ← uplinkCandidateOk P n then some (n, table) else none

/-- Tier 2 of `find_active_uplink`: the default route of the main table. -/
def mainUplink : Detect (Option (Iface × ℤ)) := do
  match ← ask (.tableDefaultOif rtTableMain) with
  | none => return none
  | some n => return if ← uplinkCandidateOk P n then some (n, (rtTableMain : ℤ)) else none

/-- `find_active_uplink`. -/
def findActiveUplink (upstream : List Iface) : Detect (Option (Iface × ℤ)) := do
  if upstream ≠ [] then
    resolvePinnedUplink P upstream none
  else
    match ← netdUplink P with
    | some found => return some found
    | none =>
      match ← mainUplink P with
      | some found => return some found
      | none => scanUplinkWhitelist P

/-- What `find_active_uplink` finds in one state of the kernel. -/
def uplink (k : Kernel) (upstream : List Iface) : Option (Iface × ℤ) :=
  (findActiveUplink P upstream).eval k.answer

/-! ## What is found is a table -/

section Positive

variable {P} {k : Kernel}

theorem firstSome_eval {β γ : Type} {answer : (q : Query) → q.Res} {f : β → Detect (Option γ)}
    {bs : List β} {c : γ} (h : (firstSome f bs).eval answer = some c) :
    ∃ b ∈ bs, (f b).eval answer = some c := by
  induction bs with
  | nil => simp [firstSome] at h
  | cons b bs ih =>
    simp only [firstSome, Prog.eval_bind] at h
    cases hb : (f b).eval answer with
    | some c' =>
      simp only [hb, Prog.pure_eq, Prog.eval_ret] at h
      exact ⟨b, List.mem_cons_self, hb.trans h⟩
    | none =>
      rw [hb] at h
      obtain ⟨b', hmem, hb'⟩ := ih h
      exact ⟨b', List.mem_cons_of_mem b hmem, hb'⟩

theorem ifaceTable_pos {n : Iface} {table : ℤ}
    (h : k.answer (.ifaceTable n) = some table) : 0 < table := by
  obtain ⟨found, hfound, rfl⟩ := Option.map_eq_some_iff.1 h
  unfold Kernel.ifaceTable at hfound
  split at hfound
  · simp only [Option.ite_none_left_eq_some, Option.some.injEq] at hfound
    obtain ⟨hne, rfl⟩ := hfound
    exact Int.natCast_pos.2 (Nat.pos_of_ne_zero hne)
  · cases hfound

/-- The best rule of a dump is one of its rules. -/
theorem foldl_netdDefaultStep {best found : Option (ℕ × ℕ)} {rules : List PolicyRule}
    (h : rules.foldl Kernel.netdDefaultStep best = found) :
    found = best ∨ ∃ r ∈ rules, found = some (r.table, r.prio) := by
  induction rules generalizing best with
  | nil => exact Or.inl h.symm
  | cons r rules ih =>
    rcases ih h with hbest | ⟨r', hr', hfound⟩
    · unfold Kernel.netdDefaultStep at hbest
      split at hbest
      · exact Or.inr ⟨r, List.mem_cons_self, hbest⟩
      · split at hbest
        · exact Or.inr ⟨r, List.mem_cons_self, hbest⟩
        · exact Or.inl hbest
    · exact Or.inr ⟨r', List.mem_cons_of_mem r hr', hfound⟩

theorem netdDefault_pos {table : ℤ} (h : k.answer .netdDefault = some table) : 0 < table := by
  obtain ⟨found, hfound, rfl⟩ := Option.map_eq_some_iff.1 h
  obtain ⟨best, hbest, rfl⟩ := Option.map_eq_some_iff.1 hfound
  obtain hnone | ⟨r, hr, hbest'⟩ := foldl_netdDefaultStep hbest
  · cases hnone
  · obtain rfl := Option.some.inj hbest'
    have hnetd := (List.mem_filter.1 hr).2
    simp only [Kernel.isNetdDefault, Bool.and_eq_true, decide_eq_true_eq] at hnetd
    exact Int.natCast_pos.2 hnetd.2

/-- Whatever the program finds in `k` has a table. -/
def FindsTable (k : Kernel) (m : Detect (Option (Iface × ℤ))) : Prop :=
  ∀ c, m.eval k.answer = some c → 0 < c.2

theorem firstSome_findsTable {β : Type} {f : β → Detect (Option (Iface × ℤ))} {bs : List β}
    (h : ∀ b, FindsTable k (f b)) : FindsTable k (firstSome f bs) := by
  intro c hc
  obtain ⟨b, -, hb⟩ := firstSome_eval hc
  exact h b c hb

theorem pinnedCandidate_findsTable (n : Iface) : FindsTable k (pinnedCandidate n) := by
  intro c hc
  simp only [pinnedCandidate, ask, Prog.perform_bind, Prog.eval_call] at hc
  split at hc
  · cases hc
  · simp only [Prog.eval_call] at hc
    split at hc
    · cases hc
    · rename_i table htable
      obtain rfl := Option.some.inj hc
      exact ifaceTable_pos htable

theorem scanCandidate_findsTable (pattern n : Iface) :
    FindsTable k (scanCandidate P pattern n) := by
  intro c hc
  simp only [scanCandidate, ask] at hc
  split at hc
  · cases hc
  · simp only [Prog.eval_bind] at hc
    split at hc
    · cases hc
    · simp only [Prog.perform_bind, Prog.eval_call] at hc
      split at hc
      · cases hc
      · rename_i table htable
        obtain rfl := Option.some.inj hc
        exact ifaceTable_pos htable

theorem resolvePinnedUplink_findsTable (upstream : List Iface) (all : Option (List Iface)) :
    FindsTable k (resolvePinnedUplink P upstream all) := by
  induction upstream generalizing all with
  | nil =>
    intro c hc
    cases hc
  | cons pattern rest ih =>
    intro c hc
    have hwild (names : List Iface)
        (h : (firstSome pinnedCandidate (names.filter (P.fnmatch pattern)) >>= fun found =>
          match found with
          | some found => pure (some found)
          | none => resolvePinnedUplink P rest (some names)).eval k.answer = some c) :
        0 < c.2 := by
      rw [Prog.eval_bind] at h
      split at h
      · rename_i found hfound
        obtain rfl := Option.some.inj h
        exact firstSome_findsTable pinnedCandidate_findsTable found hfound
      · exact ih (some names) c h
    simp only [resolvePinnedUplink] at hc
    split at hc
    · split at hc
      · exact hwild _ hc
      · exact hwild (k.answer .listIfaces) hc
    · rw [Prog.eval_bind] at hc
      split at hc
      · rename_i found hfound
        obtain rfl := Option.some.inj hc
        exact pinnedCandidate_findsTable pattern found hfound
      · exact ih _ c hc

theorem getAndroidDefault_findsTable : FindsTable k getAndroidDefault := by
  intro c hc
  simp only [getAndroidDefault, ask, Prog.perform_bind, Prog.eval_call] at hc
  split at hc
  · cases hc
  · rename_i table htable
    simp only [Prog.eval_call] at hc
    split at hc
    · cases hc
    · obtain rfl := Option.some.inj hc
      exact netdDefault_pos htable

theorem netdUplink_findsTable : FindsTable k (netdUplink P) := by
  intro c hc
  unfold netdUplink at hc
  split at hc
  · cases hc
  · rw [Prog.eval_bind] at hc
    split at hc
    · cases hc
    · rename_i n table hfound
      simp only [Prog.eval_bind, Prog.pure_eq, Prog.eval_ret, Option.ite_none_right_eq_some,
        Option.some.injEq] at hc
      obtain ⟨-, rfl⟩ := hc
      exact getAndroidDefault_findsTable (n, table) hfound

theorem mainUplink_findsTable : FindsTable k (mainUplink P) := by
  intro c hc
  simp only [mainUplink, ask, Prog.perform_bind, Prog.eval_call] at hc
  split at hc
  · cases hc
  · simp only [Prog.eval_bind, Prog.pure_eq, Prog.eval_ret, Option.ite_none_right_eq_some,
      Option.some.injEq] at hc
    obtain ⟨-, rfl⟩ := hc
    show (0 : ℤ) < (rtTableMain : ℤ)
    decide

/-- An uplink is never the empty table. -/
theorem uplink_pos {upstream : List Iface} {n : Iface} {table : ℤ}
    (h : uplink P k upstream = some (n, table)) : 0 < table := by
  suffices hfinds : FindsTable k (findActiveUplink P upstream) from hfinds (n, table) h
  intro c hc
  unfold findActiveUplink at hc
  split at hc
  · exact resolvePinnedUplink_findsTable upstream none c hc
  · simp only [Prog.eval_bind] at hc
    split at hc
    · rename_i found hfound
      obtain rfl := Option.some.inj hc
      exact netdUplink_findsTable found hfound
    · simp only [Prog.eval_bind] at hc
      split at hc
      · rename_i found hfound
        obtain rfl := Option.some.inj hc
        exact mainUplink_findsTable found hfound
      · obtain ⟨pattern, -, hpattern⟩ := firstSome_eval hc
        exact firstSome_findsTable (scanCandidate_findsTable pattern) c hpattern

end Positive

/-! ## Rules with a source or a destination do not count -/

/-- Nothing that uplink detection reads has changed. -/
structure SameUplink (k k' : Kernel) : Prop where
  routes : k'.routes = k.routes
  links : k'.links = k.links
  netd : k'.rules.filter Kernel.isNetdDefault = k.rules.filter Kernel.isNetdDefault

namespace SameUplink

variable {k k' k'' : Kernel}

theorem refl (k : Kernel) : SameUplink k k := ⟨rfl, rfl, rfl⟩

theorem trans (h : SameUplink k k') (h' : SameUplink k' k'') : SameUplink k k'' :=
  ⟨h'.routes.trans h.routes, h'.links.trans h.links, h'.netd.trans h.netd⟩

theorem answer (h : SameUplink k k') (q : Query) : k'.answer q = k.answer q := by
  cases q with
  | netdDefault => simp only [Kernel.answer, Kernel.netdDefault, h.netd]
  | ifaceTable n =>
    have hfound : k'.ifaceTable n = k.ifaceTable n := by
      rw [Kernel.ifaceTable, Kernel.ifaceTable, Kernel.linkExists, Kernel.linkExists, h.routes,
        h.links]
    rw [Kernel.answer, Kernel.answer, hfound]
  | ifaceIsRunning n => simp only [Kernel.answer, Kernel.ifaceIsRunning, h.links]
  | listIfaces => simp only [Kernel.answer, Kernel.listIfaces, h.links]
  | tableDefaultOif table => simp only [Kernel.answer, Kernel.tableDefaultOif, h.routes]

theorem uplink (h : SameUplink k k') (upstream : List Iface) :
    uplink P k' upstream = Network.uplink P k upstream := by
  have hanswer : k'.answer = k.answer := funext h.answer
  rw [Network.uplink, hanswer]
  rfl

theorem newRule {r : PolicyRule} (hr : r.src.isSome = true ∨ r.dst.isSome = true) (k : Kernel) :
    SameUplink k { k with rules := (newRule r k.rules).1 } := by
  refine ⟨rfl, rfl, filter_newRule_of_not ?_⟩
  rcases hr with hr | hr <;> cases hsrc : r.src <;> cases hdst : r.dst <;>
    simp_all [Kernel.isNetdDefault]

theorem delRule {sel : RuleSelector} (hsel : sel.src.isSome = true ∨ sel.dst.isSome = true)
    (k : Kernel) : SameUplink k { k with rules := (delRule sel k.rules).1 } := by
  refine ⟨rfl, rfl, filter_delRule_of_not fun r hr => ?_⟩
  simp only [RuleSelector.selects, Bool.and_eq_true, Bool.or_eq_true, beq_iff_eq] at hr
  rcases hsel with hsel | hsel
  · have hsrc : r.src.isSome = true := by
      rcases hr.1.1.2 with hnone | heq
      · simp [Option.isNone_iff_eq_none.1 hnone] at hsel
      · rwa [heq]
    simp [Kernel.isNetdDefault, Option.isNone_eq_false_iff.2 hsrc]
  · have hdst : r.dst.isSome = true := by
      rcases hr.1.2 with hnone | heq
      · simp [Option.isNone_iff_eq_none.1 hnone] at hsel
      · rwa [heq]
    simp [Kernel.isNetdDefault, Option.isNone_eq_false_iff.2 hdst]

end SameUplink

end Droidspaces.Network
