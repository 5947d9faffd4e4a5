import Droidspaces.Config.Reload
import Droidspaces.Network.SegmentNames
import Mathlib.Data.Finset.Card

/-!
# Tearing down the segments of a gateway

`ds_net_gateway_teardown` scans the configurations for those that delegate to a gateway.  It takes
each bridge once and deletes the gateway's veth, which is named after the LAN and not after the
bridge; of the bridges that it has taken it remembers 32.

`teardown_complete_iff` says when no veth of the gateway is left over: each one that exists must be
that of a segment that is taken.
-/

namespace Droidspaces.Gateway

open Config

/-! ## The code -/

/-- What the scan of `Containers/` comes to. -/
structure Entry where
  dName : Text
  /-- What `ds_config_load_by_name` loads. -/
  cfg : DsConfig
  /-- What `ds_nl_count_bridge_members_with_prefix` answers about the bridge at that time. -/
  clients : ℕ

/-- The container is a client of the gateway. -/
def delegates (gatewayName : Text) (cfg : DsConfig) : Bool :=
  cfg.value .netMode == .gateway && !(cfg.value (.text .gatewayContainer)).isEmpty &&
    cfg.value (.text .gatewayContainer) == gatewayName

def scanned (gatewayName : Text) (e : Entry) : Bool :=
  !(e.dName.head? == some '.') && delegates gatewayName e.cfg

def Entry.bridge (e : Entry) : Text := gatewayBridgeName e.cfg

/-- The loop variables, and the links of the host. -/
structure Scan where
  seen : List Text
  links : List Text

/-- `seen` has room for so many bridges. -/
def maxSeen : ℕ := 32

def teardownEntry (gatewayName : Text) (s : Scan) (e : Entry) : Scan :=
  if !scanned gatewayName e || s.seen.contains e.bridge then s
  else
    let seen := if s.seen.length < maxSeen then s.seen ++ [e.bridge] else s.seen
    let links := s.links.filter (· != vethHost e.cfg)
    if 0 < e.clients then ⟨seen, links⟩ else ⟨seen, links.filter (· != e.bridge)⟩

/-- The links that are left on the host. -/
def dsNetGatewayTeardown (gatewayName : Text) (entries : List Entry) (links : List Text) :
    List Text :=
  if gatewayName.isEmpty then links
  else (entries.foldl (teardownEntry gatewayName) ⟨[], links⟩).links

/-! ## The bridges that are remembered -/

section Recorded

variable {α : Type*} [DecidableEq α] (n : ℕ)

/-- One of the first `n` different items of a list. -/
def Recorded (l : List α) (a : α) : Prop :=
  ∃ pre post, l = pre ++ a :: post ∧ a ∉ pre ∧ pre.toFinset.card < n

/-- An item is remembered if it is new and there is room. -/
def record (seen : List α) (a : α) : List α :=
  if a ∈ seen then seen else if seen.length < n then seen ++ [a] else seen

variable {n} {l : List α} {a b : α}

theorem Recorded.mem (h : Recorded n l a) : a ∈ l := by
  obtain ⟨pre, post, rfl, -, -⟩ := h
  simp

theorem Recorded.append (h : Recorded n l a) (m : List α) : Recorded n (l ++ m) a := by
  obtain ⟨pre, post, rfl, hfirst, hcard⟩ := h
  exact ⟨pre, post ++ m, by simp, hfirst, hcard⟩

/-- As long as there are fewer different items all of them are recorded. -/
theorem recorded_of_mem (hcard : l.toFinset.card < n) (ha : a ∈ l) : Recorded n l a := by
  obtain ⟨pre, post, hl, hfirst⟩ := List.eq_append_cons_of_mem ha
  refine ⟨pre, post, hl, hfirst, lt_of_le_of_lt (Finset.card_le_card ?_) hcard⟩
  intro x hx
  rw [List.mem_toFinset] at hx ⊢
  rw [hl]
  exact List.mem_append_left _ hx

theorem recorded_concat_iff :
    Recorded n (l ++ [b]) a ↔ Recorded n l a ∨ a = b ∧ b ∉ l ∧ l.toFinset.card < n := by
  constructor
  · rintro ⟨pre, post, hl, hfirst, hcard⟩
    rcases List.eq_nil_or_concat post with rfl | ⟨post, c, rfl⟩
    · obtain ⟨rfl, hab⟩ := List.append_inj' hl rfl
      obtain rfl := List.singleton_inj.1 hab
      exact Or.inr ⟨rfl, hfirst, hcard⟩
    · rw [List.concat_eq_append, ← List.cons_append, ← List.append_assoc] at hl
      obtain ⟨rfl, -⟩ := List.append_inj' hl rfl
      exact Or.inl ⟨pre, post, rfl, hfirst, hcard⟩
  · rintro (h | ⟨rfl, hfirst, hcard⟩)
    · exact h.append [b]
    · exact ⟨l, [], rfl, hfirst, hcard⟩

/-- What is remembered are the items that are recorded. -/
theorem foldl_record (l : List α) :
    (l.foldl (record n) []).length = min n l.toFinset.card ∧
      ∀ a, a ∈ l.foldl (record n) [] ↔ Recorded n l a := by
  induction l using List.reverseRecOn with
  | nil =>
    refine ⟨by simp, fun a => iff_of_false List.not_mem_nil fun h => ?_⟩
    exact List.not_mem_nil h.mem
  | append_singleton l b ih =>
    obtain ⟨hlen, hmem⟩ := ih
    rw [List.foldl_append, List.foldl_cons, List.foldl_nil]
    generalize l.foldl (record n) [] = seen at hlen hmem
    have hcard : (l ++ [b]).toFinset.card = l.toFinset.card + if b ∈ l then 0 else 1 := by
      have hinsert : (l ++ [b]).toFinset = insert b l.toFinset := by
        ext x
        simp
      rw [hinsert]
      split
      · next hb => rw [Finset.insert_eq_of_mem (List.mem_toFinset.2 hb), Nat.add_zero]
      · next hb => rw [Finset.card_insert_of_notMem (by simpa using hb)]
    unfold record
    by_cases hseen : b ∈ seen
    · have hb : b ∈ l := ((hmem b).1 hseen).mem
      rw [if_pos hseen, hcard, if_pos hb, Nat.add_zero]
      refine ⟨hlen, fun a => ?_⟩
      rw [hmem, recorded_concat_iff]
      exact (or_iff_left fun h => h.2.1 hb).symm
    · rw [if_neg hseen]
      by_cases hroom : seen.length < n
      · have hfew : l.toFinset.card < n := by omega
        have hb : b ∉ l := fun hb => hseen ((hmem b).2 (recorded_of_mem hfew hb))
        rw [if_pos hroom, hcard, if_neg hb]
        refine ⟨by rw [List.length_append, List.length_singleton]; omega, fun a => ?_⟩
        rw [List.mem_append, hmem, List.mem_singleton, recorded_concat_iff]
        simp [hb, hfew]
      · have hmany : ¬l.toFinset.card < n := by omega
        rw [if_neg hroom, hcard]
        refine ⟨by omega, fun a => ?_⟩
        rw [hmem, recorded_concat_iff]
        exact (or_iff_left fun h => hmany h.2.2).symm

end Recorded

/-! ## The links that are left -/

section Links

variable {gatewayName : Text} {entries : List Entry} {links : List Text}

/-- The bridges of the clients that are scanned. -/
def bridges (gatewayName : Text) (entries : List Entry) : List Text :=
  (entries.filter (scanned gatewayName)).map Entry.bridge

/-- The segment of a client is taken: its bridge is not one of the first 32 that come before. -/
def Handled (gatewayName : Text) (entries : List Entry) (s : Entry) : Prop :=
  ∃ before after, entries = before ++ s :: after ∧ scanned gatewayName s = true ∧
    ¬Recorded maxSeen (bridges gatewayName before) s.bridge

/-- Taking a segment deletes its veth, and its bridge if there is no client on it. -/
def Entry.Deletes (s : Entry) (link : Text) : Prop :=
  vethHost s.cfg = link ∨ s.clients = 0 ∧ s.bridge = link

theorem handled_concat_iff {e s : Entry} :
    Handled gatewayName (entries ++ [e]) s ↔ Handled gatewayName entries s ∨
      s = e ∧ scanned gatewayName e = true ∧
        ¬Recorded maxSeen (bridges gatewayName entries) e.bridge := by
  constructor
  · rintro ⟨before, after, hsplit, hs⟩
    rcases List.eq_nil_or_concat after with rfl | ⟨after, d, rfl⟩
    · obtain ⟨rfl, heq⟩ := List.append_inj' hsplit rfl
      obtain rfl := List.singleton_inj.1 heq
      exact Or.inr ⟨rfl, hs⟩
    · rw [List.concat_eq_append, ← List.cons_append, ← List.append_assoc] at hsplit
      obtain ⟨rfl, -⟩ := List.append_inj' hsplit rfl
      exact Or.inl ⟨before, after, rfl, hs⟩
  · rintro (⟨before, after, rfl, hs⟩ | ⟨rfl, hs⟩)
    · exact ⟨before, after ++ [e], by simp, hs⟩
    · exact ⟨entries, [], rfl, hs⟩

/-- One entry: whether it is taken is up to what is remembered. -/
theorem teardownEntry_eq (s : Scan) (e : Entry) :
    teardownEntry gatewayName s e =
      if scanned gatewayName e = true then
        ⟨record maxSeen s.seen e.bridge,
          if e.bridge ∈ s.seen then s.links
          else (s.links.filter (· != vethHost e.cfg)).filter fun link =>
            !(e.clients == 0 && link == e.bridge)⟩
      else s := by
  unfold teardownEntry record
  cases hscanned : scanned gatewayName e with
  | false => simp
  | true =>
    by_cases hseen : e.bridge ∈ s.seen
    · simp [hseen]
    · have hno : s.seen.contains e.bridge = false := by simpa using hseen
      simp only [Bool.not_true, hno, Bool.or_self, Bool.false_eq_true, if_false, if_true, hseen]
      by_cases hclients : 0 < e.clients
      · have hbusy : (e.clients == 0) = false := by
          rw [beq_eq_false_iff_ne]
          omega
        simp [hclients, hbusy]
      · have hidle : (e.clients == 0) = true := by
          rw [beq_iff_eq]
          omega
        simp [hclients, hidle, bne]

theorem seen_foldl (entries : List Entry) :
    (entries.foldl (teardownEntry gatewayName) ⟨[], links⟩).seen =
      (bridges gatewayName entries).foldl (record maxSeen) [] := by
  induction entries using List.reverseRecOn with
  | nil => rfl
  | append_singleton entries e ih =>
    rw [List.foldl_append, List.foldl_cons, List.foldl_nil, teardownEntry_eq, bridges,
      List.filter_append, List.map_append, List.foldl_append]
    cases hscanned : scanned gatewayName e with
    | false => simpa [hscanned, bridges] using ih
    | true => simp [hscanned, ih, bridges]

/-- What is left are the links that no segment deletes. -/
theorem mem_links_foldl {link : Text} (entries : List Entry) :
    link ∈ (entries.foldl (teardownEntry gatewayName) ⟨[], links⟩).links ↔
      link ∈ links ∧ ∀ s, Handled gatewayName entries s → ¬s.Deletes link := by
  induction entries using List.reverseRecOn with
  | nil =>
    refine (and_iff_left fun s hs => ?_).symm
    obtain ⟨before, after, hsplit, -⟩ := hs
    simp at hsplit
  | append_singleton entries e ih =>
    have hseen : e.bridge ∈ (entries.foldl (teardownEntry gatewayName) ⟨[], links⟩).seen ↔
        Recorded maxSeen (bridges gatewayName entries) e.bridge := by
      rw [seen_foldl]
      exact (foldl_record (bridges gatewayName entries)).2 e.bridge
    rw [List.foldl_append, List.foldl_cons, List.foldl_nil, teardownEntry_eq]
    by_cases htaken : scanned gatewayName e = true ∧
        ¬Recorded maxSeen (bridges gatewayName entries) e.bridge
    · have hall : (∀ s, Handled gatewayName (entries ++ [e]) s → ¬s.Deletes link) ↔
          (∀ s, Handled gatewayName entries s → ¬s.Deletes link) ∧ ¬e.Deletes link := by
        simp only [handled_concat_iff]
        constructor
        · intro h
          exact ⟨fun s hs => h s (Or.inl hs), h e (Or.inr ⟨rfl, htaken⟩)⟩
        · rintro ⟨h, he⟩ s (hs | ⟨rfl, -⟩)
          · exact h s hs
          · exact he
      rw [hall, if_pos htaken.1, if_neg (hseen.not.2 htaken.2), ← and_assoc, ← ih]
      simp only [List.mem_filter, Entry.Deletes, bne_iff_ne, ne_eq, Bool.not_eq_true',
        Bool.and_eq_false_iff, beq_eq_false_iff_ne]
      grind
    · have hall : ∀ s, Handled gatewayName (entries ++ [e]) s ↔ Handled gatewayName entries s := by
        intro s
        rw [handled_concat_iff]
        exact or_iff_left fun h => htaken h.2
      simp only [hall]
      rw [← ih]
      split
      · next hscanned =>
        have hrecorded := not_not.1 fun hno => htaken ⟨hscanned, hno⟩
        rw [if_pos (hseen.2 hrecorded)]
      · rfl

/-- **No veth of the gateway is left exactly if each one that exists is the one of a segment that is
taken**, or bears the name of the idle bridge of such a segment. -/
theorem teardown_complete_iff (gatewayName : Text) (entries : List Entry) (links : List Text) :
    (∀ e ∈ entries, delegates gatewayName e.cfg = true →
        vethHost e.cfg ∉ dsNetGatewayTeardown gatewayName entries links) ↔
      ∀ e ∈ entries, delegates gatewayName e.cfg = true → vethHost e.cfg ∈ links →
        ∃ s, Handled gatewayName entries s ∧ s.Deletes (vethHost e.cfg) := by
  refine forall_congr' fun e => forall_congr' fun _ => forall_congr' fun hdelegates => ?_
  have hne : gatewayName.isEmpty = false := by
    simp only [delegates, Bool.and_eq_true, Bool.not_eq_true', beq_iff_eq] at hdelegates
    rw [← hdelegates.2]
    exact hdelegates.1.2
  rw [dsNetGatewayTeardown, hne, if_neg (by simp), mem_links_foldl]
  push Not
  rfl

def lanConfig (net : String) : DsConfig :=
  dsConfigLoad plainSystem ("net_mode=gateway\ngateway_container=wrt\ngateway_bridge=br-lan\n" ++
    "gateway_net=" ++ net ++ "\n").toList zeroed

/-- Two LANs that were given one bridge. -/
def lanClients : List Entry := [
  ⟨"a".toList, lanConfig "office", 0⟩,
  ⟨"b".toList, lanConfig "guests", 0⟩]

def lanLinks : List Text :=
  ["br-lan".toList, vethHost (lanConfig "office"), vethHost (lanConfig "guests")]

/-- The second veth of a bridge is left. -/
theorem teardown_leaves_veth :
    dsNetGatewayTeardown "wrt".toList lanClients lanLinks = [vethHost (lanConfig "guests")] ∧
      ¬∀ e ∈ lanClients, delegates "wrt".toList e.cfg = true →
        vethHost e.cfg ∉ dsNetGatewayTeardown "wrt".toList lanClients lanLinks := by
  decide +kernel

end Links

end Droidspaces.Gateway
