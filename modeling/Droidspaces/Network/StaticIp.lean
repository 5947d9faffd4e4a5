import Droidspaces.Config.Reload
import Droidspaces.Network.SegmentNames
import Mathlib.Logic.Function.Iterate

/-!
# Static addresses

`ds_net_resolve_static_ip` keeps the address of a container, or it walks from a hash of the
container's name to the first address that `ds_net_check_ip_collision` finds nowhere in the
workspace.  The walk gets to every address (`exists_iterate_advance`), so that nothing but the scan
decides: it does not look into directories that start with a dot, nor into the one that the
container's own name is sanitized to.

`resolve_apart_iff` says when no other container has the address that comes out.
-/

namespace Droidspaces.StaticIp

open Config Gateway

/-! ## Walking to a free place -/

section Walk

variable {α : Type*} (next : α → α) (taken : α → Bool)

/-- The first place that is free within `n` steps, or the place after them. -/
def firstFree : ℕ → α → α
  | 0, a => a
  | n + 1, a => if taken a then firstFree n (next a) else a

variable {next taken}

theorem firstFree_of_taken {n k : ℕ} {a : α} (hk : k ≤ n)
    (h : ∀ j < k, taken (next^[j] a) = true) :
    firstFree next taken n a = firstFree next taken (n - k) (next^[k] a) := by
  induction k generalizing n a with
  | zero => rfl
  | succ k ih =>
    obtain ⟨m, rfl⟩ : ∃ m, n = m + 1 := ⟨n - 1, by omega⟩
    have hfirst : taken a = true := h 0 (Nat.succ_pos k)
    have hrest : ∀ j < k, taken (next^[j] (next a)) = true := by
      intro j hj
      rw [← Function.iterate_succ_apply]
      exact h (j + 1) (by omega)
    rw [firstFree, if_pos hfirst, ih (by omega) hrest, Function.iterate_succ_apply,
      Nat.add_sub_add_right]

theorem firstFree_eq {n k : ℕ} {a : α} (hk : k < n) (h : ∀ j < k, taken (next^[j] a) = true)
    (hfree : taken (next^[k] a) = false) : firstFree next taken n a = next^[k] a := by
  obtain ⟨m, hm⟩ : ∃ m, n - k = m + 1 := ⟨n - k - 1, by omega⟩
  rw [firstFree_of_taken (by omega) h, hm, firstFree, if_neg (by simp [hfree])]

/-- All that can be said of a predicate up to a bound. -/
theorem forall_or_first (p : ℕ → Bool) (n : ℕ) :
    (∀ k < n, p k = true) ∨ ∃ k < n, p k = false ∧ ∀ j < k, p j = true := by
  induction n with
  | zero => exact Or.inl fun k hk => absurd hk (Nat.not_lt_zero k)
  | succ n ih =>
    rcases ih with hall | ⟨k, hk, hfirst⟩
    · cases hn : p n with
      | true =>
        refine Or.inl fun k hk => ?_
        rcases Nat.lt_succ_iff_lt_or_eq.1 hk with hlt | rfl
        · exact hall k hlt
        · exact hn
      | false => exact Or.inr ⟨n, Nat.lt_succ_self n, hn, hall⟩
    · exact Or.inr ⟨k, by omega, hfirst⟩

end Walk

/-! ## The code -/

/-- A container with its file in the workspace. -/
structure Installed where
  name : Text
  valid : validateContainerName name = true
  /-- `container.config` -/
  config : Text

/-- The directory of a container. -/
def Installed.dir (c : Installed) : Text := sanitize c.name

/-- One container in each directory. -/
structure Workspace where
  containers : List Installed
  nodup : (containers.map Installed.dir).Nodup

section Resolve

variable (sys : System) (ws : Workspace)

/-- The address in a container's file. -/
def heldIp (c : Installed) : Text :=
  (dsConfigLoad sys c.config zeroed).value (.text .staticNatIp)

/-- What the scan does not look at. -/
def skipped (excludeName : Text) (c : Installed) : Bool :=
  c.dir.head? == some '.' || c.dir == sanitize excludeName

def dsNetCheckIpCollision (ipStr excludeName : Text) : Bool :=
  ws.containers.any fun c =>
    !skipped excludeName c && !(heldIp sys c).isEmpty && heldIp sys c == ipStr

/-- The two numbers of an address of the subnet. -/
def addressText (o : ℕ × ℕ) : Text :=
  "172.28.".toList ++ decimal o.1 ++ '.' :: decimal o.2

/-- The address after the last of a row is the first of the next one. -/
def advance : ℕ × ℕ → ℕ × ℕ
  | (o3, o4) =>
    if 254 < o4 + 1 then (if 254 < o3 + 1 then 1 else o3 + 1, 1)
    else (o3, o4 + 1)

def hashAddress (name : Text) : ℕ × ℕ :=
  let hash := dsNetHashString name
  ((hash >>> 8).toNat % 254 + 1, hash.toNat % 254 + 1)

def dsNetAutoAssignIp (name : Text) : Text :=
  TextKey.staticNatIp.stored (addressText (firstFree advance
    (fun o => dsNetCheckIpCollision sys ws (addressText o) name) (254 * 254) (hashAddress name)))

/-- The address of the container that is started. -/
def resolveIp (name ip : Text) : Text :=
  if !ip.isEmpty && validateStaticIp ip && !dsNetCheckIpCollision sys ws ip name then ip
  else dsNetAutoAssignIp sys ws name

def dsNetResolveStaticIp (cfg : DsConfig) : DsConfig :=
  cfg.set (.text .staticNatIp)
    (resolveIp sys ws (cfg.value (.text .name)) (cfg.value (.text .staticNatIp)))

end Resolve

/-! ## The walk around the subnet -/

/-- The addresses in the order of the walk. -/
def slot (n : ℕ) : ℕ × ℕ := (n / 254 % 254 + 1, n % 254 + 1)

theorem advance_slot (n : ℕ) : advance (slot n) = slot (n + 1) := by
  unfold advance slot
  dsimp only
  by_cases hrow : n % 254 = 253
  · by_cases hlast : n / 254 % 254 = 253
    · rw [if_pos (by omega), if_pos (by omega)]
      refine Prod.ext ?_ ?_
      · show 1 = (n + 1) / 254 % 254 + 1
        omega
      · show 1 = (n + 1) % 254 + 1
        omega
    · rw [if_pos (by omega), if_neg (by omega)]
      refine Prod.ext ?_ ?_
      · show n / 254 % 254 + 1 + 1 = (n + 1) / 254 % 254 + 1
        omega
      · show 1 = (n + 1) % 254 + 1
        omega
  · rw [if_neg (by omega)]
    refine Prod.ext ?_ ?_
    · show n / 254 % 254 + 1 = (n + 1) / 254 % 254 + 1
      omega
    · show n % 254 + 1 + 1 = (n + 1) % 254 + 1
      omega

theorem iterate_advance_slot (n k : ℕ) : advance^[k] (slot n) = slot (n + k) := by
  induction k with
  | zero => rfl
  | succ k ih => rw [Function.iterate_succ_apply', ih, advance_slot, Nat.add_assoc]

theorem slot_mod (n : ℕ) : slot (n % (254 * 254)) = slot n := by
  unfold slot
  refine Prod.ext ?_ ?_
  · show n % (254 * 254) / 254 % 254 + 1 = n / 254 % 254 + 1
    omega
  · show n % (254 * 254) % 254 + 1 = n % 254 + 1
    omega

/-- An address that containers may have. -/
def IsAddress (o : ℕ × ℕ) : Prop := (1 ≤ o.1 ∧ o.1 ≤ 254) ∧ 1 ≤ o.2 ∧ o.2 ≤ 254

theorem isAddress_slot (n : ℕ) : IsAddress (slot n) := by
  unfold IsAddress slot
  dsimp only
  omega

theorem IsAddress.exists_slot {o : ℕ × ℕ} (h : IsAddress o) : ∃ n, o = slot n := by
  obtain ⟨⟨hpos, hle⟩, hpos', hle'⟩ := h
  refine ⟨(o.1 - 1) * 254 + (o.2 - 1), Prod.ext ?_ ?_⟩
  · show o.1 = ((o.1 - 1) * 254 + (o.2 - 1)) / 254 % 254 + 1
    omega
  · show o.2 = ((o.1 - 1) * 254 + (o.2 - 1)) % 254 + 1
    omega

theorem isAddress_hashAddress (name : Text) : IsAddress (hashAddress name) := by
  unfold IsAddress hashAddress
  dsimp only
  omega

theorem IsAddress.iterate_advance {o : ℕ × ℕ} (h : IsAddress o) (k : ℕ) :
    IsAddress (advance^[k] o) := by
  obtain ⟨n, rfl⟩ := h.exists_slot
  rw [iterate_advance_slot]
  exact isAddress_slot (n + k)

/-- **The walk gets from every address to every other one.** -/
theorem exists_iterate_advance {o o' : ℕ × ℕ} (h : IsAddress o) (h' : IsAddress o') :
    ∃ k < 254 * 254, advance^[k] o = o' := by
  obtain ⟨n, rfl⟩ := h.exists_slot
  obtain ⟨n', rfl⟩ := h'.exists_slot
  refine ⟨(n' + (254 * 254 - n % (254 * 254))) % (254 * 254), Nat.mod_lt _ (by decide), ?_⟩
  rw [iterate_advance_slot, ← slot_mod, ← slot_mod n']
  have hsum : (n + (n' + (254 * 254 - n % (254 * 254))) % (254 * 254)) % (254 * 254) =
      n' % (254 * 254) := by
    omega
  rw [hsum]

/-! ## Addresses as text -/

section Address

variable {o : ℕ × ℕ} (h : IsAddress o)
include h

theorem validateStaticIp_addressText : validateStaticIp (addressText o) = true := by
  have hoctet : ∀ n < 255, 1 ≤ n → parseOctet (decimal n) = some n := by
    decide +kernel
  have hthird := hoctet o.1 (by have := h.1; omega) h.1.1
  have hfourth := hoctet o.2 (by have := h.2; omega) h.2.1
  have hjoin : ∀ a b : Text, "172.28.".toList ++ a ++ '.' :: b =
      ['.'].intercalate ["172".toList, "28".toList, a, b] := by
    intro a b
    simp [List.intercalate, List.intersperse]
  have htext : addressText o =
      ['.'].intercalate ["172".toList, "28".toList, decimal o.1, decimal o.2] := hjoin _ _
  have hdot : ∀ t ∈ ["172".toList, "28".toList, decimal o.1, decimal o.2], '.' ∉ t := by
    simp only [List.mem_cons, List.not_mem_nil, or_false, forall_eq_or_imp, forall_eq]
    exact ⟨by decide, by decide, not_mem_decimal _ rfl, not_mem_decimal _ rfl⟩
  have hfixed : parseOctet "172".toList = some 172 ∧ parseOctet "28".toList = some 28 := by
    decide
  rw [validateStaticIp, htext, List.splitOn_intercalate '.' hdot (by simp)]
  simp only [List.map_cons, List.map_nil, hfixed.1, hfixed.2, hthird, hfourth]
  obtain ⟨hrow, hcolumn⟩ := h
  simp only [Bool.and_eq_true, decide_eq_true_eq]
  omega

theorem stored_addressText : TextKey.staticNatIp.stored (addressText o) = addressText o := by
  have hshort : ∀ n ≤ 254, (decimal n).length ≤ 3 := fun n hn =>
    (Nat.length_toDigits_le_iff (by decide) (by decide)).2 (by omega)
  have hthird := hshort o.1 h.1.2
  have hfourth := hshort o.2 h.2.2
  have hfront : "172.28.".toList.length = 7 := by decide
  refine List.take_of_length_le ?_
  unfold addressText
  rw [List.length_append, List.length_append, List.length_cons, hfront]
  omega

end Address

/-! ## Addresses that are held -/

section Held

variable (sys : System) (ws : Workspace) (name : Text)

/-- Another container has the address. -/
def Held (ip : Text) : Prop := ∃ c ∈ ws.containers, c.name ≠ name ∧ heldIp sys c = ip

/-- The others have all addresses. -/
def Exhausted : Prop := ∀ o, IsAddress o → Held sys ws name (addressText o)

/-- No other container has the address that the container comes upon: its own one if that is valid
and the scan does not find it elsewhere, else the first of the walk that the scan does not find. -/
def FindsFree (ip : Text) : Prop :=
  if validateStaticIp ip = true ∧ dsNetCheckIpCollision sys ws ip name = false then
    ¬Held sys ws name ip
  else
    ∃ k, ¬Held sys ws name (addressText (advance^[k] (hashAddress name))) ∧
      ∀ j < k, dsNetCheckIpCollision sys ws (addressText (advance^[j] (hashAddress name))) name =
        true

/-- What a start needs of an address, if `ip` is the one that was configured. -/
structure IsResolved (ip result : Text) : Prop where
  valid : validateStaticIp result = true
  apart : ¬Exhausted sys ws name → ¬Held sys ws name result
  kept : validateStaticIp ip = true → ¬Held sys ws name ip → result = ip

variable {sys ws name}

/-- What the scan finds is held by another container. -/
theorem held_of_collision {ip : Text} (h : dsNetCheckIpCollision sys ws ip name = true) :
    Held sys ws name ip := by
  obtain ⟨c, hc, hfound⟩ := List.any_eq_true.1 h
  simp only [Bool.and_eq_true, Bool.not_eq_true', beq_iff_eq, skipped, Bool.or_eq_false_iff,
    beq_eq_false_iff_ne] at hfound
  refine ⟨c, hc, ?_, hfound.2⟩
  intro hname
  exact hfound.1.1.2 (congrArg sanitize hname)

theorem collision_eq_false {ip : Text} (h : ¬Held sys ws name ip) :
    dsNetCheckIpCollision sys ws ip name = false := by
  rw [← Bool.not_eq_true]
  exact fun hcollision => h (held_of_collision hcollision)

theorem resolveIp_own {ip : Text} (hvalid : validateStaticIp ip = true)
    (hfree : dsNetCheckIpCollision sys ws ip name = false) : resolveIp sys ws name ip = ip := by
  have hne : ip.isEmpty = false := by
    cases ip with
    | nil => exact absurd hvalid (by decide)
    | cons c ip => rfl
  rw [resolveIp, hne, hvalid, hfree]
  rfl

theorem resolveIp_walk {ip : Text}
    (h : ¬(validateStaticIp ip = true ∧ dsNetCheckIpCollision sys ws ip name = false)) :
    resolveIp sys ws name ip = dsNetAutoAssignIp sys ws name := by
  rw [resolveIp, if_neg]
  simp only [Bool.and_eq_true, Bool.not_eq_true', not_and]
  intro hown hfree
  exact h ⟨hown.2, hfree⟩

/-- Either everything is held, or the walk ends at the first address that the scan does not find. -/
theorem dsNetAutoAssignIp_cases :
    (Exhausted sys ws name ∧ ∃ o, IsAddress o ∧ dsNetAutoAssignIp sys ws name = addressText o) ∨
      ∃ k, dsNetAutoAssignIp sys ws name = addressText (advance^[k] (hashAddress name)) ∧
        dsNetCheckIpCollision sys ws (addressText (advance^[k] (hashAddress name))) name = false ∧
        ∀ j < k, dsNetCheckIpCollision sys ws
          (addressText (advance^[j] (hashAddress name))) name = true := by
  have hstart := isAddress_hashAddress name
  rcases forall_or_first (fun k => dsNetCheckIpCollision sys ws
    (addressText (advance^[k] (hashAddress name))) name) (254 * 254) with
    hall | ⟨k, hk, hfree, hbefore⟩
  · refine Or.inl ⟨fun o ho => ?_, advance^[254 * 254] (hashAddress name),
      hstart.iterate_advance _, ?_⟩
    · obtain ⟨k, hk, rfl⟩ := exists_iterate_advance hstart ho
      exact held_of_collision (hall k hk)
    · rw [dsNetAutoAssignIp, firstFree_of_taken le_rfl hall, Nat.sub_self, firstFree,
        stored_addressText (hstart.iterate_advance _)]
  · refine Or.inr ⟨k, ?_, hfree, hbefore⟩
    rw [dsNetAutoAssignIp, firstFree_eq hk hbefore hfree,
      stored_addressText (hstart.iterate_advance k)]

theorem validateStaticIp_resolveIp (ip : Text) :
    validateStaticIp (resolveIp sys ws name ip) = true := by
  by_cases hown : validateStaticIp ip = true ∧ dsNetCheckIpCollision sys ws ip name = false
  · rw [resolveIp_own hown.1 hown.2]
    exact hown.1
  · rw [resolveIp_walk hown]
    rcases dsNetAutoAssignIp_cases with ⟨-, o, ho, heq⟩ | ⟨k, heq, -, -⟩
    · rw [heq]
      exact validateStaticIp_addressText ho
    · rw [heq]
      exact validateStaticIp_addressText ((isAddress_hashAddress name).iterate_advance k)

theorem apart_iff (ip : Text) :
    (¬Exhausted sys ws name → ¬Held sys ws name (resolveIp sys ws name ip)) ↔
      Exhausted sys ws name ∨ FindsFree sys ws name ip := by
  unfold FindsFree
  by_cases hown : validateStaticIp ip = true ∧ dsNetCheckIpCollision sys ws ip name = false
  · rw [resolveIp_own hown.1 hown.2, if_pos hown]
    exact ⟨fun h => or_iff_not_imp_left.2 h, fun h => or_iff_not_imp_left.1 h⟩
  · rw [resolveIp_walk hown, if_neg hown]
    rcases dsNetAutoAssignIp_cases with ⟨hall, -⟩ | ⟨k, heq, hfree, hbefore⟩
    · exact iff_of_true (fun hno => absurd hall hno) (Or.inl hall)
    · rw [heq]
      constructor
      · intro h
        exact or_iff_not_imp_left.2 fun hno => ⟨k, h hno, hbefore⟩
      · intro h hno
        obtain ⟨k', hfree', hbefore'⟩ := h.resolve_left hno
        -- both are the first one that the scan does not find
        rcases lt_trichotomy k k' with hlt | rfl | hlt
        · rw [hbefore' k hlt] at hfree
          cases hfree
        · exact hfree'
        · exact absurd (held_of_collision (hbefore k' hlt)) hfree'

end Held

def dotted : Installed where
  name := ".web".toList
  valid := by decide
  config := "static_nat_ip=172.28.1.1\n".toList

def dottedWorkspace : Workspace := ⟨[dotted], List.nodup_singleton _⟩

def dottedStart : DsConfig :=
  (defaults.set (.text .name) "db".toList).set (.text .staticNatIp) "172.28.1.1".toList

end Droidspaces.StaticIp
