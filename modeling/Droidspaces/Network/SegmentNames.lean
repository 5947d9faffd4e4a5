import Droidspaces.Config.Recovery

/-!
# The names of a gateway segment

A client of a delegated gateway derives the names of its segment from its configuration alone.  The
two ends of the gateway's veth are named after a hash of gateway and LAN, the bridge is named after
the LAN or by the configuration.  A hash is all that is left of the key in the name of a veth
(`vethHost_eq_iff`).
-/

namespace Droidspaces.Gateway

open Config

/-- `ds_net_hash_string` -/
def dsNetHashString (s : Text) : UInt32 :=
  s.foldl (fun h c => ((h <<< 5) + h) ^^^ UInt32.ofNat (c.toNat % 256)) 5381

/-! ## The code -/

section Names

variable (cfg : DsConfig)

/-- The LAN, which has a name if it is not given one. -/
def gatewayNet : Text :=
  let net : Text := cfg.value (.text .gatewayNet)
  if net.isEmpty then "lan".toList else net

def gatewayHashKey : Text :=
  let gw : Text := cfg.value (.text .gatewayContainer)
  ((if gw.isEmpty then "gateway".toList else gw) ++ ':' :: gatewayNet cfg).take 383

end Names

/-- `%08x` -/
def hex8 (h : UInt32) : Text :=
  [7, 6, 5, 4, 3, 2, 1, 0].map fun i => Nat.digitChar (h.toNat / 16 ^ i % 16)

/-- `gateway_veth_names`: the end on the host, and the end in the gateway. -/
def gatewayVethNames (cfg : DsConfig) : Text × Text :=
  let h := dsNetHashString (gatewayHashKey cfg)
  ("ds-g".toList ++ hex8 h, "ds-h".toList ++ hex8 h)

/-- The end of the gateway's veth on the host. -/
def vethHost (cfg : DsConfig) : Text := (gatewayVethNames cfg).1

/-- What may stand in the name of an interface. -/
def isIfaceChar (c : Char) : Bool := c.isAlphanum || c == '_' || c == '-'

/-- What the name of a LAN leaves for the name of a bridge. -/
def cleanNet (net : Text) : Text :=
  let clean := (net.filter isIfaceChar).take 9
  if clean.isEmpty then "lan".toList else clean

def gatewayBridgeName (cfg : DsConfig) : Text :=
  let bridge : Text := cfg.value (.text .gatewayBridge)
  if bridge.isEmpty then "ds-".toList ++ cleanNet (gatewayNet cfg) else bridge.take 15

def gatewayLanIfname (cfg : DsConfig) : Text :=
  let ifname : Text := cfg.value (.text .gatewayLanIfname)
  if ifname.isEmpty then "eth1".toList else ifname

/-- `DS_NAT_BRIDGE` -/
def natBridge : Text := "ds-br0".toList

/-! ## Characters of names -/

/-- A character of an interface's name is a printable character of ASCII. -/
theorem toNat_of_isIfaceChar {c : Char} (h : isIfaceChar c = true) :
    32 < c.toNat ∧ c.toNat < 128 := by
  change (decide (c.val ≥ 'A'.val ∧ c.val ≤ 'Z'.val) || (c.val ≥ 'a'.val && c.val ≤ 'z'.val) ||
    (c.val ≥ '0'.val && c.val ≤ '9'.val) || c == '_' || c == '-') = true at h
  simp only [Bool.or_eq_true, Bool.and_eq_true, decide_eq_true_eq, beq_iff_eq, ge_iff_le,
    UInt32.le_iff_toNat_le] at h
  have hval : c.toNat = c.val.toNat := rfl
  rcases h with (((h | h) | h) | rfl) | rfl
  · have hfirst : 'A'.val.toNat = 65 := rfl
    have hlast : 'Z'.val.toNat = 90 := rfl
    omega
  · have hfirst : 'a'.val.toNat = 97 := rfl
    have hlast : 'z'.val.toNat = 122 := rfl
    omega
  · have hfirst : '0'.val.toNat = 48 := rfl
    have hlast : '9'.val.toNat = 57 := rfl
    omega
  · decide
  · decide

theorem toNat_lt_of_isIfaceChar {c : Char} (h : isIfaceChar c = true) : c.toNat < 128 :=
  (toNat_of_isIfaceChar h).2

theorem isSpace_of_isIfaceChar {c : Char} (h : isIfaceChar c = true) : isSpace c = false := by
  have hlow := (toNat_of_isIfaceChar h).1
  rw [← Bool.not_eq_true]
  intro hspace
  simp only [isSpace, Bool.or_eq_true, beq_iff_eq, Bool.and_eq_true, decide_eq_true_eq] at hspace
  rcases hspace with rfl | hspace
  · exact absurd hlow (by decide)
  · omega

/-! ## Hashes in names -/

theorem digitChar_inj {m n : ℕ} (hm : m < 16) (hn : n < 16)
    (h : Nat.digitChar m = Nat.digitChar n) : m = n := by
  have hall : ∀ i : Fin 16, ∀ j : Fin 16, Nat.digitChar i = Nat.digitChar j → i = j := by decide
  exact congrArg Fin.val (hall ⟨m, hm⟩ ⟨n, hn⟩ h)

theorem hex8_inj {g h : UInt32} (heq : hex8 g = hex8 h) : g = h := by
  simp only [hex8, List.map_cons, List.map_nil, List.cons.injEq, and_true] at heq
  have hdigit : ∀ {m n : ℕ}, Nat.digitChar (m % 16) = Nat.digitChar (n % 16) → m % 16 = n % 16 :=
    digitChar_inj (Nat.mod_lt _ (by decide)) (Nat.mod_lt _ (by decide))
  obtain ⟨h7, h6, h5, h4, h3, h2, h1, h0⟩ := heq
  have e7 := hdigit h7
  have e6 := hdigit h6
  have e5 := hdigit h5
  have e4 := hdigit h4
  have e3 := hdigit h3
  have e2 := hdigit h2
  have e1 := hdigit h1
  have e0 := hdigit h0
  have hg := g.toNat_lt
  have hh := h.toNat_lt
  refine UInt32.toNat_inj.1 ?_
  omega

theorem vethHost_eq_iff {c d : DsConfig} :
    vethHost c = vethHost d ↔
      dsNetHashString (gatewayHashKey c) = dsNetHashString (gatewayHashKey d) := by
  constructor
  · intro heq
    exact hex8_inj (List.append_cancel_left heq)
  · intro heq
    unfold vethHost gatewayVethNames
    rw [heq]

end Droidspaces.Gateway
