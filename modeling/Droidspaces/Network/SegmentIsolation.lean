import Droidspaces.Network.SegmentNames

/-!
# Isolation of gateway segments

Two delegated LANs are two segments if their bridges are.  A bridge that has no name of its own is
called after its LAN, cut to what fits into the name of an interface, next to the NAT bridge.
`isolated_iff` says when that keeps two LANs apart.
-/

namespace Droidspaces.Gateway

open Config

/-- What the kernel takes for the name of an interface. -/
structure IsIfname (name : Text) : Prop where
  ne_nil : name ≠ []
  length_lt : name.length < ifNameSize
  ne_dots : name ≠ ['.'] ∧ name ≠ ['.', '.']
  chars : ∀ c ∈ name, c ≠ '/' ∧ c ≠ ':' ∧ isSpace c = false

/-- A client of a gateway whose bridge is called after its LAN. -/
structure DerivesBridge (cfg : DsConfig) : Prop where
  mode : cfg.value .netMode = .gateway
  bridge : cfg.value (.text .gatewayBridge) = ([] : Text)
  net_length : (cfg.value (.text .gatewayNet) : Text).length ≤ 63
  net_chars : ∀ c ∈ (cfg.value (.text .gatewayNet) : Text), isIfaceChar c = true

/-- The bridges are two, neither is the NAT bridge, and both can be made. -/
structure Isolated (c d : DsConfig) : Prop where
  bridges_ne : gatewayBridgeName c ≠ gatewayBridgeName d
  ne_natBridge : gatewayBridgeName c ≠ natBridge ∧ gatewayBridgeName d ≠ natBridge
  isIfname : IsIfname (gatewayBridgeName c) ∧ IsIfname (gatewayBridgeName d)

theorem gatewayNet_ne_nil (cfg : DsConfig) : gatewayNet cfg ≠ [] := by
  unfold gatewayNet
  dsimp only
  split
  · decide
  · next hne => simpa using hne

namespace DerivesBridge

variable {cfg : DsConfig} (h : DerivesBridge cfg)
include h

theorem gatewayNet_chars : ∀ c ∈ gatewayNet cfg, isIfaceChar c = true := by
  intro c hc
  unfold gatewayNet at hc
  dsimp only at hc
  split at hc
  · have hlan : "lan".toList.all isIfaceChar = true := by decide
    exact List.all_eq_true.1 hlan c hc
  · exact h.net_chars c hc

/-- Nothing of the name of the LAN is dropped, but its tail is. -/
theorem gatewayBridgeName_eq : gatewayBridgeName cfg = "ds-".toList ++ (gatewayNet cfg).take 9 := by
  have hfilter : (gatewayNet cfg).filter isIfaceChar = gatewayNet cfg :=
    List.filter_eq_self.2 h.gatewayNet_chars
  have hne : ((gatewayNet cfg).take 9).isEmpty = false := by
    have hnet := gatewayNet_ne_nil cfg
    simp [hnet]
  unfold gatewayBridgeName cleanNet
  simp [h.bridge, hfilter, hne]

theorem isIfname_bridge : IsIfname (gatewayBridgeName cfg) := by
  rw [h.gatewayBridgeName_eq]
  have hhead : "ds-".toList = ['d', 's', '-'] := by decide
  rw [hhead]
  refine ⟨by simp, ?_, by simp, ?_⟩
  · have htake := List.length_take_le 9 (gatewayNet cfg)
    simp only [List.cons_append, List.nil_append, List.length_cons, ifNameSize]
    omega
  · intro c hc
    have hiface : isIfaceChar c = true := by
      rcases List.mem_append.1 hc with hc | hc
      · have hds : ['d', 's', '-'].all isIfaceChar = true := by decide
        exact List.all_eq_true.1 hds c hc
      · exact h.gatewayNet_chars c (List.mem_of_mem_take hc)
    refine ⟨?_, ?_, isSpace_of_isIfaceChar hiface⟩
    · rintro rfl
      exact absurd hiface (by decide)
    · rintro rfl
      exact absurd hiface (by decide)

/-- The NAT bridge is the bridge of a LAN of that name. -/
theorem gatewayBridgeName_eq_natBridge_iff :
    gatewayBridgeName cfg = natBridge ↔ gatewayNet cfg = "br0".toList := by
  have hnat : natBridge = "ds-".toList ++ "br0".toList := by decide
  have hbr : "br0".toList.length = 3 := by decide
  rw [h.gatewayBridgeName_eq, hnat, List.append_cancel_left_eq]
  constructor
  · intro htake
    have hlen := congrArg List.length htake
    rw [List.length_take, hbr] at hlen
    rwa [List.take_of_length_le (by omega)] at htake
  · intro heq
    rw [heq]
    decide

end DerivesBridge

/-- **LANs are apart exactly if they differ in what is left of their names, and none is called like
the NAT bridge.** -/
theorem isolated_iff {c d : DsConfig} (hc : DerivesBridge c) (hd : DerivesBridge d) :
    Isolated c d ↔ (gatewayNet c).take 9 ≠ (gatewayNet d).take 9 ∧
      gatewayNet c ≠ "br0".toList ∧ gatewayNet d ≠ "br0".toList := by
  have hbridges : gatewayBridgeName c ≠ gatewayBridgeName d ↔
      (gatewayNet c).take 9 ≠ (gatewayNet d).take 9 := by
    rw [hc.gatewayBridgeName_eq, hd.gatewayBridgeName_eq, ne_eq, List.append_cancel_left_eq]
  constructor
  · intro h
    exact ⟨hbridges.1 h.bridges_ne, fun hbr =>
      h.ne_natBridge.1 (hc.gatewayBridgeName_eq_natBridge_iff.2 hbr), fun hbr =>
      h.ne_natBridge.2 (hd.gatewayBridgeName_eq_natBridge_iff.2 hbr)⟩
  · rintro ⟨htake, hcnat, hdnat⟩
    exact ⟨hbridges.2 htake,
      ⟨fun hnat => hcnat (hc.gatewayBridgeName_eq_natBridge_iff.1 hnat),
        fun hnat => hdnat (hd.gatewayBridgeName_eq_natBridge_iff.1 hnat)⟩,
      hc.isIfname_bridge, hd.isIfname_bridge⟩

/-- A client on a LAN, without a bridge setting. -/
def lanClient (net : Text) : DsConfig :=
  (defaults.set .netMode .gateway).set (.text .gatewayNet) net

theorem derivesBridge_lanClient {net : Text} (hlen : net.length ≤ 63)
    (hchars : net.all isIfaceChar = true) : DerivesBridge (lanClient net) where
  mode := rfl
  bridge := rfl
  net_length := hlen
  net_chars := List.all_eq_true.1 hchars

theorem isolated_office : Isolated (lanClient "office".toList) (lanClient "guests".toList) :=
  (isolated_iff (derivesBridge_lanClient (by decide) (by decide))
    (derivesBridge_lanClient (by decide) (by decide))).2 (by decide)

/-- Two LANs share a bridge, and a third one has the NAT bridge. -/
theorem not_isolated_floors : DerivesBridge (lanClient "building-1".toList) ∧
    DerivesBridge (lanClient "building-2".toList) ∧ DerivesBridge (lanClient "br0".toList) ∧
    ¬ Isolated (lanClient "building-1".toList) (lanClient "building-2".toList) ∧
    ¬ Isolated (lanClient "building-1".toList) (lanClient "br0".toList) := by
  refine ⟨derivesBridge_lanClient (by decide) (by decide),
    derivesBridge_lanClient (by decide) (by decide),
    derivesBridge_lanClient (by decide) (by decide), fun h => ?_, fun h => ?_⟩
  · exact h.bridges_ne (by decide)
  · exact h.ne_natBridge.2 (by decide)

end Droidspaces.Gateway
