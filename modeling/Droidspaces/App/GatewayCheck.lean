import Droidspaces.App.ConfigContent
import Droidspaces.Config.Reload
import Droidspaces.Network.SegmentNames

/-!
# The gateway check of the app

`validateGatewayConfig` compares the gateway settings of a container with those of the others, with
the defaults of `network.c` written once more.  It compares bridges and interfaces, while the veth
of a segment is named after gateway and LAN.

`runtime_apart_iff` says when the segments of containers that were accepted one by one are apart in
the runtime.
-/

namespace Droidspaces.GatewayCheck

open ConfigContent Gateway
open Config (System DsConfig Key TextKey NetMode keyOf trim overlay accept zeroed IsTrimmed
  plainSystem)
open Uninstall (isSafeContainerName)

/-! ## The code -/

/-- `Char.isLetterOrDigit()`; other alphabets are up to the platform. -/
structure CharTable where
  isLetterOrDigit : Char → Bool
  ascii : ∀ c, c.toNat < 128 → isLetterOrDigit c = c.isAlphanum

def ifnameMax : ℕ := 15

/-- `String.length` counts the units of UTF-16. -/
def utf16Length (t : Text) : ℕ := (t.map fun c => if c.toNat < 0x10000 then 1 else 2).sum

/-- `IFNAME_REGEX` -/
def matchesIfname (t : Text) : Bool := !t.isEmpty && t.all isIfaceChar

def ifBlank (t default : Text) : Text := if isNotBlank t then t else default

def effGatewayNet (net : Text) : Text := ifBlank net "lan".toList

def effGatewayIface (iface : Text) : Text := ifBlank iface "eth1".toList

def effGatewayBridge (table : CharTable) (net bridge : Text) : Text :=
  if isNotBlank bridge then bridge
  else
    let clean := ((effGatewayNet net).filter fun c =>
      table.isLetterOrDigit c || c == '_' || c == '-').take 9
    "ds-".toList ++ if clean.isEmpty then "lan".toList else clean

def nameCharsError : Text := "Use only letters, digits, _ or -".toList

def ifaceLikeError (value : Text) : Option Text :=
  if !isNotBlank value then none
  else if ifnameMax < utf16Length value then some "Too long, max 15 characters".toList
  else if !matchesIfname value then some nameCharsError
  else none

def netError (net : Text) : Option Text :=
  if isNotBlank net && !matchesIfname net then some nameCharsError else none

def containerError (selfName gatewayContainer : Text) (installed : List ContainerInfo) :
    Option Text :=
  if !isNotBlank gatewayContainer then some "Select a gateway container".toList
  else if gatewayContainer == selfName then some "A container cannot be its own gateway".toList
  else if !(installed.map ContainerInfo.name).contains gatewayContainer then
    some "Gateway container is not installed".toList
  else none

structure GatewayErrors where
  container : Option Text := none
  net : Option Text := none
  iface : Option Text := none
  bridge : Option Text := none

def GatewayErrors.isValid (e : GatewayErrors) : Bool :=
  e.container.isNone && e.net.isNone && e.iface.isNone && e.bridge.isNone

section Validate

variable (table : CharTable) (selfName gatewayContainer net iface bridge : Text)

/-- Another router, or another segment of the same one, on the same bridge. -/
def bridgeTaken (o : ContainerInfo) : Bool :=
  effGatewayBridge table o.gatewayNet o.gatewayBridge == effGatewayBridge table net bridge &&
    (o.gatewayContainer != gatewayContainer || effGatewayNet o.gatewayNet != effGatewayNet net)

/-- The same interface for another segment of the same gateway. -/
def ifaceTaken (o : ContainerInfo) : Bool :=
  o.gatewayContainer == gatewayContainer &&
    effGatewayBridge table o.gatewayNet o.gatewayBridge != effGatewayBridge table net bridge &&
    effGatewayIface o.gatewayIface == effGatewayIface iface

/-- A container that the settings are compared with. -/
def compared (o : ContainerInfo) : Bool :=
  !(o.name == selfName || o.netMode != "gateway".toList || !isNotBlank o.gatewayContainer)

/-- The first collision is the one that is reported. -/
def collisionErrors : List ContainerInfo → GatewayErrors
  | [] => {}
  | o :: others =>
    if !compared selfName o then collisionErrors others
    else if bridgeTaken table gatewayContainer net bridge o then
      { bridge := some ("Bridge ".toList ++ effGatewayBridge table net bridge ++
          " is already used by '".toList ++ o.name ++ "'. Use a different LAN name.".toList) }
    else if ifaceTaken table gatewayContainer net iface bridge o then
      { iface := some ("Interface ".toList ++ effGatewayIface iface ++
          " is already used by another segment ('".toList ++ o.name ++
          "'). Use a different one.".toList) }
    else collisionErrors others

def validateGatewayConfig (installed : List ContainerInfo) : GatewayErrors :=
  let errors : GatewayErrors := {
    container := containerError selfName gatewayContainer installed
    net := netError net
    iface := ifaceLikeError iface
    bridge := ifaceLikeError bridge }
  if errors.isValid then
    collisionErrors table selfName gatewayContainer net iface bridge installed
  else errors

end Validate

/-- The settings of a container are accepted. -/
def Accepted (table : CharTable) (info : ContainerInfo) (installed : List ContainerInfo) : Prop :=
  (validateGatewayConfig table info.name info.gatewayContainer info.gatewayNet info.gatewayIface
    info.gatewayBridge installed).isValid = true

/-- What the backend makes of the lines of a container. -/
def runtimeConfig (sys : System) (info : ContainerInfo) : DsConfig where
  value k := overlay sys k
    (info.intended.filterMap fun e => if keyOf e.1 = some k then some (trim e.2) else none)
    (zeroed.value k)
  unknown := []

/-! ## What is accepted -/

section Accepted

variable {table : CharTable} {info : ContainerInfo} {installed : List ContainerInfo}

/-- A name for an interface, if there is one. -/
def IsIfname (value : Text) : Prop :=
  isNotBlank value = true → matchesIfname value = true ∧ value.length ≤ ifnameMax

theorem length_le_utf16Length (t : Text) : t.length ≤ utf16Length t := by
  induction t with
  | nil => exact Nat.le_refl 0
  | cons c t ih =>
    have hunit : 1 ≤ if c.toNat < 0x10000 then 1 else 2 := by
      split <;> omega
    rw [List.length_cons, utf16Length, List.map_cons, List.sum_cons]
    unfold utf16Length at ih
    omega

theorem isIfname_of_error {value : Text} (h : ifaceLikeError value = none) : IsIfname value := by
  intro hvalue
  rw [ifaceLikeError, hvalue] at h
  by_cases hlen : ifnameMax < utf16Length value
  · simp [hlen] at h
  · cases hmatch : matchesIfname value with
    | true => exact ⟨rfl, (length_le_utf16Length value).trans (not_lt.1 hlen)⟩
    | false => simp [hlen, hmatch] at h

/-- The two containers are not in each other's way. -/
structure Compatible (table : CharTable) (a b : ContainerInfo) : Prop where
  bridge : effGatewayBridge table a.gatewayNet a.gatewayBridge =
    effGatewayBridge table b.gatewayNet b.gatewayBridge →
      a.gatewayContainer = b.gatewayContainer ∧
        effGatewayNet a.gatewayNet = effGatewayNet b.gatewayNet
  iface : a.gatewayContainer = b.gatewayContainer →
    effGatewayBridge table a.gatewayNet a.gatewayBridge ≠
      effGatewayBridge table b.gatewayNet b.gatewayBridge →
        effGatewayIface a.gatewayIface ≠ effGatewayIface b.gatewayIface

theorem Compatible.symm {a b : ContainerInfo} (h : Compatible table a b) : Compatible table b a where
  bridge heq := ⟨(h.bridge heq.symm).1.symm, (h.bridge heq.symm).2.symm⟩
  iface heq hne := (h.iface heq.symm hne.symm).symm

theorem compatible_of_collisionErrors
    (h : (collisionErrors table info.name info.gatewayContainer info.gatewayNet info.gatewayIface
      info.gatewayBridge installed).isValid = true) :
    ∀ o ∈ installed, compared info.name o = true → Compatible table o info := by
  induction installed with
  | nil => exact fun o ho => absurd ho List.not_mem_nil
  | cons o others ih =>
    unfold collisionErrors at h
    intro o' ho' hcompared
    cases hskip : compared info.name o with
    | false =>
      simp only [hskip, Bool.not_false, if_true] at h
      rcases List.mem_cons.1 ho' with rfl | ho'
      · rw [hskip] at hcompared
        cases hcompared
      · exact ih h o' ho' hcompared
    | true =>
      simp only [hskip, Bool.not_true, Bool.false_eq_true, if_false] at h
      cases hbridge : bridgeTaken table info.gatewayContainer info.gatewayNet info.gatewayBridge o with
      | true => simp [hbridge, GatewayErrors.isValid] at h
      | false =>
        cases hiface : ifaceTaken table info.gatewayContainer info.gatewayNet info.gatewayIface
            info.gatewayBridge o with
        | true => simp [hbridge, hiface, GatewayErrors.isValid] at h
        | false =>
          simp only [hbridge, hiface, Bool.false_eq_true, if_false] at h
          rcases List.mem_cons.1 ho' with rfl | ho'
          · constructor
            · intro heq
              simpa [bridgeTaken, heq] using hbridge
            · intro heq hne heq'
              simp [ifaceTaken, heq, hne, heq'] at hiface
          · exact ih h o' ho' hcompared

/-- What an accepted container is known to be. -/
structure Checked (table : CharTable) (info : ContainerInfo) (installed : List ContainerInfo) :
    Prop where
  gateway : isNotBlank info.gatewayContainer = true
  isInstalled : ∃ o ∈ installed, o.name = info.gatewayContainer
  net : isNotBlank info.gatewayNet = true → matchesIfname info.gatewayNet = true
  iface : IsIfname info.gatewayIface
  bridge : IsIfname info.gatewayBridge
  compatible : ∀ o ∈ installed, compared info.name o = true → Compatible table o info

theorem isInstalled_of_error {name gatewayContainer : Text}
    (h : containerError name gatewayContainer installed = none) :
    isNotBlank gatewayContainer = true ∧ ∃ o ∈ installed, o.name = gatewayContainer := by
  unfold containerError at h
  split at h
  · cases h
  · next hblank =>
    split at h
    · cases h
    · split at h
      · cases h
      · next hmissing => exact ⟨by simpa using hblank, by simpa using hmissing⟩

theorem matchesIfname_of_error {net : Text} (h : netError net = none)
    (hnet : isNotBlank net = true) : matchesIfname net = true := by
  by_contra hmatch
  simp [netError, hnet, hmatch] at h

theorem Accepted.checked (h : Accepted table info installed) : Checked table info installed := by
  unfold Accepted validateGatewayConfig at h
  dsimp only at h
  split at h
  · next hbasics =>
    simp only [GatewayErrors.isValid, Bool.and_eq_true, Option.isNone_iff_eq_none] at hbasics
    obtain ⟨⟨⟨hcontainer, hnet⟩, hiface⟩, hbridge⟩ := hbasics
    obtain ⟨hgateway, hinstalled⟩ := isInstalled_of_error hcontainer
    exact ⟨hgateway, hinstalled, matchesIfname_of_error hnet, isIfname_of_error hiface,
      isIfname_of_error hbridge, compatible_of_collisionErrors h⟩
  · next hbasics => exact absurd h hbasics

end Accepted

/-! ## What the runtime derives -/

section Runtime

variable (sys : System) {info : ContainerInfo} {k : Key}

/-- The keys of the rows, as the loader knows them. -/
def rowKeys : List (Option Key) := [
  some (.text .name), some (.text .hostname), some .rootfs, some .netMode,
  some (.flag .disableIpv6), some (.flag .androidStorage), some (.flag .hwAccess),
  some (.flag .gpuMode), some (.flag .termuxX11), some (.text .tx11ExtraFlags),
  some (.flag .wayland), some (.text .waylandExtraFlags), some (.flag .virgl),
  some (.text .virglExtraFlags), some (.flag .pulseaudio), some (.flag .selinuxPermissive),
  some (.flag .sandboxingAllowed), some (.flag .volatileMode), some .binds, some .upstreamIfaces,
  some .portForwards, some (.text .dnsServers), none, none, some (.flag .forceCgroupv1),
  some (.text .staticNatIp), some (.text .gatewayContainer), some (.text .gatewayNet),
  some (.text .gatewayLanIfname), some (.text .gatewayBridge), none, none, some (.text .envFile),
  some .privileged, some (.text .customInit), some (.text .uuid)]

theorem keyOf_rows (info : ContainerInfo) :
    info.rows.map (fun row => keyOf row.key.toList) = rowKeys := by
  have hkeys : keys.map (fun key => keyOf key.toList) = rowKeys := by decide +kernel
  rw [← hkeys, show keys = info.rows.map Row.key from rfl, List.map_map]
  rfl

/-- The value of a key goes by its own row. -/
theorem runtimeConfig_value {n : ℕ} {row : Row} (hrow : info.rows[n]? = some row)
    (hkey : rowKeys[n]? = some (some k))
    (hothers : some k ∉ rowKeys.take n ++ rowKeys.drop (n + 1)) :
    (runtimeConfig sys info).value k =
      overlay sys k (if row.written then [trim (utf8 row.value)] else []) (zeroed.value k) := by
  have hnone : ∀ rows : List Row, some k ∉ rows.map (fun row => keyOf row.key.toList) →
      ((rows.filter Row.written).map fun row => (row.key.toList, utf8 row.value)).filterMap
        (fun e : Text × Text => if keyOf e.1 = some k then some (trim e.2) else none) = [] := by
    intro rows hrows
    rw [List.filterMap_eq_nil_iff]
    intro e he
    obtain ⟨row, hrow, rfl⟩ := List.mem_map.1 he
    refine if_neg fun heq => hrows ?_
    exact List.mem_map.2 ⟨row, (List.mem_filter.1 hrow).1, heq⟩
  have hbefore := hnone (info.rows.take n) (by
    rw [List.map_take, keyOf_rows]
    exact fun hmem => hothers (List.mem_append_left _ hmem))
  have hafter := hnone (info.rows.drop (n + 1)) (by
    rw [List.map_drop, keyOf_rows]
    exact fun hmem => hothers (List.mem_append_right _ hmem))
  have hrowKey : keyOf row.key.toList = some k := by
    have hindex := congrArg (·[n]?) (keyOf_rows info)
    simp only [List.getElem?_map, hrow, hkey, Option.map_some] at hindex
    exact Option.some.inj hindex
  have hrows : info.rows = info.rows.take n ++ row :: info.rows.drop (n + 1) := by
    obtain ⟨hlt, rfl⟩ := List.getElem?_eq_some_iff.1 hrow
    rw [← List.drop_eq_getElem_cons hlt, List.take_append_drop]
  show overlay sys k _ _ = _
  refine congrArg (overlay sys k · (zeroed.value k)) ?_
  rw [ContainerInfo.intended, ContainerInfo.lines, List.map_map, hrows, List.filter_append,
    List.map_append, List.filterMap_append, List.filter_cons]
  cases hwritten : row.written with
  | false =>
    simp only [Bool.false_eq_true, if_false]
    exact congrArg₂ (· ++ ·) hbefore hafter
  | true =>
    simp only [if_true, List.map_cons, List.filterMap_cons, Function.comp_apply, hrowKey]
    exact congrArg₂ (· ++ trim (utf8 row.value) :: ·) hbefore hafter

theorem netMode_runtimeConfig :
    (runtimeConfig sys info).value .netMode = Config.parseNetMode (trim (utf8 info.netMode)) :=
  have hrow : info.rows[3]? = some ⟨"net_mode", true, info.netMode⟩ := rfl
  runtimeConfig_value sys hrow rfl (by decide)

/-- A row that is written for a gateway if its text is not blank. -/
theorem gatewayText_runtimeConfig (hmode : info.netMode = "gateway".toList) {n : ℕ}
    {key : String} {val : Text} {t : TextKey}
    (hrow : info.rows[n]? =
      some ⟨key, info.netMode == "gateway".toList && isNotBlank val, val⟩)
    (hkey : rowKeys[n]? = some (some (.text t)))
    (hothers : some (.text t) ∉ rowKeys.take n ++ rowKeys.drop (n + 1)) :
    (runtimeConfig sys info).value (.text t) =
      overlay sys (.text t) (if isNotBlank val then [trim (utf8 val)] else []) [] := by
  rw [runtimeConfig_value sys hrow hkey hothers]
  simp [hmode]
  rfl

end Runtime

/-! ## Names that stay as they are -/

section Ifname

variable {t : Text} (h : matchesIfname t = true)
include h

theorem ne_nil_of_matchesIfname : t ≠ [] := by
  rintro rfl
  cases h

theorem isIfaceChar_of_matchesIfname : ∀ c ∈ t, isIfaceChar c = true := by
  simp only [matchesIfname, Bool.and_eq_true, List.all_eq_true] at h
  exact h.2

theorem trim_utf8_of_matchesIfname : trim (utf8 t) = t := by
  have hchars := isIfaceChar_of_matchesIfname h
  rw [utf8_of_ascii fun c hc => toNat_lt_of_isIfaceChar (hchars c hc)]
  exact Config.isTrimmed_of_forall fun c hc => isSpace_of_isIfaceChar (hchars c hc)

end Ifname

/-! ## The LAN of an accepted container -/

section Lan

variable {table : CharTable} {info : ContainerInfo} {installed : List ContainerInfo}
  (hchecked : Checked table info installed)
include hchecked

theorem isIfaceChar_effGatewayNet : ∀ c ∈ effGatewayNet info.gatewayNet, isIfaceChar c = true := by
  unfold effGatewayNet ifBlank
  cases hnet : isNotBlank info.gatewayNet with
  | false =>
    have hall : "lan".toList.all isIfaceChar = true := by decide
    exact List.all_eq_true.1 hall
  | true => exact isIfaceChar_of_matchesIfname (hchecked.net hnet)

theorem effGatewayNet_ne_nil : effGatewayNet info.gatewayNet ≠ [] := by
  unfold effGatewayNet ifBlank
  cases hnet : isNotBlank info.gatewayNet with
  | false => exact List.cons_ne_nil _ _
  | true => exact ne_nil_of_matchesIfname (hchecked.net hnet)

/-- Nothing has to be left out of the name of the LAN. -/
theorem effGatewayBridge_of_blank (hblank : isNotBlank info.gatewayBridge = false) :
    effGatewayBridge table info.gatewayNet info.gatewayBridge =
      "ds-".toList ++ (effGatewayNet info.gatewayNet).take 9 := by
  have hclean : (effGatewayNet info.gatewayNet).filter (fun c =>
      table.isLetterOrDigit c || c == '_' || c == '-') = effGatewayNet info.gatewayNet := by
    refine List.filter_eq_self.2 fun c hc => ?_
    have hiface := isIfaceChar_effGatewayNet hchecked c hc
    rw [table.ascii c (toNat_lt_of_isIfaceChar hiface)]
    exact hiface
  have hne : ((effGatewayNet info.gatewayNet).take 9).isEmpty = false := by
    obtain ⟨c, cs, hcs⟩ := List.exists_cons_of_ne_nil (effGatewayNet_ne_nil hchecked)
    rw [hcs]
    rfl
  unfold effGatewayBridge
  rw [hblank, if_neg (by simp), hclean]
  dsimp only
  rw [hne]
  rfl

end Lan

/-! ## The segment of an accepted container -/

section Segment

variable {sys : System} {table : CharTable} {info : ContainerInfo}
  {installed : List ContainerInfo} (hmode : info.netMode = "gateway".toList)
  (hchecked : Checked table info installed)
include hmode hchecked

theorem gatewayNet_runtimeConfig :
    gatewayNet (runtimeConfig sys info) = (effGatewayNet info.gatewayNet).take 63 := by
  have hvalue := gatewayText_runtimeConfig sys (t := .gatewayNet) hmode (n := 27) rfl rfl
    (by decide)
  unfold gatewayNet effGatewayNet ifBlank
  rw [hvalue]
  cases hblank : isNotBlank info.gatewayNet with
  | false => rfl
  | true =>
    have hmatch := hchecked.net hblank
    have hne : (info.gatewayNet.take 63).isEmpty = false := by
      obtain ⟨c, cs, hcs⟩ := List.exists_cons_of_ne_nil (ne_nil_of_matchesIfname hmatch)
      rw [hcs]
      rfl
    simp only [if_true, trim_utf8_of_matchesIfname hmatch]
    show (if (info.gatewayNet.take 63).isEmpty then _ else info.gatewayNet.take 63) = _
    rw [hne]
    rfl

theorem gatewayLanIfname_runtimeConfig :
    gatewayLanIfname (runtimeConfig sys info) = effGatewayIface info.gatewayIface := by
  have hvalue := gatewayText_runtimeConfig sys (t := .gatewayLanIfname) hmode (n := 28)
    rfl rfl (by decide)
  unfold gatewayLanIfname effGatewayIface ifBlank
  rw [hvalue]
  cases hblank : isNotBlank info.gatewayIface with
  | false => rfl
  | true =>
    obtain ⟨hmatch, hlen⟩ := hchecked.iface hblank
    have hshort : info.gatewayIface.length ≤ 15 := hlen
    have haccepts : TextKey.gatewayLanIfname.accepts sys info.gatewayIface = true :=
      decide_eq_true (Nat.lt_succ_of_le hshort)
    have hstored : TextKey.gatewayLanIfname.stored info.gatewayIface = info.gatewayIface :=
      List.take_of_length_le hshort
    have hne : info.gatewayIface.isEmpty = false := by
      simpa using ne_nil_of_matchesIfname hmatch
    simp only [if_true, trim_utf8_of_matchesIfname hmatch, overlay, List.foldl_cons,
      List.foldl_nil, accept, haccepts, hstored, hne, Bool.false_eq_true, if_false]

theorem gatewayBridgeName_runtimeConfig :
    gatewayBridgeName (runtimeConfig sys info) =
      effGatewayBridge table info.gatewayNet info.gatewayBridge := by
  have hvalue := gatewayText_runtimeConfig sys (t := .gatewayBridge) hmode (n := 29)
    rfl rfl (by decide)
  cases hblank : isNotBlank info.gatewayBridge with
  | false =>
    have hruntime : ((effGatewayNet info.gatewayNet).take 63).filter isIfaceChar =
        (effGatewayNet info.gatewayNet).take 63 :=
      List.filter_eq_self.2 fun c hc =>
        isIfaceChar_effGatewayNet hchecked c (List.mem_of_mem_take hc)
    have hne : ((effGatewayNet info.gatewayNet).take 9).isEmpty = false := by
      obtain ⟨c, cs, hcs⟩ := List.exists_cons_of_ne_nil (effGatewayNet_ne_nil hchecked)
      rw [hcs]
      rfl
    rw [effGatewayBridge_of_blank hchecked hblank, gatewayBridgeName, hvalue, hblank]
    show "ds-".toList ++ cleanNet (gatewayNet (runtimeConfig sys info)) = _
    rw [gatewayNet_runtimeConfig hmode hchecked, cleanNet, hruntime, List.take_take]
    show "ds-".toList ++ (if ((effGatewayNet info.gatewayNet).take 9).isEmpty then _ else _) = _
    rw [hne]
    rfl
  | true =>
    obtain ⟨hmatch, hlen⟩ := hchecked.bridge hblank
    have hshort : info.gatewayBridge.length ≤ 15 := hlen
    have haccepts : TextKey.gatewayBridge.accepts sys info.gatewayBridge = true :=
      decide_eq_true (Nat.lt_succ_of_le hshort)
    have hstored : TextKey.gatewayBridge.stored info.gatewayBridge = info.gatewayBridge :=
      List.take_of_length_le hshort
    have hne : info.gatewayBridge.isEmpty = false := by
      simpa using ne_nil_of_matchesIfname hmatch
    unfold gatewayBridgeName effGatewayBridge
    rw [hvalue, hblank]
    simp only [if_true, trim_utf8_of_matchesIfname hmatch, overlay, List.foldl_cons,
      List.foldl_nil, accept, haccepts, hstored, hne, Bool.false_eq_true, if_false,
      List.take_of_length_le hshort]

end Segment

/-! ## The runtime's clients -/

/-- A client of a gateway, as the runtime sees it. -/
def IsClient (cfg : DsConfig) : Prop :=
  cfg.value .netMode = .gateway ∧ cfg.value (.text .gatewayContainer) ≠ []

/-- A LAN of a gateway. -/
def segment (cfg : DsConfig) : Text × Text :=
  (cfg.value (.text .gatewayContainer), gatewayNet cfg)

/-- The segments of the clients are kept apart. -/
structure Apart (cfgs : List DsConfig) : Prop where
  bridge : ∀ c ∈ cfgs, ∀ d ∈ cfgs, IsClient c → IsClient d → segment c ≠ segment d →
    gatewayBridgeName c ≠ gatewayBridgeName d
  ifname : ∀ c ∈ cfgs, ∀ d ∈ cfgs, IsClient c → IsClient d → segment c ≠ segment d →
    c.value (.text .gatewayContainer) = d.value (.text .gatewayContainer) →
      gatewayLanIfname c ≠ gatewayLanIfname d
  nat : ∀ c ∈ cfgs, IsClient c → gatewayBridgeName c ≠ natBridge
  veth : ∀ c ∈ cfgs, ∀ d ∈ cfgs, IsClient c → IsClient d → vethHost c = vethHost d →
    gatewayBridgeName c = gatewayBridgeName d

/-- Containers that were accepted one by one. -/
structure Fleet (table : CharTable) where
  containers : List ContainerInfo
  nodup : (containers.map ContainerInfo.name).Nodup
  /-- `parseConfig` drops the others, and it trims what it reads. -/
  name_ok : ∀ o ∈ containers, isSafeContainerName o.name = true ∧ IsTrimmed o.name
  accepted : ∀ o ∈ containers, o.netMode = "gateway".toList → Accepted table o containers

/-- The containers after one is installed, or edited. -/
def Fleet.save {table : CharTable} (fleet : Fleet table) (info : ContainerInfo) :
    List ContainerInfo :=
  info :: fleet.containers.filter fun o => o.name != info.name

/-- The backend takes the settings of the container. -/
def Usable (info : ContainerInfo) : Prop :=
  info.netMode = "gateway".toList ∧ Config.validateContainerName info.gatewayContainer = true

/-- The runtime does not look further into the name of a LAN. -/
def lanOf (info : ContainerInfo) : Text := (effGatewayNet info.gatewayNet).take 63

def SameSegment (a b : ContainerInfo) : Prop :=
  a.gatewayContainer = b.gatewayContainer ∧ lanOf a = lanOf b

/-- What the check does not see to. -/
structure Separate (table : CharTable) (infos : List ContainerInfo) : Prop where
  nat : ∀ a ∈ infos, Usable a → a.gatewayBridge ≠ natBridge ∧
    (isNotBlank a.gatewayBridge = false → a.gatewayNet ≠ "br0".toList)
  bridge : ∀ a ∈ infos, ∀ b ∈ infos, Usable a → Usable b → SameSegment a b →
    effGatewayBridge table a.gatewayNet a.gatewayBridge =
      effGatewayBridge table b.gatewayNet b.gatewayBridge
  hash : ∀ a ∈ infos, ∀ b ∈ infos, Usable a → Usable b → ¬SameSegment a b →
    dsNetHashString (a.gatewayContainer ++ ':' :: lanOf a) ≠
      dsNetHashString (b.gatewayContainer ++ ':' :: lanOf b)

section Clients

variable {sys : System} {table : CharTable} {fleet : Fleet table} {info a b : ContainerInfo}

theorem toNat_lt_of_isSafeContainerName {name : Text} (h : isSafeContainerName name = true) :
    ∀ c ∈ name, c.toNat < 128 := by
  intro c hc
  simp only [isSafeContainerName, Bool.and_eq_true, List.all_eq_true, Bool.or_eq_true,
    beq_iff_eq] at h
  rcases h.2 c hc with (((halnum | rfl) | hspace) | rfl) | rfl
  · exact toNat_lt_of_isIfaceChar (by simp [isIfaceChar, halnum])
  · decide
  · simp only [isSpace, Bool.or_eq_true, beq_iff_eq, Bool.and_eq_true, decide_eq_true_eq] at hspace
    rcases hspace with rfl | hspace
    · decide
    · omega
  · decide
  · decide

/-- The name of an installed gateway is read as it was written. -/
theorem trim_utf8_gatewayContainer (hchecked : Checked table info fleet.containers) :
    trim (utf8 info.gatewayContainer) = info.gatewayContainer := by
  obtain ⟨o, ho, hname⟩ := hchecked.isInstalled
  obtain ⟨hsafe, htrimmed⟩ := fleet.name_ok o ho
  rw [hname] at hsafe htrimmed
  rw [utf8_of_ascii (toNat_lt_of_isSafeContainerName hsafe)]
  exact htrimmed

theorem gatewayContainer_runtimeConfig (hmode : info.netMode = "gateway".toList)
    (hchecked : Checked table info fleet.containers) :
    (runtimeConfig sys info).value (.text .gatewayContainer) =
      if Config.validateContainerName info.gatewayContainer = true then info.gatewayContainer
      else [] := by
  rw [gatewayText_runtimeConfig sys hmode (n := 26) rfl rfl (by decide), hchecked.gateway, if_pos rfl,
    trim_utf8_gatewayContainer hchecked]
  show (if Config.validateContainerName info.gatewayContainer = true then
    TextKey.gatewayContainer.stored info.gatewayContainer else []) = _
  split
  · next hvalid =>
    have hlen : info.gatewayContainer.length < 256 := by
      simp only [Config.validateContainerName, Bool.and_eq_true, decide_eq_true_eq] at hvalid
      exact hvalid.1.2
    exact List.take_of_length_le (Nat.le_of_lt_succ hlen)
  · rfl

theorem Usable.gatewayContainer_eq (h : Usable info)
    (hchecked : Checked table info fleet.containers) :
    (runtimeConfig sys info).value (.text .gatewayContainer) = info.gatewayContainer := by
  rw [gatewayContainer_runtimeConfig h.1 hchecked, if_pos h.2]

theorem isClient_runtimeConfig_iff
    (hchecked : info.netMode = "gateway".toList → Checked table info fleet.containers) :
    IsClient (runtimeConfig sys info) ↔ Usable info := by
  by_cases hmode : info.netMode = "gateway".toList
  · have hgateway : (runtimeConfig sys info).value .netMode = .gateway := by
      rw [netMode_runtimeConfig sys, hmode]
      decide +kernel
    rw [IsClient, gatewayContainer_runtimeConfig hmode (hchecked hmode), Usable]
    constructor
    · rintro ⟨-, hne⟩
      refine ⟨hmode, ?_⟩
      by_contra hno
      exact hne (if_neg hno)
    · rintro ⟨-, hvalid⟩
      refine ⟨hgateway, ?_⟩
      rw [if_pos hvalid]
      intro hnil
      rw [hnil] at hvalid
      cases hvalid
  · have hrow := runtimeConfig_value sys (n := 26) (k := .text .gatewayContainer)
      (show info.rows[26]? = some _ from rfl) rfl (by decide)
    have hskip : (info.netMode == "gateway".toList) = false := beq_eq_false_iff_ne.2 hmode
    refine iff_of_false (fun h => h.2 ?_) fun h => hmode h.1
    dsimp only at hrow
    rw [hrow, hskip]
    rfl

theorem Usable.segment_eq (h : Usable info) (hchecked : Checked table info fleet.containers) :
    segment (runtimeConfig sys info) = (info.gatewayContainer, lanOf info) :=
  Prod.ext (h.gatewayContainer_eq hchecked) (gatewayNet_runtimeConfig h.1 hchecked)

theorem Usable.gatewayHashKey_eq (h : Usable info)
    (hchecked : Checked table info fleet.containers) :
    gatewayHashKey (runtimeConfig sys info) = info.gatewayContainer ++ ':' :: lanOf info := by
  have hlen : info.gatewayContainer.length < 256 ∧ info.gatewayContainer.isEmpty = false := by
    have hvalid := h.2
    simp only [Config.validateContainerName, Bool.and_eq_true, decide_eq_true_eq,
      Bool.not_eq_true'] at hvalid
    exact ⟨hvalid.1.2, hvalid.1.1.1.1⟩
  have hlan : (lanOf info).length ≤ 63 := List.length_take_le 63 _
  unfold gatewayHashKey
  rw [h.gatewayContainer_eq hchecked, gatewayNet_runtimeConfig h.1 hchecked]
  dsimp only
  rw [hlen.2]
  refine List.take_of_length_le ?_
  rw [List.length_append, List.length_cons]
  show info.gatewayContainer.length + ((lanOf info).length + 1) ≤ 383
  omega

/-- The settings that give a client the bridge of the NAT network. -/
theorem effGatewayBridge_ne_natBridge_iff (hchecked : Checked table info fleet.containers) :
    effGatewayBridge table info.gatewayNet info.gatewayBridge ≠ natBridge ↔
      info.gatewayBridge ≠ natBridge ∧
        (isNotBlank info.gatewayBridge = false → info.gatewayNet ≠ "br0".toList) := by
  cases hblank : isNotBlank info.gatewayBridge with
  | true => simp [effGatewayBridge, hblank]
  | false =>
    have hbridge : info.gatewayBridge ≠ natBridge := by
      intro heq
      rw [heq] at hblank
      exact absurd hblank (by decide)
    have hlan : (effGatewayNet info.gatewayNet).take 9 = "br0".toList ↔
        info.gatewayNet = "br0".toList := by
      constructor
      · intro htake
        have hlen : ((effGatewayNet info.gatewayNet).take 9).length = 3 := by
          rw [htake]
          rfl
        rw [List.take_of_length_le (by rw [List.length_take] at hlen; omega)] at htake
        unfold effGatewayNet ifBlank at htake
        split at htake
        · exact htake
        · exact absurd htake (by decide)
      · intro heq
        rw [heq]
        decide
    have hnat : natBridge = "ds-".toList ++ "br0".toList := by decide
    rw [effGatewayBridge_of_blank hchecked hblank, hnat, ne_eq, List.append_cancel_left_eq, hlan,
      ← hnat]
    simp [hbridge]

end Clients

/-! ## The segments of a fleet -/

section Fleet

variable {sys : System} {table : CharTable} {fleet : Fleet table} {info a b : ContainerInfo}

theorem checked_of_mem_save (hinfo : Accepted table info fleet.containers)
    (ha : a ∈ fleet.save info) (hmode : a.netMode = "gateway".toList) :
    Checked table a fleet.containers := by
  rcases List.mem_cons.1 ha with rfl | ha
  · exact hinfo.checked
  · exact (fleet.accepted a (List.mem_filter.1 ha).1 hmode).checked

theorem compared_of_checked {name : Text} (hne : a.name ≠ name)
    (hmode : a.netMode = "gateway".toList) (hchecked : Checked table a fleet.containers) :
    compared name a = true := by
  simp [compared, hne, hmode, hchecked.gateway]

/-- Of two containers one was compared with the other. -/
theorem eq_or_compatible (hinfo : Accepted table info fleet.containers)
    (ha : a ∈ fleet.save info) (hb : b ∈ fleet.save info)
    (hamode : a.netMode = "gateway".toList) (hbmode : b.netMode = "gateway".toList) :
    a = b ∨ Compatible table a b := by
  have hacheck := checked_of_mem_save hinfo ha hamode
  have hbcheck := checked_of_mem_save hinfo hb hbmode
  rcases List.mem_cons.1 ha with rfl | ha
  · rcases List.mem_cons.1 hb with rfl | hb
    · exact Or.inl rfl
    · obtain ⟨hmem, hname⟩ := List.mem_filter.1 hb
      have hcompared := compared_of_checked (bne_iff_ne.1 hname) hbmode hbcheck
      exact Or.inr (hacheck.compatible b hmem hcompared).symm
  · obtain ⟨hamem, haname⟩ := List.mem_filter.1 ha
    rcases List.mem_cons.1 hb with rfl | hb
    · have hcompared := compared_of_checked (bne_iff_ne.1 haname) hamode hacheck
      exact Or.inr (hbcheck.compatible a hamem hcompared)
    · obtain ⟨hbmem, -⟩ := List.mem_filter.1 hb
      by_cases hname : a.name = b.name
      · exact Or.inl (List.inj_on_of_nodup_map fleet.nodup hamem hbmem hname)
      · exact Or.inr (hbcheck.compatible a hamem (compared_of_checked hname hamode hacheck))

/-- What the check does see to: a bridge belongs to one segment. -/
theorem sameSegment_of_bridge (hinfo : Accepted table info fleet.containers)
    (ha : a ∈ fleet.save info) (hb : b ∈ fleet.save info)
    (hamode : a.netMode = "gateway".toList) (hbmode : b.netMode = "gateway".toList)
    (h : effGatewayBridge table a.gatewayNet a.gatewayBridge =
      effGatewayBridge table b.gatewayNet b.gatewayBridge) : SameSegment a b := by
  rcases eq_or_compatible hinfo ha hb hamode hbmode with rfl | hcompatible
  · exact ⟨rfl, rfl⟩
  · obtain ⟨hgateway, hnet⟩ := hcompatible.bridge h
    exact ⟨hgateway, congrArg (List.take 63) hnet⟩

/-- An interface in a gateway belongs to one segment. -/
theorem sameSegment_of_iface (hinfo : Accepted table info fleet.containers)
    (ha : a ∈ fleet.save info) (hb : b ∈ fleet.save info)
    (hamode : a.netMode = "gateway".toList) (hbmode : b.netMode = "gateway".toList)
    (hgateway : a.gatewayContainer = b.gatewayContainer)
    (h : effGatewayIface a.gatewayIface = effGatewayIface b.gatewayIface) : SameSegment a b := by
  rcases eq_or_compatible hinfo ha hb hamode hbmode with rfl | hcompatible
  · exact ⟨rfl, rfl⟩
  · by_contra hno
    refine hcompatible.iface hgateway (fun hbridge => hno ?_) h
    exact sameSegment_of_bridge hinfo ha hb hamode hbmode hbridge

/-- **The segments are apart in the runtime exactly under what the check does not see to.** -/
theorem runtime_apart_iff (sys : System) (fleet : Fleet table)
    (hinfo : Accepted table info fleet.containers) :
    Apart ((fleet.save info).map (runtimeConfig sys)) ↔ Separate table (fleet.save info) := by
  have hclient : ∀ a ∈ fleet.save info, IsClient (runtimeConfig sys a) ↔ Usable a := fun a ha =>
    isClient_runtimeConfig_iff fun hmode => checked_of_mem_save hinfo ha hmode
  have hcheck : ∀ a ∈ fleet.save info, Usable a → Checked table a fleet.containers :=
    fun a ha husable => checked_of_mem_save hinfo ha husable.1
  have hsegment : ∀ a ∈ fleet.save info, Usable a → ∀ b ∈ fleet.save info, Usable b →
      (segment (runtimeConfig sys a) = segment (runtimeConfig sys b) ↔ SameSegment a b) := by
    intro a ha hau b hb hbu
    rw [hau.segment_eq (hcheck a ha hau), hbu.segment_eq (hcheck b hb hbu), Prod.mk.injEq]
    rfl
  have hbridge : ∀ a ∈ fleet.save info, Usable a → gatewayBridgeName (runtimeConfig sys a) =
      effGatewayBridge table a.gatewayNet a.gatewayBridge := fun a ha hau =>
    gatewayBridgeName_runtimeConfig hau.1 (hcheck a ha hau)
  have hveth : ∀ a ∈ fleet.save info, Usable a → ∀ b ∈ fleet.save info, Usable b →
      (vethHost (runtimeConfig sys a) = vethHost (runtimeConfig sys b) ↔
        dsNetHashString (a.gatewayContainer ++ ':' :: lanOf a) =
          dsNetHashString (b.gatewayContainer ++ ':' :: lanOf b)) := by
    intro a ha hau b hb hbu
    rw [vethHost_eq_iff, hau.gatewayHashKey_eq (hcheck a ha hau),
      hbu.gatewayHashKey_eq (hcheck b hb hbu)]
  constructor
  · intro h
    constructor
    · intro a ha hau
      rw [← effGatewayBridge_ne_natBridge_iff (hcheck a ha hau), ← hbridge a ha hau]
      exact h.nat _ (List.mem_map_of_mem ha) ((hclient a ha).2 hau)
    · intro a ha b hb hau hbu hsame
      have heq : vethHost (runtimeConfig sys a) = vethHost (runtimeConfig sys b) := by
        rw [hveth a ha hau b hb hbu, hsame.1, hsame.2]
      have hshare := h.veth _ (List.mem_map_of_mem ha) _ (List.mem_map_of_mem hb)
        ((hclient a ha).2 hau) ((hclient b hb).2 hbu) heq
      rwa [hbridge a ha hau, hbridge b hb hbu] at hshare
    · intro a ha b hb hau hbu hdiffer hhash
      have hshare := h.veth _ (List.mem_map_of_mem ha) _ (List.mem_map_of_mem hb)
        ((hclient a ha).2 hau) ((hclient b hb).2 hbu) ((hveth a ha hau b hb hbu).2 hhash)
      rw [hbridge a ha hau, hbridge b hb hbu] at hshare
      exact hdiffer (sameSegment_of_bridge hinfo ha hb hau.1 hbu.1 hshare)
  · intro h
    constructor
    · intro c hc d hd hcc hdc hdiffer hshare
      obtain ⟨a, ha, rfl⟩ := List.mem_map.1 hc
      obtain ⟨b, hb, rfl⟩ := List.mem_map.1 hd
      have hau := (hclient a ha).1 hcc
      have hbu := (hclient b hb).1 hdc
      rw [hbridge a ha hau, hbridge b hb hbu] at hshare
      exact hdiffer ((hsegment a ha hau b hb hbu).2
        (sameSegment_of_bridge hinfo ha hb hau.1 hbu.1 hshare))
    · intro c hc d hd hcc hdc hdiffer hgateway hshare
      obtain ⟨a, ha, rfl⟩ := List.mem_map.1 hc
      obtain ⟨b, hb, rfl⟩ := List.mem_map.1 hd
      have hau := (hclient a ha).1 hcc
      have hbu := (hclient b hb).1 hdc
      rw [hau.gatewayContainer_eq (hcheck a ha hau),
        hbu.gatewayContainer_eq (hcheck b hb hbu)] at hgateway
      rw [gatewayLanIfname_runtimeConfig hau.1 (hcheck a ha hau),
        gatewayLanIfname_runtimeConfig hbu.1 (hcheck b hb hbu)] at hshare
      exact hdiffer ((hsegment a ha hau b hb hbu).2
        (sameSegment_of_iface hinfo ha hb hau.1 hbu.1 hgateway hshare))
    · intro c hc hcc
      obtain ⟨a, ha, rfl⟩ := List.mem_map.1 hc
      have hau := (hclient a ha).1 hcc
      rw [hbridge a ha hau, effGatewayBridge_ne_natBridge_iff (hcheck a ha hau)]
      exact h.nat a ha hau
    · intro c hc d hd hcc hdc hshare
      obtain ⟨a, ha, rfl⟩ := List.mem_map.1 hc
      obtain ⟨b, hb, rfl⟩ := List.mem_map.1 hd
      have hau := (hclient a ha).1 hcc
      have hbu := (hclient b hb).1 hdc
      rw [hbridge a ha hau, hbridge b hb hbu]
      by_cases hsame : SameSegment a b
      · exact h.bridge a ha b hb hau hbu hsame
      · exact absurd ((hveth a ha hau b hb hbu).1 hshare) (h.hash a ha b hb hau hbu hsame)

def asciiTable : CharTable := ⟨Char.isAlphanum, fun _ _ => rfl⟩

def router : ContainerInfo :=
  { name := "wrt".toList, hostname := "wrt".toList, rootfsPath := "/wrt".toList }

/-- A client of the router, with the interface that it has in there. -/
def clientOf (name net iface bridge : String) : ContainerInfo :=
  { router with
    name := name.toList
    netMode := "gateway".toList
    gatewayContainer := "wrt".toList
    gatewayNet := net.toList
    gatewayIface := iface.toList
    gatewayBridge := bridge.toList }

def oneClient : Fleet asciiTable where
  containers := [router, clientOf "pc" "" "" "br-office"]
  nodup := by decide +kernel
  name_ok := by unfold IsTrimmed; decide +kernel
  accepted := by unfold Accepted; decide +kernel

theorem runtime_apart_vpn :
    Accepted asciiTable (clientOf "tv" "vpn" "eth2" "") oneClient.containers ∧
      Apart ((oneClient.save (clientOf "tv" "vpn" "eth2" "")).map (runtimeConfig plainSystem)) := by
  have haccepted : Accepted asciiTable (clientOf "tv" "vpn" "eth2" "") oneClient.containers := by
    unfold Accepted
    decide +kernel
  refine ⟨haccepted, (runtime_apart_iff plainSystem oneClient haccepted).2 ⟨?_, ?_, ?_⟩⟩
  · unfold Usable
    decide +kernel
  · unfold Usable SameSegment
    decide +kernel
  · unfold Usable SameSegment
    decide +kernel

/-- Another bridge for a LAN that has one. -/
theorem runtime_not_apart_bridge :
    Accepted asciiTable (clientOf "tv" "lan" "eth2" "br-tv") oneClient.containers ∧
      ¬Apart ((oneClient.save (clientOf "tv" "lan" "eth2" "br-tv")).map
        (runtimeConfig plainSystem)) := by
  have haccepted : Accepted asciiTable (clientOf "tv" "lan" "eth2" "br-tv")
      oneClient.containers := by
    unfold Accepted
    decide +kernel
  refine ⟨haccepted, fun h => ?_⟩
  have ha : clientOf "tv" "lan" "eth2" "br-tv" ∈
      oneClient.save (clientOf "tv" "lan" "eth2" "br-tv") := List.mem_cons_self
  have hb : clientOf "pc" "" "" "br-office" ∈
      oneClient.save (clientOf "tv" "lan" "eth2" "br-tv") := by
    refine List.mem_cons_of_mem _ (List.mem_filter.2 ⟨?_, by decide +kernel⟩)
    exact List.mem_cons_of_mem _ (List.mem_singleton_self _)
  have hau : Usable (clientOf "tv" "lan" "eth2" "br-tv") := ⟨rfl, by decide +kernel⟩
  have hbu : Usable (clientOf "pc" "" "" "br-office") := ⟨rfl, by decide +kernel⟩
  have hac := checked_of_mem_save haccepted ha hau.1
  have hbc := checked_of_mem_save haccepted hb hbu.1
  have hkey : lanOf (clientOf "tv" "lan" "eth2" "br-tv") =
      lanOf (clientOf "pc" "" "" "br-office") := by
    decide +kernel
  have hveth : vethHost (runtimeConfig plainSystem (clientOf "tv" "lan" "eth2" "br-tv")) =
      vethHost (runtimeConfig plainSystem (clientOf "pc" "" "" "br-office")) := by
    rw [vethHost_eq_iff, hau.gatewayHashKey_eq hac, hbu.gatewayHashKey_eq hbc, hkey]
    rfl
  have hshare := h.veth _ (List.mem_map_of_mem ha) _ (List.mem_map_of_mem hb)
    ((isClient_runtimeConfig_iff fun _ => hac).2 hau)
    ((isClient_runtimeConfig_iff fun _ => hbc).2 hbu) hveth
  rw [gatewayBridgeName_runtimeConfig hau.1 hac,
    gatewayBridgeName_runtimeConfig hbu.1 hbc] at hshare
  exact absurd hshare (by decide +kernel)

/-- A LAN whose bridge is the one of the NAT network. -/
theorem runtime_not_apart_nat :
    Accepted asciiTable (clientOf "tv" "br0" "eth2" "") oneClient.containers ∧
      gatewayBridgeName (runtimeConfig plainSystem (clientOf "tv" "br0" "eth2" "")) =
        natBridge := by
  have haccepted : Accepted asciiTable (clientOf "tv" "br0" "eth2" "") oneClient.containers := by
    unfold Accepted
    decide +kernel
  refine ⟨haccepted, ?_⟩
  rw [gatewayBridgeName_runtimeConfig rfl haccepted.checked]
  decide +kernel

end Fleet

end Droidspaces.GatewayCheck
