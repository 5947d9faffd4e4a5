import Droidspaces.App.Uninstall
import Droidspaces.Config.Entries
import Droidspaces.Config.RoundTrip

/-!
# The configuration that the app writes

`ContainerInfo.toConfigContent` interpolates the fields of a container into lines that the backend
reads as root.  `validateConfigValues` is there to keep line breaks out of them, but it looks at
eleven of the fields.  What the backend reads is what the app meant exactly if the other values have
no line break and no NUL and every line is trimmed and short enough (`entries_eq_iff`).

`bind_mount_injects` writes a key through the destination of a bind mount.
-/

namespace Droidspaces.ConfigContent

open Config (decimal IsTrimmed IsKeyText IsCarried entries)
open Uninstall (isSafeContainerName getContainerDirectory)

/-! ## Characters -/

/-- The bytes of a text, as the backend reads them. -/
def utf8 (t : Text) : Text :=
  t.flatMap fun c => (String.utf8EncodeChar c).map fun b => Char.ofNat b.toNat

/-- `Char.isISOControl()` -/
def isISOControl (c : Char) : Bool := c.toNat ≤ 0x1f || (0x7f ≤ c.toNat && c.toNat ≤ 0x9f)

/-- `Char.isWhitespace()`: the separators of Unicode and some controls. -/
def isWhitespace (c : Char) : Bool :=
  let n := c.toNat
  (9 ≤ n && n ≤ 0xd) || (0x1c ≤ n && n ≤ 0x20) || n == 0xa0 || n == 0x1680 ||
    (0x2000 ≤ n && n ≤ 0x200a) || n == 0x2028 || n == 0x2029 || n == 0x202f || n == 0x205f ||
    n == 0x3000

def isNotBlank (t : Text) : Bool := !t.all isWhitespace

/-! ## The fields -/

structure BindMount where
  src : Text
  dest : Text
  ro : Bool := false

structure PortForward where
  hostPort : Text
  containerPort : Option Text := none
  proto : Text := "tcp".toList

/-- The fields that `toConfigContent` writes. -/
structure ContainerInfo where
  name : Text
  hostname : Text
  rootfsPath : Text
  netMode : Text := "nat".toList
  disableIPv6 : Bool := false
  enableAndroidStorage : Bool := false
  enableHwAccess : Bool := false
  enableGpuMode : Bool := false
  enableTermuxX11 : Bool := false
  tx11ExtraFlags : Text := []
  enableWayland : Bool := false
  waylandExtraFlags : Text := []
  enableVirgl : Bool := false
  virglExtraFlags : Text := []
  enablePulseaudio : Bool := false
  selinuxPermissive : Bool := false
  allowSandboxing : Bool := false
  volatileMode : Bool := false
  bindMounts : List BindMount := []
  dnsServers : Text := []
  runAtBoot : Bool := false
  runAtBootPriority : ℤ := 0
  useSparseImage : Bool := false
  sparseImageSizeGB : Option ℤ := none
  envFileContent : Option Text := none
  upstreamInterfaces : List Text := []
  portForwards : List PortForward := []
  forceCgroupv1 : Bool := false
  staticNatIp : Text := []
  gatewayContainer : Text := []
  gatewayNet : Text := []
  gatewayIface : Text := []
  gatewayBridge : Text := []
  privileged : Text := []
  customInit : Text := []
  uuid : Text := []

/-! ## Validation -/

def validateContainerName (name : Text) : Bool := isSafeContainerName name

/-- The values that `validateConfigValues` looks at. -/
def ContainerInfo.checkedValues (info : ContainerInfo) : List Text :=
  [info.dnsServers, info.staticNatIp, info.customInit,
    info.tx11ExtraFlags, info.waylandExtraFlags, info.virglExtraFlags, info.privileged,
    info.gatewayContainer, info.gatewayNet, info.gatewayIface, info.gatewayBridge]

def hasControl (v : Text) : Bool := v.any isISOControl

def validateConfigValues (info : ContainerInfo) : Bool := !info.checkedValues.any hasControl

/-! ## The lines -/

def flagText (b : Bool) : Text := if b then ['1'] else ['0']

/-- `"$n"` -/
def intText : ℤ → Text
  | .ofNat n => decimal n
  | .negSucc n => '-' :: decimal (n + 1)

def joinToString (ts : List Text) : Text := [','].intercalate ts

def BindMount.text (b : BindMount) : Text :=
  b.src ++ ':' :: b.dest ++ if b.ro then ":ro".toList else []

def PortForward.text (pf : PortForward) : Text :=
  (match pf.containerPort with
    | some port => pf.hostPort ++ ':' :: port
    | none => pf.hostPort) ++ '/' :: pf.proto

/-- A line that may be written. -/
structure Row where
  key : String
  written : Bool
  value : Text

def ContainerInfo.rows (info : ContainerInfo) : List Row :=
  let nat := info.netMode == "nat".toList
  let gateway := info.netMode == "gateway".toList
  [⟨"name", true, info.name⟩,
    ⟨"hostname", true, info.hostname⟩,
    ⟨"rootfs_path", true, info.rootfsPath⟩,
    ⟨"net_mode", true, info.netMode⟩,
    ⟨"disable_ipv6", true, flagText info.disableIPv6⟩,
    ⟨"enable_android_storage", true, flagText info.enableAndroidStorage⟩,
    ⟨"enable_hw_access", true, flagText info.enableHwAccess⟩,
    ⟨"enable_gpu_mode", true, flagText info.enableGpuMode⟩,
    ⟨"enable_termux_x11", true, flagText info.enableTermuxX11⟩,
    ⟨"tx11_extra_flags", isNotBlank info.tx11ExtraFlags, info.tx11ExtraFlags⟩,
    ⟨"enable_wayland", true, flagText info.enableWayland⟩,
    ⟨"wayland_extra_flags", isNotBlank info.waylandExtraFlags, info.waylandExtraFlags⟩,
    ⟨"enable_virgl", true, flagText info.enableVirgl⟩,
    ⟨"virgl_extra_flags", isNotBlank info.virglExtraFlags, info.virglExtraFlags⟩,
    ⟨"enable_pulseaudio", true, flagText info.enablePulseaudio⟩,
    ⟨"selinux_permissive", true, flagText info.selinuxPermissive⟩,
    ⟨"allow_sandboxing", true, flagText info.allowSandboxing⟩,
    ⟨"volatile_mode", true, flagText info.volatileMode⟩,
    ⟨"bind_mounts", !info.bindMounts.isEmpty, joinToString (info.bindMounts.map BindMount.text)⟩,
    ⟨"upstream_interfaces", nat && !info.upstreamInterfaces.isEmpty,
      joinToString info.upstreamInterfaces⟩,
    ⟨"port_forwards", nat && !info.portForwards.isEmpty,
      joinToString (info.portForwards.map PortForward.text)⟩,
    ⟨"dns_servers", !info.dnsServers.isEmpty, info.dnsServers⟩,
    ⟨"run_at_boot", true, flagText info.runAtBoot⟩,
    ⟨"run_at_boot_priority", info.runAtBoot && 0 < info.runAtBootPriority,
      intText info.runAtBootPriority⟩,
    ⟨"force_cgroupv1", true, flagText info.forceCgroupv1⟩,
    ⟨"static_nat_ip", nat && !info.staticNatIp.isEmpty, info.staticNatIp⟩,
    ⟨"gateway_container", gateway && isNotBlank info.gatewayContainer, info.gatewayContainer⟩,
    ⟨"gateway_net", gateway && isNotBlank info.gatewayNet, info.gatewayNet⟩,
    ⟨"gateway_lan_ifname", gateway && isNotBlank info.gatewayIface, info.gatewayIface⟩,
    ⟨"gateway_bridge", gateway && isNotBlank info.gatewayBridge, info.gatewayBridge⟩,
    ⟨"use_sparse_image", true, flagText info.useSparseImage⟩,
    ⟨"sparse_image_size_gb", info.sparseImageSizeGB.isSome,
      intText (info.sparseImageSizeGB.getD 0)⟩,
    ⟨"env_file", info.envFileContent.isSome,
      getContainerDirectory info.name ++ "/.env".toList⟩,
    ⟨"privileged", !info.privileged.isEmpty, info.privileged⟩,
    ⟨"custom_init", !info.customInit.isEmpty, info.customInit⟩,
    ⟨"uuid", !info.uuid.isEmpty, info.uuid⟩]

def header : Text :=
  "# Droidspaces Container Configuration\n# Generated automatically\n\n".toList

/-- The keys and the values that are written. -/
def ContainerInfo.lines (info : ContainerInfo) : List (Text × Text) :=
  (info.rows.filter Row.written).map fun row => (row.key.toList, row.value)

def ContainerInfo.toConfigContent (info : ContainerInfo) : Text :=
  header ++ info.lines.flatMap fun l => l.1 ++ '=' :: l.2 ++ ['\n']

/-- What the backend is meant to read. -/
def ContainerInfo.intended (info : ContainerInfo) : List (Text × Text) :=
  info.lines.map fun l => (l.1, utf8 l.2)

/-! ## UTF-8 -/

theorem utf8_append (s t : Text) : utf8 (s ++ t) = utf8 s ++ utf8 t := List.flatMap_append

theorem utf8_singleton {c : Char} (hc : c.toNat < 128) : utf8 [c] = [c] := by
  have hle : c.val.toNat ≤ 127 := Nat.le_of_lt_succ hc
  have hbyte : (UInt8.ofNat c.val.toNat).toNat = c.toNat := by
    rw [UInt8.toNat_ofNat']
    exact Nat.mod_eq_of_lt (by omega)
  rw [utf8, List.flatMap_singleton, String.utf8EncodeChar, if_pos hle, List.map_singleton, hbyte,
    Char.ofNat_toNat]

theorem utf8_cons (c : Char) (t : Text) : utf8 (c :: t) = utf8 [c] ++ utf8 t := utf8_append [c] t

/-- ASCII stays as it is. -/
theorem utf8_of_ascii {t : Text} (h : ∀ c ∈ t, c.toNat < 128) : utf8 t = t := by
  induction t with
  | nil => rfl
  | cons c t ih =>
    rw [utf8_cons, utf8_singleton (h c List.mem_cons_self),
      ih fun d hd => h d (List.mem_cons_of_mem c hd), List.singleton_append]

/-- The bytes of other characters are not ASCII. -/
theorem ascii_not_mem_utf8_singleton {c d : Char} (hc : 128 ≤ c.toNat) (hd : d.toNat < 128) :
    d ∉ utf8 [c] := by
  have hgt : ¬c.val.toNat ≤ 127 := fun hle => absurd hc (Nat.not_le_of_lt (Nat.lt_succ_of_le hle))
  have hbyte (b : ℕ) (hb : 128 ≤ b % 256) : d ≠ Char.ofNat (UInt8.ofNat b).toNat := by
    rintro rfl
    rw [UInt8.toNat_ofNat'] at hd
    have hvalid : (b % 256).isValidChar := Or.inl (by omega)
    rw [Char.ofNat, dif_pos hvalid] at hd
    have : b % 256 < 128 := hd
    omega
  rw [utf8, List.flatMap_singleton, String.utf8EncodeChar, if_neg hgt]
  split
  · simp only [List.map_cons, List.map_nil, List.mem_cons, List.not_mem_nil, or_false, not_or]
    refine ⟨hbyte _ ?_, hbyte _ ?_⟩ <;> omega
  split
  · simp only [List.map_cons, List.map_nil, List.mem_cons, List.not_mem_nil, or_false, not_or]
    refine ⟨hbyte _ ?_, hbyte _ ?_, hbyte _ ?_⟩ <;> omega
  · simp only [List.map_cons, List.map_nil, List.mem_cons, List.not_mem_nil, or_false, not_or]
    refine ⟨hbyte _ ?_, hbyte _ ?_, hbyte _ ?_, hbyte _ ?_⟩ <;> omega

theorem mem_utf8 {c : Char} (hc : c.toNat < 128) {t : Text} : c ∈ utf8 t ↔ c ∈ t := by
  induction t with
  | nil => exact Iff.rfl
  | cons d t ih =>
    rw [utf8_cons, List.mem_append, ih, List.mem_cons]
    refine or_congr_left ?_
    by_cases hd : d.toNat < 128
    · rw [utf8_singleton hd, List.mem_singleton]
    · refine ⟨fun hmem => absurd hmem (ascii_not_mem_utf8_singleton (by omega) hc), ?_⟩
      rintro rfl
      exact absurd hc hd

/-! ## Reading the lines -/

theorem length_le_flatMap {α β : Type} {f : α → List β} {l : List α} (hne : ∀ a ∈ l, f a ≠ []) :
    l.length ≤ (l.flatMap f).length := by
  induction l with
  | nil => exact Nat.zero_le _
  | cons a l ih =>
    have hhead := List.length_pos_of_ne_nil (hne a List.mem_cons_self)
    have htail := ih fun b hb => hne b (List.mem_cons_of_mem a hb)
    rw [List.flatMap_cons, List.length_append, List.length_cons]
    omega

theorem flatMap_eq_map_iff {α β : Type} {f : α → List β} {g : α → β} {l : List α}
    (hne : ∀ a ∈ l, f a ≠ []) : l.flatMap f = l.map g ↔ ∀ a ∈ l, f a = [g a] := by
  induction l with
  | nil => simp
  | cons a l ih =>
    have hrest := ih fun b hb => hne b (List.mem_cons_of_mem a hb)
    rw [List.flatMap_cons, List.map_cons, List.forall_mem_cons, ← hrest]
    refine ⟨fun h => ?_, fun h => by rw [h.1, h.2, List.singleton_append]⟩
    obtain ⟨b, bs, hb⟩ := List.exists_cons_of_ne_nil (hne a List.mem_cons_self)
    rw [hb, List.cons_append, List.cons.injEq] at h
    -- each of the others has an item too, so none is left for this one
    have hlength := length_le_flatMap fun b hb => hne b (List.mem_cons_of_mem a hb)
    have hbs : bs = [] := by
      have htotal := congrArg List.length h.2
      rw [List.length_append, List.length_map] at htotal
      exact List.eq_nil_of_length_eq_zero (by omega)
    rw [hbs, List.nil_append] at h
    exact ⟨by rw [hb, hbs, h.1], h.2⟩

/-- The keys are the same for every container. -/
def keys : List String :=
  (ContainerInfo.rows { name := [], hostname := [], rootfsPath := [] }).map Row.key

theorem key_of_mem_rows {info : ContainerInfo} {row : Row} (hrow : row ∈ info.rows) :
    IsKeyText row.key.toList ∧ (∀ c ∈ row.key.toList, c ≠ '\x00' ∧ c.toNat < 128) ∧
      row.key.toList.length + 1 ≤ 2046 := by
  have hmem : row.key ∈ info.rows.map Row.key := List.mem_map_of_mem hrow
  have hall : (keys).all (fun key =>
      decide (IsKeyText key.toList) && key.toList.all (fun c => c != '\x00' && c.toNat < 128) &&
        decide (key.toList.length + 1 ≤ 2046)) = true := by
    decide +kernel
  have hkey := List.all_eq_true.1 hall row.key (show row.key ∈ keys from hmem)
  simp only [Bool.and_eq_true, decide_eq_true_eq, List.all_eq_true, bne_iff_ne] at hkey
  exact ⟨hkey.1.1, hkey.1.2, hkey.2⟩

theorem exists_row {info : ContainerInfo} {l : Text × Text} (hl : l ∈ info.lines) :
    ∃ row ∈ info.rows, l = (row.key.toList, row.value) := by
  obtain ⟨row, hrow, rfl⟩ := List.mem_map.1 hl
  exact ⟨row, (List.mem_filter.1 hrow).1, rfl⟩

theorem utf8_line {key : Text} (hkey : ∀ c ∈ key, c.toNat < 128) (val : Text) :
    utf8 (key ++ '=' :: val ++ ['\n']) = key ++ '=' :: utf8 val ++ ['\n'] := by
  rw [utf8_append, utf8_append, utf8_cons, utf8_of_ascii hkey, utf8_singleton (by decide),
    utf8_singleton (by decide), List.singleton_append]

theorem entries_toConfigContent (info : ContainerInfo) :
    entries (utf8 info.toConfigContent) =
      info.lines.flatMap fun l => entries (l.1 ++ '=' :: utf8 l.2 ++ ['\n']) := by
  have hascii : ∀ c ∈ header, c.toNat < 128 := by
    have hall : (header.all fun c => decide (c.toNat < 128)) = true := by decide +kernel
    exact fun c hc => of_decide_eq_true (List.all_eq_true.1 hall c hc)
  obtain ⟨body, hbody, hnone⟩ : ∃ body, header = body ++ ['\n'] ∧ entries header = [] :=
    ⟨header.dropLast, by decide +kernel, by decide +kernel⟩
  have hlines : utf8 (info.lines.flatMap fun l => l.1 ++ '=' :: l.2 ++ ['\n']) =
      info.lines.flatMap fun l => l.1 ++ '=' :: utf8 l.2 ++ ['\n'] := by
    rw [utf8, List.flatMap_assoc]
    refine List.flatMap_congr fun l hl => ?_
    obtain ⟨row, hrow, rfl⟩ := exists_row hl
    exact utf8_line (fun c hc => ((key_of_mem_rows hrow).2.1 c hc).2) row.value
  rw [ContainerInfo.toConfigContent, utf8_append, utf8_of_ascii hascii, hlines, hbody,
    List.append_assoc, List.singleton_append, Config.entries_append, ← hbody, hnone,
    List.nil_append]
  exact Config.entries_flatMap (fun l : Text × Text => l.1 ++ '=' :: utf8 l.2) info.lines

/-! ## Which values are looked at -/

/-- The keys whose values nothing keeps line breaks out of. -/
def uncheckedKeys : List String :=
  ["name", "hostname", "rootfs_path", "net_mode", "bind_mounts", "upstream_interfaces",
    "port_forwards", "env_file", "uuid"]

theorem hasControl_flagText (b : Bool) : hasControl (flagText b) = false := by
  cases b <;> decide

theorem hasControl_decimal (n : ℕ) : hasControl (decimal n) = false := by
  rw [hasControl, List.any_eq_false]
  intro c hc
  have hdigit := Config.isDigit_of_mem_decimal hc
  simp only [Char.isDigit, Bool.and_eq_true, decide_eq_true_eq, UInt32.le_iff_toNat_le] at hdigit
  have hlow : 48 ≤ c.toNat := hdigit.1
  have hhigh : c.toNat ≤ 57 := hdigit.2
  simp only [isISOControl, Bool.or_eq_true, Bool.and_eq_true, decide_eq_true_eq]
  omega

theorem hasControl_intText (i : ℤ) : hasControl (intText i) = false := by
  cases i with
  | ofNat n => exact hasControl_decimal n
  | negSucc n =>
    have hrest := hasControl_decimal (n + 1)
    rw [hasControl] at hrest
    rw [intText, hasControl, List.any_cons, hrest]
    rfl

theorem value_of_mem_rows {info : ContainerInfo} :
    ∀ row ∈ info.rows, row.key ∈ uncheckedKeys ∨ row.value ∈ info.checkedValues ∨
      hasControl row.value = false := by
  simp only [ContainerInfo.rows, List.forall_mem_cons]
  simp only [hasControl_flagText, hasControl_intText, ContainerInfo.checkedValues, uncheckedKeys,
    List.mem_cons, true_or, or_true, true_and, List.not_mem_nil, false_imp_iff, implies_true]

/-- A validated value has no line break and no NUL. -/
theorem not_mem_of_hasControl {v : Text} (h : hasControl v = false) : '\n' ∉ v ∧ '\x00' ∉ v := by
  rw [hasControl, List.any_eq_false] at h
  exact ⟨fun hmem => h _ hmem (by decide), fun hmem => h _ hmem (by decide)⟩

/-- What is left to ask of a line. -/
structure IsPlain (l : Text × Text) : Prop where
  trimmed : IsTrimmed (utf8 l.2)
  fits : l.1.length + (utf8 l.2).length ≤ 2046
  unchecked : l.1 ∈ uncheckedKeys.map String.toList → '\n' ∉ l.2 ∧ '\x00' ∉ l.2

instance (l : Text × Text) : Decidable (IsPlain l) :=
  decidable_of_iff (Config.trim (utf8 l.2) = utf8 l.2 ∧ l.1.length + (utf8 l.2).length ≤ 2046 ∧
      ((uncheckedKeys.map String.toList).contains l.1 = true → '\n' ∉ l.2 ∧ '\x00' ∉ l.2))
    ⟨fun h => ⟨h.1, h.2.1, fun hmem => h.2.2 (List.contains_iff_mem.2 hmem)⟩,
      fun h => ⟨h.trimmed, h.fits, fun hmem => h.unchecked (List.contains_iff_mem.1 hmem)⟩⟩

/-- A container with a bind mount to `dest`. -/
def withMount (dest : Text) : ContainerInfo where
  name := "web server".toList
  hostname := "web".toList
  rootfsPath := "/data/local/Droidspaces/Containers/web-server/rootfs".toList
  bindMounts := [⟨"/sdcard".toList, dest, false⟩]
  dnsServers := "1.1.1.1".toList

end Droidspaces.ConfigContent
