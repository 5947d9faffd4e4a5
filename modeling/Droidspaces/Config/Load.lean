import Droidspaces.Config.Values

/-!
# Loading a configuration

The persistent part of `struct ds_config`, key by key.  `ds_config_load` overlays the keys of a file
on what is there; each line is about one key, so that the value of a key after a load depends on
that key's lines only (`load_value`).
-/

namespace Droidspaces.Config

open CustomBinds

/-! ## Keys -/

inductive TextKey where
  | name
  | hostname
  | dnsServers
  | envFile
  | uuid
  | staticNatIp
  | gatewayContainer
  | gatewayNet
  | gatewayBridge
  | gatewayLanIfname
  | customInit
  | tx11ExtraFlags
  | waylandExtraFlags
  | virglExtraFlags
  deriving DecidableEq

inductive Flag where
  | disableIpv6
  | androidStorage
  | hwAccess
  | gpuMode
  | termuxX11
  | wayland
  | virgl
  | pulseaudio
  | selinuxPermissive
  | sandboxingAllowed
  | allowVts
  | volatileMode
  | forceCgroupv1
  | foreground
  deriving DecidableEq

inductive Limit where
  | memoryLimit
  | cpuQuota
  | cpuPeriod
  | pidsLimit
  deriving DecidableEq

inductive Key where
  | text (k : TextKey)
  | flag (f : Flag)
  | limit (l : Limit)
  | privileged
  | netMode
  /-- `rootfs_path`, `rootfs_img_path` and `is_img_mount` -/
  | rootfs
  | upstreamIfaces
  | portForwards
  | binds
  deriving DecidableEq

structure Rootfs where
  path : Text
  img : Text
  isImg : Bool
  deriving DecidableEq

abbrev Key.Value : Key → Type
  | .text _ => Text
  | .flag _ => Bool
  | .limit _ => ℕ
  | .privileged => ℕ
  | .netMode => NetMode
  | .rootfs => Rootfs
  | .upstreamIfaces => List Text
  | .portForwards => List PortForward
  | .binds => List BindMount

/-- The keys of `container.config`, with an older name for one of them. -/
def keyNames : List (String × Key) := [
  ("name", .text .name),
  ("hostname", .text .hostname),
  ("rootfs_path", .rootfs),
  ("disable_ipv6", .flag .disableIpv6),
  ("enable_android_storage", .flag .androidStorage),
  ("enable_hw_access", .flag .hwAccess),
  ("enable_gpu_mode", .flag .gpuMode),
  ("enable_termux_x11", .flag .termuxX11),
  ("tx11_extra_flags", .text .tx11ExtraFlags),
  ("enable_wayland", .flag .wayland),
  ("wayland_extra_flags", .text .waylandExtraFlags),
  ("enable_virgl", .flag .virgl),
  ("virgl_extra_flags", .text .virglExtraFlags),
  ("enable_pulseaudio", .flag .pulseaudio),
  ("selinux_permissive", .flag .selinuxPermissive),
  ("allow_sandboxing", .flag .sandboxingAllowed),
  ("allow_userns", .flag .sandboxingAllowed),
  ("allow_vts", .flag .allowVts),
  ("volatile_mode", .flag .volatileMode),
  ("force_cgroupv1", .flag .forceCgroupv1),
  ("memory_limit", .limit .memoryLimit),
  ("cpu_quota", .limit .cpuQuota),
  ("cpu_period", .limit .cpuPeriod),
  ("pids_limit", .limit .pidsLimit),
  ("privileged", .privileged),
  ("custom_init", .text .customInit),
  ("bind_mounts", .binds),
  ("dns_servers", .text .dnsServers),
  ("foreground", .flag .foreground),
  ("env_file", .text .envFile),
  ("uuid", .text .uuid),
  ("static_nat_ip", .text .staticNatIp),
  ("net_mode", .netMode),
  ("gateway_container", .text .gatewayContainer),
  ("gateway_net", .text .gatewayNet),
  ("gateway_bridge", .text .gatewayBridge),
  ("gateway_lan_ifname", .text .gatewayLanIfname),
  ("upstream_interfaces", .upstreamIfaces),
  ("port_forwards", .portForwards)]

/-- Keys that are read and dropped. -/
def droppedKeys : List String := ["block_nested_ns", "pidfile"]

def keyOf (t : Text) : Option Key := (keyNames.find? fun e => e.1.toList == t).map (·.2)

/-- The size of the buffer; a `strdup` has none. -/
def TextKey.size : TextKey → Option ℕ
  | .name | .hostname | .gatewayContainer => some 256
  | .dnsServers => some 1024
  | .envFile | .customInit => some 4096
  | .uuid => some 33
  | .staticNatIp | .gatewayBridge | .gatewayLanIfname => some 16
  | .gatewayNet => some 64
  | .tx11ExtraFlags | .waylandExtraFlags | .virglExtraFlags => none

/-- `safe_strncpy` -/
def TextKey.stored (k : TextKey) (val : Text) : Text :=
  match k.size with
  | some n => val.take (n - 1)
  | none => val

/-! ## Loading -/

/-- What the loader asks the host for. -/
structure System where
  /-- `stat` finds a regular file or a block device. -/
  isImage : Text → Bool
  isImage_nil : isImage [] = false
  /-- `ds_resolve_path_arg` -/
  resolve : Text → Text
  /-- `is_subpath` of the workspace -/
  underWorkspace : Text → Bool

def TextKey.accepts (sys : System) : TextKey → Text → Bool
  | .name, val | .gatewayContainer, val => validateContainerName val
  | .envFile, val =>
    !val.tails.any (['.', '.'].isPrefixOf ·) && !(val.head? == some '/' && !sys.underWorkspace val)
  | .staticNatIp, val => validateStaticIp val
  | .gatewayBridge, val | .gatewayLanIfname, val => val.length < ifNameSize
  | .customInit, val => val.head? == some '/' && !val.contains ' '
  | _, _ => true

def acceptRootfs (sys : System) (val : Text) (r : Rootfs) : Rootfs :=
  if sys.isImage val then { path := if r.isImg then r.path else [], img := val, isImg := true }
  else { path := val, img := if r.isImg then [] else r.img, isImg := false }

/-- A value that is not accepted leaves the old one in place. -/
def accept (sys : System) : (k : Key) → Text → k.Value → k.Value
  | .text k, val, old => if k.accepts sys val then k.stored val else old
  | .flag _, val, _ => parseBool val
  | .limit _, val, old => (parseLlPositive val).getD old
  | .privileged, val, _ => parsePrivileged val
  | .netMode, val, _ => parseNetMode val
  | .rootfs, val, old => acceptRootfs sys val old
  | .upstreamIfaces, val, old => parseIfaceCsv val old
  | .portForwards, val, old => parsePortForwards val old
  | .binds, val, old => parseBindMounts sys.resolve val old

structure DsConfig where
  value : (k : Key) → k.Value
  /-- Lines with other keys, which are kept as they are. -/
  unknown : List Text

def DsConfig.set (cfg : DsConfig) (k : Key) (v : k.Value) : DsConfig :=
  { cfg with value := Function.update cfg.value k v }

@[simp] theorem DsConfig.value_set_self (cfg : DsConfig) (k : Key) (v : k.Value) :
    (cfg.set k v).value k = v := Function.update_self k v cfg.value

theorem DsConfig.value_set_of_ne (cfg : DsConfig) {k l : Key} (h : l ≠ k) (v : k.Value) :
    (cfg.set k v).value l = cfg.value l := Function.update_of_ne h v cfg.value

/-- `fgets` with a buffer of `n + 2` bytes, up to the end of the file. -/
def fgets (n : ℕ) : Text → ℕ → List Text
  | [], _ => []
  | [c], _ => [[c]]
  | c :: d :: t, room =>
    if c == '\n' || room == 0 then [c] :: fgets n (d :: t) n
    else
      match fgets n (d :: t) (room - 1) with
      | line :: lines => (c :: line) :: lines
      | [] => [[c]]

/-- `fgets(line, sizeof(line), f)`, line by line. -/
def fileLines (text : Text) : List Text := fgets 2046 text 2046

/-- The key and the value of a line. -/
def lineEntry (line : Text) : Option (Text × Text) :=
  let trimmed := trim line
  if trimmed.head? == some '#' || !trimmed.contains '=' then none
  else some (trim (trimmed.takeWhile (· != '=')), trim ((trimmed.dropWhile (· != '=')).drop 1))

def loadLine (sys : System) (cfg : DsConfig) (line : Text) : DsConfig :=
  match lineEntry line with
  | none => cfg
  | some (key, val) =>
    match keyOf key with
    | some k => cfg.set k (accept sys k val (cfg.value k))
    | none =>
      if droppedKeys.any fun d => d.toList == key then cfg
      else { cfg with unknown := cfg.unknown ++ [line] }

def dsConfigLoad (sys : System) (text : Text) (cfg : DsConfig) : DsConfig :=
  (fileLines text).foldl (loadLine sys) { cfg with unknown := [] }

/-- `struct ds_config` in `main`, before anything is loaded. -/
def defaults : DsConfig where
  value
    | .text _ => []
    | .flag _ => false
    | .limit _ => 0
    | .privileged => 0
    | .netMode => .nat
    | .rootfs => ⟨[], [], false⟩
    | .upstreamIfaces => []
    | .portForwards => []
    | .binds => []
  unknown := []

/-- The keys that `ds_config_reset_defaults` keeps. -/
def isIdentity (k : Key) : Bool := k = .text .name || k = .text .uuid || k = .rootfs

def dsConfigResetDefaults (cfg : DsConfig) : DsConfig where
  value k := if isIdentity k then cfg.value k else defaults.value k
  unknown := cfg.unknown

/-! ## The value of a key -/

/-- The values that the lines of a file have for a key. -/
def valuesOf (k : Key) (text : Text) : List Text :=
  (fileLines text).filterMap fun line =>
    (lineEntry line).bind fun e => if keyOf e.1 = some k then some e.2 else none

/-- What the values of a key make of the one that was there. -/
def overlay (sys : System) (k : Key) (vals : List Text) (v : k.Value) : k.Value :=
  vals.foldl (fun v val => accept sys k val v) v

variable {sys : System} {cfg : DsConfig} {k : Key} {text : Text}

theorem loadLine_value (line : Text) :
    (loadLine sys cfg line).value k =
      overlay sys k ((lineEntry line).bind fun e =>
        if keyOf e.1 = some k then some e.2 else none).toList (cfg.value k) := by
  unfold loadLine
  cases lineEntry line with
  | none => rfl
  | some e =>
    obtain ⟨key, val⟩ := e
    cases hkey : keyOf key with
    | none =>
      simp only [Option.bind_some, hkey]
      split
      · rfl
      · rfl
    | some l =>
      by_cases hl : l = k
      · subst hl
        simp [overlay, hkey]
      · have hne : some l ≠ some k := fun h => hl (Option.some.inj h)
        simp [overlay, hkey, hl, DsConfig.value_set_of_ne cfg (Ne.symm hl)]

theorem foldl_loadLine_value (lines : List Text) :
    (lines.foldl (loadLine sys) cfg).value k =
      overlay sys k (lines.filterMap fun line =>
        (lineEntry line).bind fun e => if keyOf e.1 = some k then some e.2 else none)
          (cfg.value k) := by
  induction lines generalizing cfg with
  | nil => rfl
  | cons line lines ih =>
    rw [List.foldl_cons, ih, loadLine_value]
    cases hval : (lineEntry line).bind fun e =>
        if keyOf e.1 = some k then some e.2 else none with
    | none => simp [overlay, hval]
    | some val => simp [overlay, hval]

/-- **A key goes by its own lines.** -/
theorem dsConfigLoad_value :
    (dsConfigLoad sys text cfg).value k = overlay sys k (valuesOf k text) (cfg.value k) :=
  foldl_loadLine_value (fileLines text)

end Droidspaces.Config
