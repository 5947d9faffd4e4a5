import Droidspaces.Config.Save
import Droidspaces.Json.Document

/-!
# `info --format` and `show --format`

Both commands print their answer member by member.  Every document that the encoder closes decodes
to what it was given; what decides about an answer is what is printed around it
(`answer_decodes_iff`).
-/

namespace Droidspaces.Status

open Config Json

/-! ## The encoder -/

/-- What a document has been printed to, and whether its next member is the first. -/
structure Output where
  text : Text
  first : Bool

def Output.print (out : Output) (t : Text) : Output := { out with text := out.text ++ t }

/-- `"%s\"%s\":"`, with a comma unless `*first`. -/
def Output.printKey (out : Output) (key : Text) : Output :=
  { text := out.text ++ (if out.first then [] else [',']) ++ '"' :: key ++ "\":".toList,
    first := false }

/-- One byte of a string. -/
def jsonByte (c : Char) : Text :=
  if c = '"' ∨ c = '\\' then ['\\', c]
  else if c.toNat < 0x20 then
    "\\u".toList ++ ['0', '0', Nat.digitChar (c.toNat / 16), Nat.digitChar (c.toNat % 16)]
  else [c]

def dsJsonStr (key val : Text) (out : Output) : Output :=
  (out.printKey key).print ('"' :: val.flatMap jsonByte ++ ['"'])

def dsJsonInt (key : Text) (val : ℤ) (out : Output) : Output :=
  (out.printKey key).print (integer val)

/-- A call of `ds_json_str` or of `ds_json_int`.  The keys are literals of the source, which need
no escapes. -/
structure Member where
  key : String
  value : Text ⊕ ℤ
  plain : key.toList.flatMap Json.escape = key.toList

def str (key : String) (val : Text)
    (plain : key.toList.flatMap Json.escape = key.toList := by decide) : Member :=
  ⟨key, .inl val, plain⟩

def int (key : String) (val : ℤ)
    (plain : key.toList.flatMap Json.escape = key.toList := by decide) : Member :=
  ⟨key, .inr val, plain⟩

def Member.call (m : Member) (out : Output) : Output :=
  match m.value with
  | .inl val => dsJsonStr m.key.toList val out
  | .inr val => dsJsonInt m.key.toList val out

def calls (ms : List Member) (out : Output) : Output := ms.foldl (fun out m => m.call out) out

/-- `{`, the calls, `}` -/
def jsonObject (ms : List Member) : Text := '{' :: (calls ms ⟨[], true⟩).text ++ ['}']

/-- What a call is given. -/
def Member.json (m : Member) : List Char × Value :=
  (m.key.toList, match m.value with
    | .inl val => .string val
    | .inr val => .number val 0)

/-! ## The status of a container -/

/-- `struct ds_status` -/
structure DsStatus where
  name : Text
  pid : ℤ
  hostname : Text
  os : Text
  ip : Text
  uptimeSec : ℤ
  ramUsedKb : ℤ
  cpuPermill : ℤ

def dsFormatUptime (uptimeSec : ℤ) : Text :=
  if uptimeSec < 0 then "unknown".toList
  else
    let sec := uptimeSec.toNat
    let days := sec / 86400
    let hours := sec % 86400 / 3600
    let mins := sec % 3600 / 60
    (if 0 < days then decimal days ++ "d ".toList else []) ++
      (if 0 < hours ∨ 0 < days then decimal hours ++ "h ".toList else []) ++
      (if 0 < mins ∨ 0 < hours ∨ 0 < days then decimal mins ++ "m ".toList else []) ++
      decimal (sec % 60) ++ ['s']

/-- `ds_json_status` -/
def DsStatus.members (st : DsStatus) : List Member := [
  str "name" st.name,
  int "pid" st.pid,
  str "os" st.os,
  str "hostname" st.hostname,
  str "ip" st.ip,
  int "uptime_sec" st.uptimeSec,
  str "uptime" (dsFormatUptime st.uptimeSec),
  int "ram_used_kb" st.ramUsedKb,
  int "cpu_permill" st.cpuPermill]

/-! ## The host -/

/-- What `show_info` reads of a configuration. -/
structure InfoConfig where
  cfg : DsConfig
  containerPid : ℤ
  natContainerIp : Text
  envVarCount : ℕ
  /-- The flags of a display server have been set, be it to nothing. -/
  hasFlags : TextKey → Bool

/-- A running container in the directory of PID files. -/
structure Scanned where
  name : Text
  pid : ℤ
  /-- The name and the host name in the snapshot of its configuration. -/
  snapshot : Option (Text × Text)

/-- What the commands learn from the host. -/
structure Host where
  android : Bool
  architecture : Text
  /-- `/sys/fs/selinux/enforce` is there; SELinux is permissive. -/
  selinuxPermissive : Option Bool
  cgroupV2 : Bool
  memTotalKb : ℤ
  /-- `count_folders` -/
  folders : ℕ
  /-- What `count_running_containers` counts. -/
  counted : List Text
  /-- What `show_containers` finds, unless a directory or the memory fails it. -/
  scanned : Option (List Scanned)
  loadByName : Text → InfoConfig → InfoConfig
  /-- The PID that `is_container_running` leaves. -/
  pidOf : InfoConfig → ℤ
  os : ℤ → Text
  ip : ℤ → Text
  uptimeSec : ℤ → ℤ
  ramUsedKb : ℤ → ℤ
  cpuPermill : ℤ → ℤ
  /-- `ds_cgroup_get_usage`: memory, microseconds of CPU time, processes. -/
  usage : InfoConfig → ℤ × ℤ × ℤ
  formatSize : ℤ → Text
  /-- `%.2f` of a quota over a period. -/
  cores : ℤ → ℤ → Text
  /-- `%.1f` of the percentage of these cores that was in use for an uptime. -/
  average : ℤ → ℤ → ℤ → ℤ → Text
  /-- `%.3f` of microseconds as seconds. -/
  seconds : ℤ → Text

variable (host : Host)

/-- `ds_collect_status`, for one entry. -/
def collected (name : Text) (pid : ℤ) (hostname : Text) : DsStatus where
  name := name
  pid := pid
  hostname := hostname
  os := host.os pid
  ip := host.ip pid
  uptimeSec := host.uptimeSec pid
  ramUsedKb := host.ramUsedKb pid
  cpuPermill := host.cpuPermill pid

/-! ## `show_containers` -/

/-- The name and the host name are those of the snapshot, if there is one. -/
def Scanned.status (c : Scanned) : DsStatus :=
  let name := ((c.snapshot.map (·.1)).getD c.name).take 127
  let hostname := ((c.snapshot.map (·.2)).getD []).take 255
  collected host name c.pid (if hostname = [] then name else hostname)

/-- An entry of the list, with a comma before each but the first. -/
def listEntry (e : Scanned × ℕ) : Text :=
  (if e.2 = 0 then [] else [',']) ++ jsonObject (e.1.status host).members

def showContainers : Option Text :=
  host.scanned.map fun containers =>
    "\x7b\"total\":".toList ++ integer host.folders ++ ",\"ram_total_kb\":".toList ++
      integer host.memTotalKb ++ ",\"running\":[".toList ++
      (containers.zipIdx.map (listEntry host)).flatten ++ "]\x7d\n".toList

/-! ## `show_info` -/

def networkingMode : NetMode → Text
  | .nat => "NAT".toList
  | .none => "none".toList
  | .gateway => "gateway".toList
  | .host => "host".toList

/-- `snprintf` into a buffer of 1024 bytes, item by item while there is room. -/
def buffered (items : List Text) : Text := (joinComma items).take 1023

section Members

variable (c : InfoConfig)

def InfoConfig.text (k : TextKey) : Text := c.cfg.value (.text k)

def InfoConfig.flag (f : Flag) : ℤ := if c.cfg.value (.flag f) then 1 else 0

def InfoConfig.limit (l : Limit) : ℕ := c.cfg.value (.limit l)

def orElse (t default : Text) : Text := if t = [] then default else t

def netMembers : List Member :=
  match c.cfg.value .netMode with
  | .nat =>
    let ip := orElse (c.text .staticNatIp) c.natContainerIp
    (if ip = [] then [] else [str "nat_ip" ip]) ++
      match c.cfg.value .upstreamIfaces with
      | [] => []
      | ifaces => [str "upstream_interfaces" (buffered ifaces)]
  | .gateway => [
      str "gateway_container" (c.text .gatewayContainer),
      str "gateway_net" (orElse (c.text .gatewayNet) "lan".toList)] ++
    (if c.text .gatewayBridge = [] then [] else [str "gateway_bridge" (c.text .gatewayBridge)]) ++
    [str "gateway_iface" (orElse (c.text .gatewayLanIfname) "eth1".toList)]
  | _ => []

def flagsMember (key : String) (k : TextKey)
    (plain : key.toList.flatMap Json.escape = key.toList := by decide) : List Member :=
  if c.hasFlags k then [str key (c.text k) plain] else []

def displayMembers : List Member :=
  [int "termux_x11" (c.flag .termuxX11)] ++ flagsMember c "tx11_flags" .tx11ExtraFlags ++
    [int "wayland" (c.flag .wayland)] ++ flagsMember c "wayland_flags" .waylandExtraFlags ++
    [int "virgl" (c.flag .virgl)] ++ flagsMember c "virgl_flags" .virglExtraFlags ++
    [int "pulseaudio" (c.flag .pulseaudio)]

/-- A mask that is not empty has one of the four bits: `parse_privileged` sets no other. -/
def privilegedMembers : List Member :=
  let mask : ℕ := c.cfg.value .privileged
  if mask = 0 then [] else [str "privileged_mode" (privilegedText mask)]

/-- The calls between the braces, in their order. -/
def infoMembers (pid : ℤ) : List Member :=
  let ports : List PortForward := c.cfg.value .portForwards
  let binds : List CustomBinds.BindMount := c.cfg.value .binds
  [str "host_platform" (if host.android then "Android".toList else "Linux".toList),
    str "host_arch" host.architecture] ++
  (collected host ((c.text .name).take 127) pid ((c.text .hostname).take 255)).members ++
  [int "ram_total_kb" host.memTotalKb,
    str "networking_mode" (networkingMode (c.cfg.value .netMode))] ++
  netMembers c ++
  [int "disable_ipv6" (c.flag .disableIpv6)] ++
  (if host.android then [int "android_storage" (c.flag .androidStorage)] else []) ++
  [str "hw_access" (if c.cfg.value (.flag .hwAccess) then "full".toList
    else if c.cfg.value (.flag .gpuMode) then "GPU".toList else "none".toList)] ++
  (if host.android then displayMembers c else []) ++
  (match host.selinuxPermissive with
    | none => []
    | some permissive =>
      [str "selinux" (if permissive then "Permissive".toList else "Enforcing".toList)]) ++
  [int "volatile_mode" (c.flag .volatileMode),
    int "force_cgroup_v1" (c.flag .forceCgroupv1),
    int "sandboxing_allowed" (c.flag .sandboxingAllowed),
    int "vts_allowed" (c.flag .allowVts),
    int "foreground_mode" (c.flag .foreground),
    str "dns_servers" (c.text .dnsServers),
    str "port_forwards" (if ports = [] then [] else buffered (ports.map portForwardText))] ++
  privilegedMembers c ++
  [int "bind_mount_count" binds.length, int "env_var_count" c.envVarCount]

def green : Text := "\x1b[1;32m".toList

def reset : Text := "\x1b[0m".toList

/-- When the live usage is shown. -/
def showsResources (trustCfgPid : Bool) : Bool :=
  !trustCfgPid && (c.limit .memoryLimit != 0 || c.limit .cpuQuota != 0 || c.limit .pidsLimit != 0) &&
    !c.cfg.value (.flag .forceCgroupv1) && host.cgroupV2

def resources (pid : ℤ) : Text :=
  let (mu, cu, pu) := host.usage c
  let quota := c.limit .cpuQuota
  let period : ℕ := if c.limit .cpuPeriod = 0 then 100000 else c.limit .cpuPeriod
  '\n' :: green ++ "Resources:".toList ++ reset ++ ['\n'] ++
    (if c.limit .memoryLimit = 0 then [] else
      "  Memory : ".toList ++ (if 0 ≤ mu then host.formatSize mu else ['?']) ++ " / ".toList ++
        host.formatSize (c.limit .memoryLimit) ++ ['\n']) ++
    (if quota = 0 then [] else
      "  CPU    : ".toList ++ host.cores quota period ++ " cores".toList ++
        (if cu < 0 then []
        else if 0 < host.uptimeSec pid then
          " (Avg usage: ".toList ++ host.average cu (host.uptimeSec pid) quota period ++
            "%)".toList
        else " (used: ".toList ++ host.seconds cu ++ "s)".toList) ++ ['\n']) ++
    (if c.limit .pidsLimit = 0 then [] else
      "  PIDs   : limit ".toList ++ decimal (c.limit .pidsLimit) ++
        (if 0 ≤ pu then " (current: ".toList ++ integer pu ++ ")".toList else []) ++ ['\n'])

end Members

/-- What a container's name comes to. -/
inductive Target where
  | nobody
  | one (c : InfoConfig)
  | many

def target (c : InfoConfig) : Target :=
  if c.text .name ≠ [] then .one c
  else
    match host.counted with
    | [] => .nobody
    | [name] => .one { c with cfg := c.cfg.set (.text .name) (TextKey.stored .name name) }
    | _ => .many

/-- The configuration that is shown. -/
def shown (trustCfgPid : Bool) (c : InfoConfig) : InfoConfig :=
  if trustCfgPid then c else host.loadByName (c.text .name) c

def shownPid (trustCfgPid : Bool) (c : InfoConfig) : ℤ :=
  if trustCfgPid ∧ 0 < c.containerPid then c.containerPid else host.pidOf c

/-- `show_info` with `format_output` set, where it succeeds. -/
def showInfo (trustCfgPid : Bool) (c : InfoConfig) : Option Text :=
  match target host c with
  | .nobody =>
    some (green ++ "Host:".toList ++ reset ++ [' '] ++
      (if host.android then "Android".toList else "Linux".toList) ++ [' '] ++ host.architecture ++
      "\n\n\x1b[1;33mContainer:".toList ++ reset ++ " No containers running.\n\n".toList)
  | .many => showContainers host
  | .one c =>
    let c := shown host trustCfgPid c
    let pid := shownPid host trustCfgPid c
    if pid ≤ 0 then none
    else
      some (jsonObject (infoMembers host c pid) ++ ['\n'] ++
        (if showsResources host c trustCfgPid then resources host c pid else []) ++ ['\n'])

/-! ## What the encoder prints -/

/-- The encoder's escapes are those of the format. -/
theorem jsonByte_eq_escape (c : Char) : jsonByte c = Json.escape c := rfl

theorem text_call (m : Member) (out : Output) :
    m.call out = ⟨out.text ++ (if out.first then [] else [',']) ++
      (quoted m.key.toList ++ ':' :: print m.json.2), false⟩ := by
  have hkey : quoted m.key.toList = '"' :: m.key.toList ++ ['"'] := by rw [quoted, m.plain]
  obtain ⟨key, val | val, plain⟩ := m
  · rw [hkey]
    change Output.mk _ _ = _
    congr 1
    simp [Member.json, print, quoted, Output.printKey, funext jsonByte_eq_escape]
  · rw [hkey]
    change Output.mk _ _ = _
    congr 1
    simp [Member.json, print, Output.printKey]

theorem text_calls (ms : List Member) (t : Text) :
    (calls ms ⟨t, false⟩).text = t ++ moreMembers (ms.map Member.json) := by
  induction ms generalizing t with
  | nil => simp [calls, moreMembers]
  | cons m ms ih =>
    have hstep : calls (m :: ms) ⟨t, false⟩ = calls ms (m.call ⟨t, false⟩) := rfl
    rw [hstep, text_call, ih, List.map_cons, Member.json, moreMembers]
    simp

def objectOf (ms : List Member) : Value := .object (ms.map Member.json)

/-- **The three encoders write the object of what they are given.** -/
theorem jsonObject_eq_print (ms : List Member) : jsonObject ms = print (objectOf ms) := by
  cases ms with
  | nil => rfl
  | cons m ms =>
    have hstep : calls (m :: ms) ⟨[], true⟩ = calls ms (m.call ⟨[], true⟩) := rfl
    rw [jsonObject, hstep, text_call, text_calls, objectOf, List.map_cons, Member.json, print]
    simp

/-- What `show --format` is given. -/
def listing (containers : List Scanned) : Value := .object [
  ("total".toList, .number host.folders 0),
  ("ram_total_kb".toList, .number host.memTotalKb 0),
  ("running".toList, .array (containers.map fun c => objectOf (c.status host).members))]

/-- The loop over the containers writes an array. -/
theorem print_array (host : Host) (containers : List Scanned) :
    '[' :: (containers.zipIdx.map (listEntry host)).flatten ++ [']'] =
      print (.array (containers.map fun c => objectOf (c.status host).members)) := by
  have hmore (k : ℕ) (cs : List Scanned) :
      ((cs.zipIdx (k + 1)).map (listEntry host)).flatten =
        moreElements (cs.map fun c => objectOf (c.status host).members) := by
    induction cs generalizing k with
    | nil => rfl
    | cons c cs ih =>
      rw [List.zipIdx_cons, List.map_cons, List.flatten_cons, ih, List.map_cons, moreElements,
        listEntry, jsonObject_eq_print]
      rfl
  cases containers with
  | nil => rfl
  | cons c cs =>
    rw [List.zipIdx_cons, List.map_cons, List.flatten_cons, hmore, List.map_cons, print,
      listEntry, jsonObject_eq_print]
    rfl

theorem showContainers_eq (host : Host) :
    showContainers host = host.scanned.map fun cs => print (listing host cs) ++ ['\n'] := by
  unfold showContainers
  congr 1
  funext cs
  have harray := print_array host cs
  have htotal : quoted "total".toList = "\"total\"".toList := by decide
  have hram : quoted "ram_total_kb".toList = "\"ram_total_kb\"".toList := by decide
  have hrunning : quoted "running".toList = "\"running\"".toList := by decide
  rw [listing, print, moreMembers, moreMembers, moreMembers, ← harray, htotal, hram, hrunning]
  simp [print]

/-! ## The answers -/

/-- `info --format` and `show --format` -/
inductive Command where
  | info
  | list

def answer (c : InfoConfig) : Command → Option Text
  | .info => showInfo host false c
  | .list => showContainers host

/-- What the encoder is given for an answer, if it is called at all. -/
def given (c : InfoConfig) : Command → Option Value
  | .list => host.scanned.map (listing host)
  | .info =>
    match target host c with
    | .nobody => none
    | .many => host.scanned.map (listing host)
    | .one c =>
      let c := shown host false c
      some (objectOf (infoMembers host c (shownPid host false c)))

/-- The text is one document, which decodes to what the encoder was given. -/
def Decodes (out : Text) (given : Option Value) : Prop :=
  ∃ v, document out = some v ∧ ∀ w ∈ given, v = w

/-- Some container is shown, and no live usage of it. -/
def IsClean (c : InfoConfig) : Command → Prop
  | .list => True
  | .info =>
    match target host c with
    | .nobody => False
    | .many => True
    | .one c => showsResources host (shown host false c) false = false

theorem document_escape (t : Text) : document ('\x1b' :: t) = none := by
  have hword {w : String} {d : Char} {ds : List Char} (hw : w.toList = d :: ds) (v : Value)
      (hd : '\x1b' ≠ d) : readWord w v ('\x1b' :: t) = none := readWord_of_ne hw v hd t
  rw [document, readValue]
  have hskip : skip ('\x1b' :: t) = '\x1b' :: t := rfl
  have hnumber : readNumber ('\x1b' :: t) = none := rfl
  rw [hskip]
  dsimp only
  rw [if_neg (by decide), if_neg (by decide), if_neg (by decide), hword rfl _ (by decide),
    hword rfl _ (by decide), hword rfl _ (by decide), hnumber]
  rfl

theorem ends_newline (t : Text) : Ends ('\n' :: t) :=
  fun c hc => Option.some.inj hc ▸ by decide

theorem decodes_print (v : Value) {t : Text} (ht : skip t = []) :
    Decodes (print v ++ '\n' :: t) (some v) := by
  refine ⟨v, ?_, fun w hw => Option.some.inj hw⟩
  have hskip : skip ('\n' :: t) = [] := ht
  rw [document_print v (ends_newline t), if_pos hskip]

theorem exists_resources_eq_cons (c : InfoConfig) (pid : ℤ) :
    ∃ t, resources host c pid = '\n' :: '\x1b' :: t := ⟨_, rfl⟩

theorem not_decodes_resources (v : Value) (c : InfoConfig) (pid : ℤ) :
    ¬ Decodes (print v ++ '\n' :: (resources host c pid ++ ['\n'])) (some v) := by
  rintro ⟨w, hw, -⟩
  obtain ⟨t, ht⟩ := exists_resources_eq_cons host c pid
  have hskip : skip ('\n' :: (resources host c pid ++ ['\n'])) ≠ [] := by
    rw [ht]
    exact List.cons_ne_nil _ _
  rw [document_print v (ends_newline _), if_neg hskip] at hw
  cases hw

theorem decodes_showContainers {out : Text}
    (hout : showContainers host = some out) :
    Decodes out (host.scanned.map (listing host)) := by
  rw [showContainers_eq, Option.map_eq_some_iff] at hout
  obtain ⟨cs, hcs, rfl⟩ := hout
  rw [hcs]
  exact decodes_print (listing host cs) rfl

variable {host} {c c' : InfoConfig}

/-- What is printed when there is a container to show. -/
theorem answer_one (htarget : target host c = .one c') {out : Text}
    (hout : answer host c .info = some out) :
    ∃ v, given host c .info = some v ∧ out = print v ++ '\n' ::
      ((if showsResources host (shown host false c') false then
        resources host (shown host false c') (shownPid host false (shown host false c'))
      else []) ++ ['\n']) := by
  unfold answer showInfo at hout
  unfold given
  rw [htarget] at hout ⊢
  dsimp only at hout ⊢
  split at hout
  · cases hout
  · refine ⟨_, rfl, ?_⟩
    rw [← Option.some.inj hout, jsonObject_eq_print]
    simp

theorem decodes_one_iff (htarget : target host c = .one c') {out : Text}
    (hout : answer host c .info = some out) :
    Decodes out (given host c .info) ↔
      showsResources host (shown host false c') false = false := by
  obtain ⟨v, hgiven, rfl⟩ := answer_one htarget hout
  rw [hgiven]
  cases showsResources host (shown host false c') false with
  | false => exact iff_of_true (decodes_print v rfl) rfl
  | true => exact iff_of_false (not_decodes_resources host v _ _) Bool.noConfusion

/-- **When an answer decodes.** -/
theorem answer_decodes_iff {cmd : Command} {out : Text} (hout : answer host c cmd = some out) :
    Decodes out (given host c cmd) ↔ IsClean host c cmd := by
  cases cmd with
  | list => exact iff_of_true (decodes_showContainers host hout) trivial
  | info =>
    cases htarget : target host c with
    | one c' =>
      unfold IsClean
      rw [htarget]
      exact decodes_one_iff htarget hout
    | nobody =>
      unfold answer showInfo at hout
      unfold IsClean
      rw [htarget] at hout ⊢
      refine iff_of_false ?_ not_false
      rintro ⟨v, hv, -⟩
      obtain ⟨t, ht⟩ : ∃ t, out = '\x1b' :: t := ⟨_, (Option.some.inj hout).symm⟩
      rw [ht, document_escape] at hv
      cases hv
    | many =>
      unfold answer showInfo at hout
      unfold given IsClean
      rw [htarget] at hout ⊢
      exact iff_of_true (decodes_showContainers host hout) trivial

/-- A phone with one container, which runs. -/
def phone : Host where
  android := true
  architecture := "aarch64".toList
  selinuxPermissive := some false
  cgroupV2 := true
  memTotalKb := 7812500
  folders := 1
  counted := ["web".toList]
  scanned := some [⟨"web".toList, 4242, none⟩]
  loadByName _ c := c
  pidOf _ := 4242
  os _ := "Alpine \"3.20\"\t".toList
  ip _ := "172.28.0.2".toList
  uptimeSec _ := 90061
  ramUsedKb _ := 20480
  cpuPermill _ := 3
  usage _ := (20971520, 5000000, 12)
  formatSize n := integer n ++ " B".toList
  cores quota period := integer (quota / period)
  average _ _ _ _ := "0.0".toList
  seconds n := integer n

/-- `info --format` without a name, for a container with a limit on its memory. -/
def limitedBy (bytes : ℕ) : InfoConfig where
  cfg := defaults.set (.limit .memoryLimit) bytes
  containerPid := 0
  natContainerIp := []
  envVarCount := 0
  hasFlags _ := false

theorem answer_decodes_iff_phone : ∃ out, answer phone (limitedBy 0) .info = some out ∧
    (Decodes out (given phone (limitedBy 0) .info) ↔ IsClean phone (limitedBy 0) .info) :=
  ⟨_, rfl, answer_decodes_iff rfl⟩

/-- The usage of a limited container stands behind the document. -/
theorem answer_with_usage : ¬ ∀ (host : Host) (c : InfoConfig) (cmd : Command) (out : Text),
    answer host c cmd = some out → Decodes out (given host c cmd) := by
  intro h
  have hout : ∃ out, answer phone (limitedBy 536870912) .info = some out := ⟨_, rfl⟩
  obtain ⟨out, hout⟩ := hout
  have hshows := (decodes_one_iff rfl hout).1 (h _ _ _ _ hout)
  exact absurd hshows (by decide)

end Droidspaces.Status
