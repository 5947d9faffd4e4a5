import Droidspaces.Binary.Codec
import Droidspaces.Config.Typed
import Droidspaces.Socketd.EventLog
import Droidspaces.Socketd.ListContainers

/-!
# The records of the bridge protocol

`socketd_protocol.h` fixes, byte for byte, what the bridge and its client send each other.  Every
packed structure is a codec here, in the order of its fields; what the bridge packs into one of them
comes back at the client as long as the configuration has values of the C types (`IsTyped`).
-/

namespace Droidspaces.Socketd

open Binary Config

/-! ## Texts -/

def toBytes (t : Text) : Bytes := t.map fun c => UInt8.ofNat c.toNat

def ofBytes (bs : Bytes) : Text := bs.map fun b => Char.ofNat b.toNat

/-- `char field[n + 1]`, filled by `safe_strncpy` -/
def text (n : ℕ) : Codec Text := (Codec.cString n).map ofBytes toBytes

theorem toNat_byte {c : Char} (h : IsCChar c) : (UInt8.ofNat c.toNat).toNat = c.toNat := by
  rw [UInt8.toNat_ofNat', Nat.mod_eq_of_lt h.2]

theorem text_fits {n : ℕ} {t : Text} (hlen : t.length ≤ n) (h : ∀ c ∈ t, IsCChar c) :
    (text n).Fits t := by
  refine ⟨⟨by rwa [toBytes, List.length_map], fun b hb => ?_⟩, ?_⟩
  · obtain ⟨c, hc, rfl⟩ := List.mem_map.1 hb
    intro hzero
    have := toNat_byte (h c hc)
    rw [hzero] at this
    exact absurd this.symm (Nat.ne_of_gt (h c hc).1)
  · rw [ofBytes, toBytes, List.map_map]
    refine (List.map_congr_left fun c hc => ?_).trans (List.map_id t)
    rw [Function.comp_apply, toNat_byte (h c hc), Char.ofNat_toNat, id]

/-! ## Frames -/

/-- `enum ds_socketd_opcode` -/
inductive Opcode where
  | ping
  | capabilities
  | info
  | listContainers
  | inspectContainer
  | startContainer
  | stopContainer
  | restartContainer
  | listImages
  | pollEvents
  deriving DecidableEq

def opcodeOf : ℕ → Option Opcode
  | 1 => some .ping
  | 2 => some .capabilities
  | 3 => some .info
  | 4 => some .listContainers
  | 5 => some .inspectContainer
  | 6 => some .startContainer
  | 7 => some .stopContainer
  | 8 => some .restartContainer
  | 9 => some .listImages
  | 10 => some .pollEvents
  | _ => none

def Opcode.code : Opcode → ℕ
  | ping => 1
  | capabilities => 2
  | info => 3
  | listContainers => 4
  | inspectContainer => 5
  | startContainer => 6
  | stopContainer => 7
  | restartContainer => 8
  | listImages => 9
  | pollEvents => 10

/-- `enum ds_socketd_status` -/
inductive Status where
  | ok
  | badRequest
  | unsupported
  | notFound
  | internalError
  | forbidden
  | alreadyRunning
  | alreadyStopped
  deriving DecidableEq

def Status.code : Status → ℕ
  | ok => 0
  | badRequest => 1
  | unsupported => 2
  | notFound => 3
  | internalError => 4
  | forbidden => 5
  | alreadyRunning => 6
  | alreadyStopped => 7

def statusOf : ℕ → Option Status
  | 0 => some .ok
  | 1 => some .badRequest
  | 2 => some .unsupported
  | 3 => some .notFound
  | 4 => some .internalError
  | 5 => some .forbidden
  | 6 => some .alreadyRunning
  | 7 => some .alreadyStopped
  | _ => none

/-- What `socketd_load_config_by_ref` answers. -/
def SocketdStatus.status : SocketdStatus → Status
  | .ok => .ok
  | .badRequest => .badRequest
  | .notFound => .notFound
  | .internalError => .internalError

/-- `struct ds_socketd_request_header`, and `struct ds_socketd_response_header` with a status for
the opcode. -/
structure Header where
  magic : ℕ
  version : ℕ
  code : ℕ
  payloadLen : ℕ
  deriving DecidableEq

/-- `DS_SOCKETD_PROTO_MAGIC` -/
def protoMagic : ℕ := 0x44534150

/-- `DS_SOCKETD_PROTO_VERSION` -/
def protoVersion : ℕ := 1

def header : Codec Header :=
  ((Codec.number 4).pair <| (Codec.number 2).pair <| (Codec.number 2).pair (Codec.number 4)).map
    (fun (magic, version, code, payloadLen) => ⟨magic, version, code, payloadLen⟩)
    fun h => (h.magic, h.version, h.code, h.payloadLen)

/-- What `socketd_send_response` writes. -/
def response (status : Status) (payload : Bytes) : Bytes :=
  header.put ⟨protoMagic, protoVersion, status.code, payload.length⟩ ++ payload

/-- What a client makes of it. -/
def readResponse (bs : Bytes) : Option (Status × Bytes) :=
  let h := header.get bs
  if h.magic = protoMagic ∧ h.version = protoVersion ∧ bs.length = header.size + h.payloadLen then
    (statusOf h.code).map fun status => (status, bs.drop header.size)
  else none

theorem header_fits {h : Header} (hmagic : h.magic < 2 ^ 32) (hversion : h.version < 2 ^ 16)
    (hcode : h.code < 2 ^ 16) (hlen : h.payloadLen < 2 ^ 32) : header.Fits h :=
  ⟨⟨hmagic, hversion, hcode, hlen⟩, rfl⟩

theorem Status.code_lt (status : Status) : status.code < 2 ^ 16 := by
  cases status <;> decide

@[simp] theorem statusOf_code (status : Status) : statusOf status.code = some status := by
  cases status <;> rfl

theorem Opcode.code_lt (opcode : Opcode) : opcode.code < 2 ^ 16 := by
  cases opcode <;> decide

@[simp] theorem opcodeOf_code (opcode : Opcode) : opcodeOf opcode.code = some opcode := by
  cases opcode <;> rfl

/-- **A response is read as it was sent.** -/
theorem readResponse_response (status : Status) {payload : Bytes} (h : payload.length < 2 ^ 32) :
    readResponse (response status payload) = some (status, payload) := by
  have hget := header.get_put ⟨protoMagic, protoVersion, status.code, payload.length⟩ payload
    (header_fits (by show 0x44534150 < _; decide) (by show 1 < _; decide) status.code_lt h)
  simp only [readResponse, response, hget, List.length_append, Codec.length_put, and_self, if_true,
    statusOf_code, Option.map_some, Codec.drop_put]

/-! ## Containers -/

/-- `net_mode` of a record -/
def NetMode.toByte : NetMode → ℕ
  | .host => 0
  | .nat => 1
  | .none => 2
  | .gateway => 3

def NetMode.ofByte : ℕ → NetMode
  | 0 => .host
  | 1 => .nat
  | 2 => .none
  | _ => .gateway

def netMode : Codec NetMode := (Codec.number 1).map NetMode.ofByte NetMode.toByte

theorem netMode_fits (mode : NetMode) : netMode.Fits mode := by
  cases mode
  all_goals exact ⟨Codec.number_fits.2 (by decide), rfl⟩

/-- `struct ds_socketd_port_record` -/
def portRecord : Codec PortRecord :=
  ((Codec.number 2).pair <| (Codec.number 2).pair <| (Codec.number 2).pair <|
    (Codec.number 2).pair <| Codec.flag.pair (Codec.unused [0, 0, 0])).map
    (fun (hostPort, hostPortEnd, containerPort, containerPortEnd, udp, _) =>
      ⟨hostPort, hostPortEnd, containerPort, containerPortEnd, udp⟩)
    fun r => (r.hostPort, r.hostPortEnd, r.containerPort, r.containerPortEnd, r.udp, ())

/-- A slot that `memset` has left empty. -/
def noPort : PortRecord := ⟨0, 0, 0, 0, false⟩

def portSlots : Codec (List PortRecord) := Codec.slots 16 portRecord noPort

/-- `struct ds_socketd_container_record` -/
def containerRecord : Codec ContainerRecord :=
  ((text 255).pair <| (text 32).pair <| (text 1023).pair <| (text 255).pair <| (text 15).pair <|
    (text 1023).pair <| (Codec.signed 4).pair <| netMode.pair <| (Codec.number 1).pair <|
    (Codec.unused [0, 0]).pair <| portSlots.pair (Codec.signed 8)).map
    (fun (name, uuid, rootfsPath, hostname, natIp, customInit, pid, mode, portCount, _, ports,
      startedAt) => ⟨name, uuid, rootfsPath, hostname, natIp, customInit, pid, mode,
        ports.take portCount, startedAt⟩)
    fun r => (r.name, r.uuid, r.rootfsPath, r.hostname, r.natIp, r.customInit, r.pid, r.netMode,
      r.ports.length, (), Codec.fill 16 noPort r.ports, r.startedAt)

example : containerRecord.size = containerRecordSize := rfl

/-- `struct ds_socketd_image_record` -/
structure ImageRecord where
  name : Text
  rootfsPath : Text
  uuid : Text
  isRunning : Bool
  createdAt : ℤ

def imageRecord : Codec ImageRecord :=
  ((text 255).pair <| (text 1023).pair <| (text 32).pair <| (Codec.number 4).pair <|
    (Codec.signed 8).pair (Codec.unused [0, 0, 0, 0])).map
    (fun (name, rootfsPath, uuid, isRunning, createdAt, _) =>
      ⟨name, rootfsPath, uuid, isRunning ≠ 0, createdAt⟩)
    fun r => (r.name, r.rootfsPath, r.uuid, if r.isRunning then 1 else 0, r.createdAt, ())

/-- `socketd_pack_image_record` -/
def packImageRecord (cfg : DsConfig) (isRunning : Bool) : ImageRecord where
  name := (nameOf cfg).take 255
  rootfsPath :=
    let rootfs := cfg.value .rootfs
    if rootfs.img ≠ [] then rootfs.img.take 1023 else rootfs.path.take 1023
  uuid := (uuidOf cfg).take 32
  isRunning := isRunning
  createdAt := 0

/-- `struct ds_socketd_env_record` -/
def envRecord : Codec EnvVar :=
  ((text 255).pair (text 1023)).map (fun (key, value) => ⟨key, value⟩) fun v => (v.key, v.value)

/-- `struct ds_socketd_bind_record` -/
def bindRecord : Codec CustomBinds.BindMount :=
  ((text 1023).pair <| (text 1023).pair <| Codec.flag.pair (Codec.unused [0, 0, 0])).map
    (fun (src, dest, ro, _) => ⟨src, dest, ro⟩) fun b => (b.src, b.dest, b.ro, ())

/-- The bytes from `net_mode` on. -/
structure InspectFlags where
  netMode : NetMode
  foreground : Bool
  volatileMode : Bool
  forceCgroupv1 : Bool
  disableIpv6 : Bool
  androidStorage : Bool
  selinuxPermissive : Bool
  hwAccess : Bool
  gpuMode : Bool
  termuxX11 : Bool
  isImgMount : Bool

/-- How many entries are there, and how many the configuration has. -/
structure Counts where
  env : ℕ
  envTotal : ℕ
  bind : ℕ
  bindTotal : ℕ
  port : ℕ
  portTotal : ℕ

/-- `struct ds_socketd_inspect_container_record_v1` -/
structure InspectRecord where
  recordVersion : ℕ
  recordSize : ℕ
  name : Text
  uuid : Text
  rootfsPath : Text
  imageRef : Text
  hostname : Text
  natIp : Text
  customInit : Text
  dnsServers : Text
  pid : ℤ
  startedAt : ℤ
  memoryLimit : ℤ
  cpuQuota : ℤ
  cpuPeriod : ℤ
  pidsLimit : ℤ
  privilegedMask : ℤ
  flags : InspectFlags
  envTotal : ℕ
  bindTotal : ℕ
  portTotal : ℕ
  env : List EnvVar
  binds : List CustomBinds.BindMount
  ports : List PortRecord

def inspectFlags : Codec InspectFlags :=
  (netMode.pair <| Codec.flag.pair <| Codec.flag.pair <| Codec.flag.pair <| Codec.flag.pair <|
    Codec.flag.pair <| Codec.flag.pair <| Codec.flag.pair <| Codec.flag.pair <| Codec.flag.pair <|
    (Codec.unused [0]).pair Codec.flag).map
    (fun (mode, foreground, volatileMode, forceCgroupv1, disableIpv6, androidStorage,
      selinuxPermissive, hwAccess, gpuMode, termuxX11, _, isImgMount) =>
      ⟨mode, foreground, volatileMode, forceCgroupv1, disableIpv6, androidStorage,
        selinuxPermissive, hwAccess, gpuMode, termuxX11, isImgMount⟩)
    fun r => (r.netMode, r.foreground, r.volatileMode, r.forceCgroupv1, r.disableIpv6,
      r.androidStorage, r.selinuxPermissive, r.hwAccess, r.gpuMode, r.termuxX11, (), r.isImgMount)

def counts : Codec Counts :=
  ((Codec.number 2).pair <| (Codec.number 2).pair <| (Codec.number 2).pair <|
    (Codec.number 2).pair <| (Codec.number 2).pair (Codec.number 2)).map
    (fun (env, envTotal, bind, bindTotal, port, portTotal) =>
      ⟨env, envTotal, bind, bindTotal, port, portTotal⟩)
    fun c => (c.env, c.envTotal, c.bind, c.bindTotal, c.port, c.portTotal)

def noEnv : EnvVar := ⟨[], []⟩

def noBind : CustomBinds.BindMount := ⟨[], [], false⟩

def inspectRecord : Codec InspectRecord :=
  ((Codec.number 2).pair <| (Codec.unused [0, 0]).pair <| (Codec.number 4).pair <|
    (text 255).pair <| (text 32).pair <| (text 1023).pair <| (text 1023).pair <|
    (text 255).pair <| (text 15).pair <| (text 1023).pair <| (text 1023).pair <|
    (Codec.signed 4).pair <| (Codec.signed 8).pair <| (Codec.signed 8).pair <|
    (Codec.signed 8).pair <| (Codec.signed 8).pair <| (Codec.signed 8).pair <|
    (Codec.signed 4).pair <| inspectFlags.pair <| counts.pair <|
    (Codec.slots 32 envRecord noEnv).pair <| (Codec.slots 32 bindRecord noBind).pair portSlots).map
    (fun (recordVersion, _, recordSize, name, uuid, rootfsPath, imageRef, hostname, natIp,
      customInit, dnsServers, pid, startedAt, memoryLimit, cpuQuota, cpuPeriod, pidsLimit,
      privilegedMask, flags, n, env, binds, ports) =>
      ⟨recordVersion, recordSize, name, uuid, rootfsPath, imageRef, hostname, natIp, customInit,
        dnsServers, pid, startedAt, memoryLimit, cpuQuota, cpuPeriod, pidsLimit, privilegedMask,
        flags, n.envTotal, n.bindTotal, n.portTotal, env.take n.env, binds.take n.bind,
        ports.take n.port⟩)
    fun r => (r.recordVersion, (), r.recordSize, r.name, r.uuid, r.rootfsPath, r.imageRef,
      r.hostname, r.natIp, r.customInit, r.dnsServers, r.pid, r.startedAt, r.memoryLimit,
      r.cpuQuota, r.cpuPeriod, r.pidsLimit, r.privilegedMask, r.flags,
      ⟨r.env.length, r.envTotal, r.binds.length, r.bindTotal, r.ports.length, r.portTotal⟩,
      Codec.fill 32 noEnv r.env, Codec.fill 32 noBind r.binds, Codec.fill 16 noPort r.ports)

/-- `socketd_pack_inspect_record`.  A configuration that is loaded has no `nat_container_ip`, and
`env` are its `env_vars`. -/
def packInspectRecord (startedAt : ℤ → ℤ) (cfg : DsConfig) (env : List EnvVar) (pid : ℤ) :
    InspectRecord where
  recordVersion := 1
  recordSize := inspectRecord.size
  name := (nameOf cfg).take 255
  uuid := (uuidOf cfg).take 32
  rootfsPath := (cfg.value .rootfs).path.take 1023
  imageRef :=
    let rootfs := cfg.value .rootfs
    (if rootfs.img ≠ [] then rootfs.img else rootfs.path).take 1023
  hostname := (cfg.value (.text .hostname)).take 255
  natIp := if cfg.value .netMode = .nat then (cfg.value (.text .staticNatIp)).take 15 else []
  customInit := (cfg.value (.text .customInit)).take 1023
  dnsServers := (cfg.value (.text .dnsServers)).take 1023
  pid := if 0 < pid then pid else 0
  startedAt := if 0 < pid then startedAt pid else 0
  memoryLimit := cfg.value (.limit .memoryLimit)
  cpuQuota := cfg.value (.limit .cpuQuota)
  cpuPeriod := cfg.value (.limit .cpuPeriod)
  pidsLimit := cfg.value (.limit .pidsLimit)
  privilegedMask := cfg.value .privileged
  flags := {
    netMode := cfg.value .netMode
    foreground := cfg.value (.flag .foreground)
    volatileMode := cfg.value (.flag .volatileMode)
    forceCgroupv1 := cfg.value (.flag .forceCgroupv1)
    disableIpv6 := cfg.value (.flag .disableIpv6)
    androidStorage := cfg.value (.flag .androidStorage)
    selinuxPermissive := cfg.value (.flag .selinuxPermissive)
    hwAccess := cfg.value (.flag .hwAccess)
    gpuMode := cfg.value (.flag .gpuMode)
    termuxX11 := cfg.value (.flag .termuxX11)
    isImgMount := (cfg.value .rootfs).isImg }
  envTotal := min env.length 65535
  bindTotal := min (cfg.value .binds).length 65535
  portTotal := min (cfg.value .portForwards).length 65535
  env := (env.take 32).map fun v => ⟨v.key.take 255, v.value.take 1023⟩
  binds := ((cfg.value .binds).take 32).map fun b => ⟨b.src.take 1023, b.dest.take 1023, b.ro⟩
  ports := ((cfg.value .portForwards).take 16).map packPortRecord

/-- `struct ds_socketd_info_payload` -/
structure InfoPayload where
  total : ℕ
  running : ℕ
  stopped : ℕ

def infoPayload : Codec InfoPayload :=
  ((Codec.number 4).pair <| (Codec.number 4).pair (Codec.number 4)).map
    (fun (total, running, stopped) => ⟨total, running, stopped⟩)
    fun i => (i.total, i.running, i.stopped)

/-! ## What fits -/

theorem text_fits_take {n : ℕ} {t : Text} (h : ∀ c ∈ t, IsCChar c) : (text n).Fits (t.take n) :=
  text_fits (List.length_take_le n t) fun c hc => h c (List.mem_of_mem_take hc)

theorem text_fits_nil (n : ℕ) : (text n).Fits [] :=
  text_fits (Nat.zero_le n) fun _ hc => absurd hc List.not_mem_nil

theorem portRecord_fits {pf : PortForward} (h : pf.hostPort < 2 ^ 16 ∧ pf.hostPortEnd < 2 ^ 16 ∧
    pf.containerPort < 2 ^ 16 ∧ pf.containerPortEnd < 2 ^ 16) :
    portRecord.Fits (packPortRecord pf) :=
  ⟨⟨h.1, h.2.1, h.2.2.1, h.2.2.2, trivial, trivial⟩, rfl⟩

theorem noPort_fits : portRecord.Fits noPort :=
  have hzero : (0 : ℕ) < 2 ^ 16 := by decide
  ⟨⟨hzero, hzero, hzero, hzero, trivial, trivial⟩, rfl⟩

theorem natCast_fits {v : ℕ} (h : v < 2 ^ 63) : (Codec.signed 8).Fits v := by
  rw [Codec.signed_fits]
  omega

theorem natCast_fits_int32 {v : ℕ} (h : v < 2 ^ 31) : (Codec.signed 4).Fits v := by
  rw [Codec.signed_fits]
  omega

section Fits

variable {cfg : DsConfig} (h : IsTyped cfg) {startedAt : ℤ → ℤ} {pid : ℤ}

include h

/-- The ports of a record, of which there are 16 at most. -/
theorem portSlots_fits : portSlots.Fits
    (Codec.fill 16 noPort (((cfg.value .portForwards).take 16).map packPortRecord)) := by
  refine Codec.slots_fits noPort_fits fun r hr => ?_
  obtain ⟨pf, hpf, rfl⟩ := List.mem_map.1 hr
  exact portRecord_fits (h.ports pf (List.mem_of_mem_take hpf))

theorem imageRef_cchars (c : Char) (hc : c ∈ if (cfg.value .rootfs).img ≠ [] then
    (cfg.value .rootfs).img else (cfg.value .rootfs).path) : IsCChar c := by
  revert c
  split
  · exact h.img
  · exact h.path

theorem natIp_fits : (text 15).Fits
    (if cfg.value .netMode = .nat then (cfg.value (.text .staticNatIp)).take 15 else []) := by
  split
  · exact text_fits_take (h.texts .staticNatIp)
  · exact text_fits_nil 15

omit h in
theorem pid_fits (hpid : pid < 2 ^ 31) : (Codec.signed 4).Fits (if 0 < pid then pid else 0) := by
  rw [Codec.signed_fits]
  split <;> omega

omit h in
theorem startedAt_fits (hstarted : ∀ pid, 0 ≤ startedAt pid ∧ startedAt pid < 2 ^ 63) :
    (Codec.signed 8).Fits (if 0 < pid then startedAt pid else 0) := by
  have := hstarted pid
  rw [Codec.signed_fits]
  split <;> omega

/-- **What is packed for a list comes back.** -/
theorem containerRecord_fits (hpid : pid < 2 ^ 31)
    (hstarted : ∀ pid, 0 ≤ startedAt pid ∧ startedAt pid < 2 ^ 63) :
    containerRecord.Fits (packContainerRecord startedAt cfg pid) := by
  have hports : (((cfg.value .portForwards).take 16).map packPortRecord).length ≤ 16 := by
    rw [List.length_map]
    exact List.length_take_le 16 _
  refine ⟨⟨text_fits_take (h.texts .name), text_fits_take (h.texts .uuid),
    text_fits_take (imageRef_cchars h), text_fits_take (h.texts .hostname), natIp_fits h,
    text_fits_take (h.texts .customInit), pid_fits hpid, netMode_fits _, ?_, trivial,
    portSlots_fits h, startedAt_fits hstarted⟩, ?_⟩
  · exact Codec.number_fits.2 (Nat.lt_of_le_of_lt hports (by decide))
  · simp only [packContainerRecord, Codec.take_fill hports]

theorem imageRecord_fits (isRunning : Bool) :
    imageRecord.Fits (packImageRecord cfg isRunning) := by
  refine ⟨⟨text_fits_take (h.texts .name), ?_, text_fits_take (h.texts .uuid), ?_,
    natCast_fits (show 0 < 2 ^ 63 by decide), trivial⟩, ?_⟩
  · rw [packImageRecord]
    dsimp only
    split
    · exact text_fits_take h.img
    · exact text_fits_take h.path
  · cases isRunning
    · exact Codec.number_fits.2 (show 0 < _ by decide)
    · exact Codec.number_fits.2 (show 1 < _ by decide)
  · cases isRunning <;> rfl

/-- **What is packed for an inspection comes back.** -/
theorem inspectRecord_fits (hpid : pid < 2 ^ 31)
    (hstarted : ∀ pid, 0 ≤ startedAt pid ∧ startedAt pid < 2 ^ 63) {env : List EnvVar}
    (henv : ∀ v ∈ env, (∀ c ∈ v.key, IsCChar c) ∧ ∀ c ∈ v.value, IsCChar c) :
    inspectRecord.Fits (packInspectRecord startedAt cfg env pid) := by
  have hlen {α β : Type} (n : ℕ) (f : α → β) (l : List α) : ((l.take n).map f).length ≤ n := by
    rw [List.length_map]
    exact List.length_take_le n l
  have hcount {α β : Type} {n : ℕ} (hn : n < 256 ^ 2) (f : α → β) (l : List α) :
      (Codec.number 2).Fits ((l.take n).map f).length :=
    Codec.number_fits.2 (Nat.lt_of_le_of_lt (hlen n f l) hn)
  have htotal (n : ℕ) : (Codec.number 2).Fits (min n 65535) :=
    Codec.number_fits.2 (Nat.lt_of_le_of_lt (Nat.min_le_right n 65535) (by decide))
  refine ⟨⟨Codec.number_fits.2 (show 1 < _ by decide), trivial,
    Codec.number_fits.2 (show inspectRecord.size < _ by decide),
    text_fits_take (h.texts .name), text_fits_take (h.texts .uuid), text_fits_take h.path,
    text_fits_take (imageRef_cchars h), text_fits_take (h.texts .hostname), natIp_fits h,
    text_fits_take (h.texts .customInit), text_fits_take (h.texts .dnsServers), pid_fits hpid,
    startedAt_fits hstarted, natCast_fits (h.limit _), natCast_fits (h.limit _),
    natCast_fits (h.limit _), natCast_fits (h.limit _), natCast_fits_int32 h.privileged,
    ⟨⟨netMode_fits _, trivial, trivial, trivial, trivial, trivial, trivial, trivial, trivial,
      trivial, trivial, trivial⟩, rfl⟩, ⟨⟨hcount (by decide) _ _, htotal _,
      hcount (by decide) _ _, htotal _, hcount (by decide) _ _, htotal _⟩, rfl⟩,
    Codec.slots_fits ⟨⟨text_fits_nil _, text_fits_nil _⟩, rfl⟩ fun v hv => ?_,
    Codec.slots_fits ⟨⟨text_fits_nil _, text_fits_nil _, trivial, trivial⟩, rfl⟩ fun b hb => ?_,
    portSlots_fits h⟩, ?_⟩
  · obtain ⟨w, hw, rfl⟩ := List.mem_map.1 hv
    obtain ⟨hkey, hvalue⟩ := henv w (List.mem_of_mem_take hw)
    exact ⟨⟨text_fits_take hkey, text_fits_take hvalue⟩, rfl⟩
  · obtain ⟨c, hc, rfl⟩ := List.mem_map.1 hb
    obtain ⟨hsrc, hdest⟩ := h.binds c (List.mem_of_mem_take hc)
    exact ⟨⟨text_fits_take hsrc, text_fits_take hdest, trivial, trivial⟩, rfl⟩
  · simp only [packInspectRecord, Codec.take_fill (hlen _ _ _)]

end Fits

end Droidspaces.Socketd
