import Droidspaces.Socketd.Wire
import Droidspaces.Transition.Trace

/-!
# A connection to the bridge

`socketd_handle_conn` reads one request and answers it.  What it asks its client and the host for
are operations, with any answers that these may give: a client may go away or stop in the middle,
and a container may start or end between two looks at it.
-/

namespace Droidspaces.Socketd

open Binary Config Transition

/-! ## What is asked for -/

/-- What `fopen` finds where the events are kept, and what is read from it. -/
inductive EventFile where
  | missing
  | unreadable
  | contents (bytes : Bytes)

/-- What `socketd_load_config_by_ref` comes back with. -/
inductive LoadAnswer where
  | found (loaded : Loaded)
  | refused (status : SocketdStatus) (h : status ≠ .ok)

inductive BridgeOp where
  | peerAuthorized
  | readExact (n : ℕ)
  | send (status : Status) (payload : Bytes)
  | countInstalled
  | countRunning
  | listContainers (includeAll : Bool)
  | listImages
  | loadConfig (target : Text)
  | isRunning (cfg : DsConfig)
  | startedAt (pid : ℤ)
  | readEvents
  /-- `access(path, F_OK)` -/
  | pathExists (path : Text)
  /-- `socketd_validate_kernel_version` -/
  | kernelVersion
  /-- `check_requirements_hw` -/
  | requirements (hwAccess : Bool)
  /-- `check_ns(CLONE_NEWNET, "net")` -/
  | netNamespaces
  | prepareRuntime (cfg : DsConfig)
  | startRootfs (cfg : DsConfig)
  | stopRootfs (cfg : DsConfig) (timeout : ℤ)
  | restartRootfs (cfg : DsConfig) (timeout : ℤ)
  | recordRestart (cfg : DsConfig)

/-- Records that fit into a payload. -/
abbrev Records {α : Type} (c : Codec α) : Type :=
  { records : List α // records.length * c.size ≤ maxPayload }

abbrev BridgeOp.Res : BridgeOp → Type
  | peerAuthorized => Bool
  | readExact n => Option { bytes : Bytes // bytes.length = n }
  | send _ _ => Unit
  | countInstalled => ℕ
  | countRunning => ℤ
  | listContainers _ => Option (Records containerRecord)
  | listImages => Option (Records imageRecord)
  | loadConfig _ => LoadAnswer
  | isRunning _ => Bool × ℤ
  | startedAt _ => ℤ
  | readEvents => EventFile
  | pathExists _ => Bool
  | kernelVersion => Bool
  | requirements _ => Bool
  | netNamespaces => Bool
  | prepareRuntime _ => Unit
  | startRootfs _ => Bool
  | stopRootfs _ _ => Bool
  | restartRootfs _ _ => Bool
  | recordRestart _ => Unit

abbrev Bridge := Prog BridgeOp BridgeOp.Res

def ask (op : BridgeOp) : Bridge op.Res := Prog.perform op

/-! ## The code -/

/-- `socketd_send_response`, whose result nobody looks at. -/
def sendStatus (status : Status) : Bridge Unit := ask (.send status [])

/-- `socketd_discard_payload` -/
def discardPayload (remaining : ℕ) : Bridge Bool :=
  if remaining = 0 then pure true
  else do
    match ← ask (.readExact (min remaining 4096)) with
    | none => return false
    | some _ => discardPayload (remaining - min remaining 4096)
  termination_by remaining
  decreasing_by omega

/-- `socketd_drain_payload` -/
def drainPayload (payloadLen : ℕ) : Bridge Bool := do
  if payloadLen > 0 then
    if !(← discardPayload payloadLen) then
      sendStatus .badRequest
      return false
  return true

/-- `socketd_read_payload` -/
def readPayload (expectedLen actualLen : ℕ) : Bridge (Option Bytes) := do
  if actualLen ≠ expectedLen then return none
  return (← ask (.readExact expectedLen)).map Subtype.val

/-- A payload that may be missing. -/
def readOptional (expectedLen actualLen : ℕ) (blank : Bytes) : Bridge (Option Bytes) :=
  if actualLen ≠ 0 then readPayload expectedLen actualLen else pure (some blank)

def sendRecords {α : Type} (c : Codec α) : Option (Records c) → Bridge Unit
  | none => sendStatus .internalError
  | some records => ask (.send .ok (records.1.flatMap c.put))

/-- `DS_SOCKETD_CAP_PROTOCOL_V1` and those behind it -/
def capabilities : ℕ := 2 ^ 9 - 1

/-- `target` with a zero forced at its end -/
def targetOf (bytes : Bytes) : Text := ofBytes ((bytes.take 255).takeWhile (· ≠ 0))

/-- The process is there. -/
def isUp (look : Bool × ℤ) : Bool := look.1 && 0 < look.2

def startedAtOf (pid : ℤ) : Bridge ℤ := if 0 < pid then ask (.startedAt pid) else pure 0

/-- `sizeof(struct ds_socketd_list_containers_req)` and those of the other requests -/
def listReqSize : ℕ := 4

def inspectReqSize : ℕ := 256

def lifecycleReqSize : ℕ := 260

def pollReqSize : ℕ := 8

/-- The records that `fread` finds; a rest that is shorter is none. -/
def eventRecords (bytes : Bytes) : List Bytes :=
  (List.range (bytes.length / recordSize)).map fun i => field (i * recordSize) recordSize bytes

/-- `time_be` -/
def eventTime (record : Bytes) : ℤ := (Codec.signed 8).get record

/-- The loop of `POLL_EVENTS`. -/
def pollEvents (since : ℤ) (bytes : Bytes) : Option Bytes :=
  let array := Memory.pushAll (maxPayload / recordSize)
    ((eventRecords bytes).filter fun record => since ≤ eventTime record) ([], 16)
  (array.map Prod.fst).map List.flatten

/-- `socketd_validate_start_config` -/
def validateStartConfig (cfg : DsConfig) : Bridge Bool := do
  let rootfs := cfg.value .rootfs
  let customInit := cfg.value (.text .customInit)
  if nameOf cfg = [] ∨ validateContainerName (nameOf cfg) = false then return false
  if rootfs.path ≠ [] ∧ rootfs.img ≠ [] then return false
  if rootfs.path = [] ∧ rootfs.img = [] then return false
  if rootfs.path ≠ [] then
    if !(← ask (.pathExists rootfs.path)) then return false
  if rootfs.img ≠ [] then
    if !(← ask (.pathExists rootfs.img)) then return false
  if customInit ≠ [] then
    if customInit.head? ≠ some '/' ∨ ' ' ∈ customInit then return false
  if !(← ask .kernelVersion) then return false
  if !(← ask (.requirements (cfg.value (.flag .hwAccess)))) then return false
  if cfg.value .netMode = .nat ∨ cfg.value .netMode = .none then
    if !(← ask .netNamespaces) then return false
  return true

/-- `socketd_lifecycle_start` -/
def lifecycleStart (cfg : DsConfig) : Bridge Status := do
  if isUp (← ask (.isRunning cfg)) then return .alreadyRunning
  if !(← validateStartConfig cfg) then return .internalError
  ask (.prepareRuntime cfg)
  if !(← ask (.startRootfs cfg)) then return .internalError
  if !isUp (← ask (.isRunning cfg)) then return .internalError
  return .ok

/-- `socketd_lifecycle_stop` -/
def lifecycleStop (cfg : DsConfig) (timeout : ℤ) : Bridge Status := do
  if !isUp (← ask (.isRunning cfg)) then return .alreadyStopped
  ask (.prepareRuntime cfg)
  if !(← ask (.stopRootfs cfg timeout)) then return .internalError
  if isUp (← ask (.isRunning cfg)) then return .internalError
  return .ok

/-- `socketd_lifecycle_restart` -/
def lifecycleRestart (cfg : DsConfig) (timeout : ℤ) : Bridge Status := do
  let wasRunning := isUp (← ask (.isRunning cfg))
  if !(← validateStartConfig cfg) then return .internalError
  ask (.prepareRuntime cfg)
  if wasRunning then
    if !(← ask (.restartRootfs cfg timeout)) then return .internalError
  else
    if !(← ask (.startRootfs cfg)) then return .internalError
  if !isUp (← ask (.isRunning cfg)) then return .internalError
  if wasRunning then ask (.recordRestart cfg)
  return .ok

/-- The target and the timeout of a request to change something. -/
def lifecycleRequest (req : Bytes) : Option (Text × ℤ) :=
  let target := targetOf (req.take 256)
  let timeout := (Codec.signed 4).get (req.drop 256)
  if target = [] ∨ timeout < -1 then none else some (target, timeout)

/-- `socketd_read_lifecycle_request` -/
def readLifecycleRequest (payloadLen : ℕ) : Bridge (Option (Text × ℤ)) := do
  return (← readPayload lifecycleReqSize payloadLen).bind lifecycleRequest

/-- The three requests that change something. -/
inductive Lifecycle where
  | start
  | stop
  | restart

def Lifecycle.run (cfg : DsConfig) (timeout : ℤ) : Lifecycle → Bridge Status
  | start => lifecycleStart cfg
  | stop => lifecycleStop cfg timeout
  | restart => lifecycleRestart cfg timeout

/-- `socketd_handle_lifecycle_request` -/
def handleLifecycleRequest (payloadLen : ℕ) (request : Lifecycle) : Bridge Unit := do
  match ← readLifecycleRequest payloadLen with
  | none => sendStatus .badRequest
  | some (target, timeout) =>
    match ← ask (.loadConfig target) with
    | .found loaded => sendStatus (← request.run loaded.cfg timeout)
    | .refused status _ => sendStatus status.status

def handlePing (payloadLen : ℕ) : Bridge Unit := do
  if ← drainPayload payloadLen then
    -- `PONG`
    ask (.send .ok [80, 79, 78, 71])

def handleCapabilities (payloadLen : ℕ) : Bridge Unit := do
  if ← drainPayload payloadLen then
    ask (.send .ok (bigEndian 4 capabilities))

def handleInfo (payloadLen : ℕ) : Bridge Unit := do
  if ← drainPayload payloadLen then
    let installedCount ← ask .countInstalled
    let running ← ask .countRunning
    let runningCount := if running > 0 then running.toNat else 0
    let stoppedCount := if installedCount > runningCount then installedCount - runningCount else 0
    ask (.send .ok (infoPayload.put ⟨installedCount, runningCount, stoppedCount⟩))

def handleListContainers (payloadLen : ℕ) : Bridge Unit := do
  -- no payload is a request for those that run
  match ← readOptional listReqSize payloadLen [0, 0, 0, 0] with
  | none => sendStatus .badRequest
  | some req => sendRecords containerRecord (← ask (.listContainers (req.headD 0 ≠ 0)))

def handleListImages (payloadLen : ℕ) : Bridge Unit := do
  if ← drainPayload payloadLen then
    sendRecords imageRecord (← ask .listImages)

def handleInspectContainer (payloadLen : ℕ) : Bridge Unit := do
  match ← readPayload inspectReqSize payloadLen with
  | none => sendStatus .badRequest
  | some req =>
    let target := targetOf req
    if target = [] then sendStatus .badRequest
    else
      match ← ask (.loadConfig target) with
      | .found loaded =>
        let look ← ask (.isRunning loaded.cfg)
        let pid := if isUp look then look.2 else 0
        let startedAt ← startedAtOf pid
        -- nobody has read the `env_file` of a configuration that was just loaded
        ask (.send .ok
          (inspectRecord.put (packInspectRecord (fun _ => startedAt) loaded.cfg [] pid)))
      | .refused status _ => sendStatus status.status

def handlePollEvents (payloadLen : ℕ) : Bridge Unit := do
  -- no payload is a request for all that there are
  match ← readOptional pollReqSize payloadLen [0, 0, 0, 0, 0, 0, 0, 0] with
  | none => sendStatus .badRequest
  | some req =>
    let since := (Codec.signed 8).get req
    match ← ask .readEvents with
    | .missing => sendStatus .ok
    | .unreadable => sendStatus .internalError
    | .contents bytes =>
      match pollEvents since bytes with
      | none => sendStatus .internalError
      | some payload => ask (.send .ok payload)

def handleOpcode (payloadLen : ℕ) : Opcode → Bridge Unit
  | .ping => handlePing payloadLen
  | .capabilities => handleCapabilities payloadLen
  | .info => handleInfo payloadLen
  | .listContainers => handleListContainers payloadLen
  | .inspectContainer => handleInspectContainer payloadLen
  | .startContainer => handleLifecycleRequest payloadLen .start
  | .stopContainer => handleLifecycleRequest payloadLen .stop
  | .restartContainer => handleLifecycleRequest payloadLen .restart
  | .listImages => handleListImages payloadLen
  | .pollEvents => handlePollEvents payloadLen

/-- `socketd_handle_conn` -/
def handleConn : Bridge Unit := do
  if !(← ask .peerAuthorized) then sendStatus .forbidden
  else
    match ← ask (.readExact header.size) with
    | none => sendStatus .badRequest
    | some bytes =>
      let req := header.get bytes.1
      if req.magic ≠ protoMagic ∨ req.version ≠ protoVersion then sendStatus .badRequest
      else if req.payloadLen > maxPayload then sendStatus .badRequest
      else
        match opcodeOf req.code with
        | some opcode => handleOpcode req.payloadLen opcode
        | none => sendStatus .unsupported

end Droidspaces.Socketd
