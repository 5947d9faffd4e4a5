import Droidspaces.Lifecycle.World

/-!
# The lifecycle code

`container.c` (lock functions, cleanup, start, stop, restart), `monitor.c` (monitor and
intermediate), the boot guard of `boot.c` and the pidfile functions of `pid.c`, as programs over
the operations of `Lifecycle/World.lean`.  Every definition follows the C function of the same
name, system call by system call; a loop over a directory or over `/proc` is a recursion over the
listing.
-/

namespace Droidspaces

open Transition

variable {N : Type}

/-! ## The external lock (`container.c`) -/

/-- `acquire_external_lock`: whether it returned 0. -/
def acquireExternalLock (n : N) : Code N Bool := do
  if ← ask (.lockLook n) then
    match ← ask (.lockRead n) with
    | some (c :: cs) =>
      if let some holder ← ask (.lockProbe (c :: cs)) then
        if holder ≠ (← ask .self) then
          mark (.lockReturn n)
          return false
    | _ => pure ()
    act (.unlinkLock n)
  let ok ← act (.renameLock n)
  mark (.lockReturn n)
  return ok

/-- `release_external_lock`. -/
def releaseExternalLock (n : N) : Code N Unit := do
  match ← ask (.lockRead n) with
  | some (c :: cs) =>
    if atoi (c :: cs) = (← ask .self) then
      act (.unlinkLock n)
  | _ => pure ()
  mark (.lockReturn n)

/-- `is_external_lock_active`. -/
def isExternalLockActive (n : N) : Code N Bool := do
  if ← ask (.lockLook n) then
    match ← ask (.lockRead n) with
    | some (c :: cs) =>
      if let some _ ← ask (.lockProbe (c :: cs)) then
        mark (.lockReturn n)
        return true
    | _ => pure ()
    act (.unlinkLock n)
  mark (.lockReturn n)
  return false

/-- `restart` between its stop and its start: the lock file stays. -/
def handOff (n : N) : Code N Unit := mark (.handOff n)

/-- Any process that uses the lock of `n`: one arbitrary call after the other. -/
def lockClient (n : N) : Code N (Entry N) := do
  match ← ask .lockCall with
  | .acquire => let _ ← acquireExternalLock n; return .lockClient n
  | .active => let _ ← isExternalLockActive n; return .lockClient n
  | .release => releaseExternalLock n; return .lockClient n
  | .handOff => handOff n; return .lockClient n
  | .quit => act (.exit .normal); return .exited

/-! ## Pidfiles (`utils.c`, `pid.c`) -/

/-- What `read_and_validate_pid` returns: `-1`, `-2` or `0`. -/
inductive Verdict where
  | gone
  | stranger
  | running
  deriving DecidableEq

/-- `read_and_validate_pid`: the verdict and `*pid_out`. -/
def readAndValidatePid (n : N) : Code N (Verdict × Pid) := do
  match ← ask (.readPid n) with
  | none => return (.gone, 0)
  | some p =>
    if ¬ (← ask (.kill0 p)) then
      return (.gone, 0)
    if ¬ (← ask (.validPid p)) then
      return (.stranger, p)
    return (.running, p)

/-- The loop of `find_container_init_pid` over the collected pids. -/
def findAmong (u : Uuid) : List Pid → Code N (Option Pid)
  | [] => return none
  | p :: rest => do
    if ← ask (.uuidMarker p u) then
      if ← ask (.validPid p) then
        return some p
    findAmong u rest

/-- `find_container_init_pid`. -/
def findContainerInitPid (u : Uuid) : Code N (Option Pid) := do
  let pids ← ask .collectPids
  findAmong u pids

/-- `is_container_running`: its result and `*pid_out`. -/
def isContainerRunning (n : N) (uuid : Option Uuid) : Code N (Bool × Pid) := do
  let (verdict, pid) ← readAndValidatePid n
  if verdict = .running then
    return (true, pid)
  match uuid with
  | none => return (false, pid)
  | some u =>
    match ← findContainerInitPid u with
    | none => return (false, pid)
    | some deep =>
      act (.writePid n deep)
      return (true, deep)

/-- `prune_stale_pidfile`. -/
def pruneStalePidfile (n : N) : Code N Unit := do
  act (.unlinkPid n)
  act (.unlinkMount n)
  act (.unlinkInit n)

/-- The loop of `count_running_containers`, which `show_containers` repeats: look at each pidfile
of the listing and prune it when its process is gone. -/
def countAmong : List N → Code N ℕ
  | [] => return 0
  | n :: rest => do
    let (running, pid) ← isContainerRunning n none
    if running then
      let count ← countAmong rest
      return count + 1
    if pid = 0 then
      if ← ask (.accessPid n) then
        pruneStalePidfile n
    countAmong rest

/-- `count_running_containers`. -/
def countRunningContainers : Code N ℕ := do
  let names ← ask .listPids
  countAmong names

/-- `show_containers`: the same loop over the pidfiles. -/
def showContainers : Code N ℕ := do
  let names ← ask .listPids
  countAmong names

/-- The first loop of `ds_feature_needs`: whether a running container has the feature. -/
def featureAmong : List N → Code N Bool
  | [] => return false
  | n :: rest => do
    let loaded ← ask (.loadConfig n)
    if loaded.feature then
      let (running, _) ← isContainerRunning n loaded.uuid
      if running then
        return true
    featureAmong rest

/-- `check_selinux_permissive_needs`. -/
def checkSelinuxPermissiveNeeds : Code N Bool := do
  let names ← ask .listPids
  featureAmong names

/-! ## Mounts (`mount.c`) -/

/-- `find_available_mountpoint`. -/
def findAvailableMountpoint (n : N) : Code N Bool := do
  if ← ask (.accessMnt n) then
    if ← ask (.isMountpoint n) then
      act (.umount n)
    return true
  act (.mkdirMnt n)

/-- `mount_rootfs_img`. -/
def mountRootfsImg (n : N) : Code N Bool := do
  if ← findAvailableMountpoint n then
    act (.mountImg n)
  else
    return false

/-- `unmount_rootfs_img`. -/
def unmountRootfsImg (n : N) : Code N Unit := do
  act (.umount n)
  if ← ask (.isMountpoint n) then
    act (.umount n)
  act (.rmdirMnt n)

/-! ## Cleanup (`container.c`) -/

/-- `ds_cgroup_cleanup_container`. -/
def cgroupCleanupContainer (n : N) : Code N Unit := do
  act (.cgroupKill n)
  act (.cgroupRmdir n)

/-- `cleanup_container_resources`; `imgMount` is whether `cfg->img_mount_point` is set. -/
def cleanupContainerResources (cfg : Config N) (imgMount skipUnmount force : Bool) :
    Code N Unit := do
  mark (.cleanup cfg.name skipUnmount)
  if (← ask .isAndroid) && !skipUnmount then
    let _ ← countRunningContainers
    let _ ← checkSelinuxPermissiveNeeds
  let recorded ← ask (.readMount cfg.name)
  if (recorded || imgMount) && !skipUnmount then
    if force then
      act (.umount cfg.name)
      act (.rmdirMnt cfg.name)
    else
      unmountRootfsImg cfg.name
  if !skipUnmount then
    act (.unlinkMount cfg.name)
    act (.unlinkInit cfg.name)
    act (.unlinkPid cfg.name)
  if cfg.net = .nat ∨ cfg.net = .gateway then
    act (.netCleanup cfg.name)
  if !skipUnmount then
    cgroupCleanupContainer cfg.name
  mark (.cleaned cfg.name)

/-! ## Start (`container.c`) -/

/-- The early restart detection of `start_rootfs`: whether the call holds the lock and takes over
a preserved mount. -/
def detectRestart (n : N) : Code N Bool := do
  if ← ask (.lockAccess n) then
    if ← acquireExternalLock n then
      if ← ask (.readMount n) then
        if ← ask (.isMountpoint n) then
          return true
      releaseExternalLock n
  return false

/-- The loop of `collect_active_uuids`. -/
def activeAmong : List Pid → Code N (List Uuid)
  | [] => return []
  | p :: rest => do
    let found ← ask (.uuidsOf p)
    let others ← activeAmong rest
    return found ++ others

/-- The UUID that `start_rootfs` boots with: the configured one unless it is missing or in use. -/
def chooseUuid (uuid : Option Uuid) : Code N Uuid := do
  let pids ← ask .collectPids
  let active ← activeAmong pids
  match uuid with
  | some u => if u ∈ active then ask .generateUuid else return u
  | none => ask .generateUuid

/-- The `cleanup:` label of `start_rootfs`. -/
def startFailed (cfg : Config N) (sideEffects imgMount lockAcquired : Bool) :
    Code N (Entry N) := do
  if sideEffects then
    cleanupContainerResources cfg imgMount false true
  if lockAcquired then
    releaseExternalLock cfg.name
  act (.exit .normal)
  return .exited

/-- The direct returns of `start_rootfs` when the init binary is missing or not executable. -/
def startRefused (cfg : Config N) (imgMount : Bool) : Code N (Entry N) := do
  if imgMount then
    unmountRootfsImg cfg.name
  act (.exit .normal)
  return .exited

/-- The parent's side of `start_rootfs` after the fork of the monitor. -/
def startParent (cfg : Config N) (imgMount lockAcquired : Bool) : Code N (Entry N) := do
  match ← ask .syncRead with
  | none =>
    if lockAcquired then
      releaseExternalLock cfg.name
    startFailed cfg true imgMount lockAcquired
  | some pid =>
    act (.writePid cfg.name pid)
    if imgMount then
      act (.writeMount cfg.name)
    act (.writeInit cfg.name)
    mark (.recorded cfg.name)
    if !cfg.foreground then
      if ¬ (← ask (.awaitMarker pid)) then
        return ← startFailed cfg true imgMount lockAcquired
    if lockAcquired then
      releaseExternalLock cfg.name
    act (.exit .normal)
    return .exited

/-- `start_rootfs`. -/
def startRootfs (cfg : Config N) : Code N (Entry N) := do
  let lockAcquired ← detectRestart cfg.name
  if !lockAcquired then
    let (running, _) ← isContainerRunning cfg.name cfg.uuid
    if running then
      return ← startFailed cfg false false false
  mark (.admitted cfg.name lockAcquired)
  -- resolving the rootfs and image paths
  if ¬ (← ask .fallible) then
    return ← startFailed cfg false false lockAcquired
  let mut imgMount := lockAcquired
  if cfg.img && !lockAcquired then
    if ¬ (← mountRootfsImg cfg.name) then
      return ← startFailed cfg true false lockAcquired
    imgMount := true
  -- the init binary
  if ¬ (← ask .fallible) then
    return ← startRefused cfg imgMount
  -- the volatile pre-flight
  if ¬ (← ask .fallible) then
    return ← startFailed cfg true imgMount lockAcquired
  let uuid ← chooseUuid cfg.uuid
  let booted := { cfg with uuid := some uuid }
  -- saving the configuration, the console PTY, the sync pipe, the fork itself
  if ¬ (← ask .fallible) then
    return ← startFailed booted true imgMount lockAcquired
  let _ ← act (.fork (.monitor { booted with img := imgMount }))
  startParent booted imgMount lockAcquired

/-! ## Stop and restart (`container.c`) -/

/-- `stop_rootfs_with_timeout`: whether it returned 0. -/
def stopRootfsWithTimeout (cfg : Config N) (skipUnmount : Bool) : Code N Bool := do
  if ¬ (← acquireExternalLock cfg.name) then
    return false
  let (running, pid) ← isContainerRunning cfg.name cfg.uuid
  if !running || pid = 0 then
    releaseExternalLock cfg.name
    return false
  let imgMount ← ask (.readMount cfg.name)
  mark (.stopping cfg.name pid imgMount skipUnmount)
  let stopped ← ask (.awaitGone pid)
  let killed ← if stopped then pure true else ask (.awaitGone pid)
  cleanupContainerResources cfg imgMount skipUnmount !killed
  if skipUnmount then
    handOff cfg.name
  else
    releaseExternalLock cfg.name
  return true

def stopCommand (cfg : Config N) : Code N (Entry N) := do
  let _ ← stopRootfsWithTimeout cfg false
  act (.exit .normal)
  return .exited

/-- `restart_rootfs_with_timeout`. -/
def restartRootfs (booted reloaded : Config N) : Code N (Entry N) := do
  let (running, pid) ← isContainerRunning booted.name booted.uuid
  if !running || pid = 0 then
    act (.exit .normal)
    return .exited
  if ¬ (← stopRootfsWithTimeout booted true) then
    act (.exit .normal)
    return .exited
  startRootfs { reloaded with name := booted.name }

/-! ## Monitor, intermediate and init (`monitor.c`, `boot.c`) -/

/-- The head of `ds_monitor_run`. -/
def dsMonitorRun (cfg : Config N) : Code N (Entry N) := do
  if cfg.cgroup then
    act (.cgroupMkdir cfg.name)
    act (.cgroupEnter cfg.name)
  return .rebootLoop cfg false

/-- The networking handshake of the monitor with the init it has just had forked. -/
def monitorHandshake (cfg : Config N) (mid : Pid) : Code N Unit := do
  if let some init ← ask (.midRead mid) then
    ask (.netReadyRead init)
    if cfg.net = .nat ∨ cfg.net = .gateway then
      act (.setupVeth cfg.name)
    act (.netDoneWrite init)

/-- The check for a stale container before the first boot. -/
def staleCheck (cfg : Config N) (rebootCycle : Bool) : Code N Unit := do
  if !rebootCycle then
    let (running, pid) ← isContainerRunning cfg.name cfg.uuid
    if running then
      if pid ≠ (← ask .self) then
        -- the stale container is killed if this confirms it
        let _ ← ask (.validPid pid)

/-- The monitor after one boot cycle: it reboots, yields to a command or cleans up. -/
def afterCycle (cfg : Config N) (how : Exit) : Code N (Entry N) := do
  if ← isExternalLockActive cfg.name then
    act (.exit .normal)
    return .exited
  match how with
  | .reboot =>
    let _ ← readAndValidatePid cfg.name
    let loaded ← ask (.loadConfig cfg.name)
    return .rebootLoop { cfg with uuid := loaded.uuid, net := loaded.net } true
  | .normal =>
    act .cgroupLeave
    cleanupContainerResources cfg cfg.img false false
    act (.exit .normal)
    return .exited

/-- `reboot_loop` of `ds_monitor_run`. -/
def rebootLoop (cfg : Config N) (rebootCycle : Bool) : Code N (Entry N) := do
  staleCheck cfg rebootCycle
  let mid ← act (.fork (.intermediate cfg rebootCycle))
  if cfg.net ≠ .host then
    monitorHandshake cfg mid
  let how ← ask (.waitMid mid)
  afterCycle cfg how

/-- The intermediate process of one boot cycle. -/
def intermediate (cfg : Config N) (rebootCycle : Bool) : Code N (Entry N) := do
  let init ← act (.fork (.init cfg))
  if cfg.net ≠ .host then
    act (.midWrite init)
  if rebootCycle then
    act (.writePid cfg.name init)
  else
    act (.syncWrite init)
  mark (.reported cfg.name)
  let how ← act (.waitInit init)
  act (.exit how)
  return .exited

/-- The init's side of the networking handshake. -/
def initHandshake (cfg : Config N) : Code N Unit := do
  if cfg.net ≠ .host then
    act .netReadyWrite
    ask .netDoneRead

/-- `internal_boot` past its guard, up to the point where the container's own init takes over;
from there on the process runs until the environment ends it. -/
def bootRootfs (cfg : Config N) : Code N (Entry N) := do
  -- the mounts, the volatile overlay, pivot_root
  if ¬ (← ask .fallible) then
    act (.exit .normal)
    return .exited
  act .markDir
  if let some u := cfg.uuid then
    act (.markUuid u)
  act (.markIdentity cfg.img)
  return .exited

/-- `internal_boot`. -/
def internalBoot (cfg : Config N) : Code N (Entry N) := do
  initHandshake cfg
  mark (.bootGuard cfg.name)
  let (running, pid) ← isContainerRunning cfg.name cfg.uuid
  if running then
    if pid ≠ (← ask .self) then
      act (.exit .normal)
      return .exited
  mark (.bootPassed cfg.name)
  bootRootfs cfg

/-! ## Scan (`pid.c`) -/

/-- `DS_MAX_TRACKED_ENTRIES`. -/
def maxTrackedEntries : ℕ := 512

/-- `ds_metadata_sync`, for the files under `Pids/`. -/
def metadataSync (p : Pid) : Code N Unit := do
  if p ≤ 1 then
    return
  if ¬ (← ask (.validPid p)) then
    return
  if let some n ← ask (.nameMarker p) then
    if ¬ (← ask (.accessPid n)) then
      act (.writePid n p)
    if ¬ (← ask (.readMount n)) then
      if ← ask (.mountMarker p) then
        act (.writeMount n)

/-- The first loop of `scan_containers`. -/
def syncAmong : List Pid → Code N Unit
  | [] => return
  | p :: rest => do
    if 1 < p then
      if ← ask (.validPid p) then
        metadataSync p
    syncAmong rest

/-- The loop of `scan_containers` over `Pids/`: the names whose mounts are in use. -/
def gatherTracked (tracked : List N) : List N → Code N (List N)
  | [] => return tracked
  | n :: rest => do
    if maxTrackedEntries ≤ tracked.length then
      mark (.tableFull (n :: rest))
      return tracked
    let (verdict, pid) ← readAndValidatePid n
    if verdict = .running then
      if ← ask (.readMount n) then
        gatherTracked (n :: tracked) rest
      else
        gatherTracked tracked rest
    else
      if pid = 0 then
        pruneStalePidfile n
      gatherTracked tracked rest

variable [DecidableEq N]

/-- The loop of `scan_containers` over `/mnt/Droidspaces`. -/
def sweepOrphans (tracked : List N) : List N → Code N Unit
  | [] => return
  | n :: rest => do
    if ← ask (.isMountpoint n) then
      if n ∉ tracked then
        unmountRootfsImg n
    else
      act (.rmdirMnt n)
    sweepOrphans tracked rest

/-- `scan_containers`. -/
def scanContainers : Code N Unit := do
  let pids ← ask .collectPids
  syncAmong pids
  mark .gather
  let names ← ask .listPids
  let tracked ← gatherTracked [] names
  mark .sweep
  let mounts ← ask .listMnt
  sweepOrphans tracked mounts
  mark .swept

/-! ## The machine -/

def Entry.code : Entry N → Code N (Entry N)
  | start cfg => startRootfs cfg
  | stop cfg => stopCommand cfg
  | restart booted reloaded => restartRootfs booted reloaded
  | countRunningContainers => do
    let _ ← Droidspaces.countRunningContainers
    act (.exit .normal)
    return .exited
  | showContainers => do
    let _ ← Droidspaces.showContainers
    act (.exit .normal)
    return .exited
  | scanContainers => do
    Droidspaces.scanContainers
    act (.exit .normal)
    return .exited
  | lockClient n => Droidspaces.lockClient n
  | monitor cfg => dsMonitorRun cfg
  | rebootLoop cfg rebootCycle => Droidspaces.rebootLoop cfg rebootCycle
  | intermediate cfg rebootCycle => Droidspaces.intermediate cfg rebootCycle
  | init cfg => internalBoot cfg
  | exited => return .exited

/-- Entries that a user can run. -/
def Entry.isCommand : Entry N → Bool
  | start _ | stop _ | restart _ _ | lockClient _ => true
  | countRunningContainers | showContainers | scanContainers => true
  | _ => false

/-- What happens without a step of any process. -/
inductive HostEvent (N : Type) where
  | spawn (p : Pid) (e : Entry N)
  | die (p : Pid) (how : Exit)

def hostEnv (w : World N) : HostEvent N → Option (World N × Option (Pid × Entry N))
  | .spawn p e =>
    if e.isCommand then
      (w.born p (Proc.newborn e 0 none none)).map fun w' => (w', some (p, e))
    else none
  | .die p how => if w.running p then some (w.kill p how, none) else none

def startedBy (op : Op N) (r : op.Res) : Option (Pid × Entry N) :=
  match op, r with
  | .action (.fork e), c => some (c, e)
  | _, _ => none

/-- Everything that runs on one host. -/
def lifecycle : Machine Pid (World N) (Op N) (Entry N) (HostEvent N) Op.Res where
  code := Entry.code
  exec := exec
  child := startedBy
  runnable := World.running
  env := hostEnv

/-- A container boots: start 1, monitor 2, intermediate 3 and init 4, up to the end of the start. -/
def plainBoot : List (Machine.Event Pid (HostEvent Unit)) :=
  .env (.spawn 1 (.start (.plain ()))) :: Machine.turns 1 8 ++ [.step 1 5] ++ Machine.turns 1 1 ++
  [.step 1 2] ++ Machine.turns 2 5 ++ [.step 2 3, .step 3 4] ++ Machine.turns 3 1 ++
  Machine.turns 4 12 ++ Machine.turns 1 6

/-- The same with an image, which the start mounts first. -/
def imageBoot : List (Machine.Event Pid (HostEvent Unit)) :=
  .env (.spawn 1 (.start (.image ()))) :: Machine.turns 1 11 ++ [.step 1 5] ++ Machine.turns 1 1 ++
  [.step 1 2] ++ Machine.turns 2 5 ++ [.step 2 3, .step 3 4] ++ Machine.turns 3 1 ++
  Machine.turns 4 12 ++ Machine.turns 1 7

end Droidspaces
