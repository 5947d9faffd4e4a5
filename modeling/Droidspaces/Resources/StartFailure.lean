import Droidspaces.Resources.HostSettings
import Droidspaces.Sequential.Attempt

/-!
# A start that fails

`start_rootfs` can fail at a dozen steps before there is a container init.  Most of them jump to
one cleanup label, the two checks of the init binary return at once.

Neither way undoes what the call did.  The label closes `console.master` and both ends of
`sync_pipe` if they are not negative: before the PTY is allocated that is descriptor 0, because the
callers hand over a zeroed configuration, and before the pipe is made it is whatever is on the
stack; afterwards the slave side of the PTY stays open, and the ends of the pipe are closed twice.
The checks of the init binary skip the label, and with it the lock, the tracking files and the
SELinux mode.  What is left is `start_failure_undone_iff`: the call leaves the host as it was
exactly if it returned at once and had nothing to undo but an image mount.
-/

namespace Droidspaces.Startup

open Sequential
open Sequential.Attempt (failIf)

/-! ## The host and the configuration -/

/-- A pidfile and the sidecars next to it. -/
structure Tracking where
  pid : Option Pid
  mount : Option String
  init : Bool

def Tracking.nothing : Tracking := ⟨none, none, false⟩

/-- What `start_rootfs` changes on the host up to the first container init. -/
structure StartHost where
  lock : Option Text
  /-- By the path of the pidfile. -/
  tracking : String → Tracking
  mounted : String → Bool
  enforcing : Selinux
  firmware : List Text

/-- The fields of `ds_config` that matter before the container exists; an empty string is a path
that is not set. -/
structure StartConfig where
  pidfile : String
  rootfsPath : String
  rootfsImgPath : String
  isImgMount : Bool
  imgMountPoint : String
  selinuxPermissive : Bool
  hwAccess : Bool
  configFile : String

/-- Where a start can fail before there is a container init. -/
inductive StartStep where
  | nameInUse
  | rootfsPath
  | rootfsImgPath
  | mountImg
  | initMissing
  | initNotExecutable
  | volatileMode
  | saveConfig
  | console
  | syncPipe
  | fork
  | monitor
  deriving DecidableEq

/-- `return -1` in the middle of the function. -/
def StartStep.returnsAtOnce : StartStep → Bool
  | initMissing | initNotExecutable => true
  | _ => false

/-- A PTY as the kernel hands it out. -/
structure Pty where
  master : ℕ
  slave : ℕ
  ne : master ≠ slave

/-- What `is_container_running` finds. -/
inductive FoundRunning where
  | no
  | byPidfile
  /-- By its UUID; the pidfile is restored. -/
  | byUuid (pid : Pid)

/-- The process that starts the container, and the answers to its calls. -/
structure StartAnswers where
  android : Bool
  me : Pid
  me_lt : me < pidMax
  boot : BootId
  alive : Pid → Bool
  lockWritten : Bool
  /-- `resolve_pidfile_from_name` -/
  globalPidfile : String
  running : FoundRunning
  /-- `ds_resolve_path_arg`, for a path that exists. -/
  resolve : String → Option String
  resolve_ne : ∀ p q, resolve p = some q → q ≠ ""
  /-- `DS_IMG_MOUNT_ROOT_UNIVERSAL/<name>` -/
  mountPoint : String
  mountPoint_ne : mountPoint ≠ ""
  mountPointMade : Bool
  imgMounted : Bool
  umountWorks : Bool
  initFound : Bool
  initExecutable : Bool
  volatileSupported : Bool
  configSaved : Bool
  firmwarePresent : Bool
  pty : Option Pty
  pipe : Option (ℕ × ℕ)
  forked : Bool
  pidSent : Option Pid
  /-- `count_running_containers` finds the pidfile of the container stale. -/
  countPrunes : Bool
  /-- `check_selinux_permissive_needs`: 1, 0, or nothing for -1. -/
  selinuxNeeds : Option Bool

/-! ## The lock, step by step -/

/-- `acquire_external_lock`: whether the lock was taken, and the lock file. -/
def acquireExternalLock (a : StartAnswers) : Option Text → Bool × Option Text
  | some text =>
    match lockHolderIfAlive a.boot a.alive (readFile 64 text) with
    | some holder =>
      if holder ≠ a.me then (false, some text)
      else if a.lockWritten then (true, some (lockStamp a.boot a.me))
      else (false, none)
    | none => if a.lockWritten then (true, some (lockStamp a.boot a.me)) else (false, none)
  | none => if a.lockWritten then (true, some (lockStamp a.boot a.me)) else (false, none)

/-- The lock file names this process. -/
def ownsLock (a : StartAnswers) (lock : Option Text) : Prop :=
  ∃ text, lock = some text ∧ readFile 64 text ≠ [] ∧ atoi (readFile 64 text) = a.me

def releaseExternalLock (a : StartAnswers) (lock : Option Text) : Option Text :=
  match lock with
  | some text =>
    if readFile 64 text ≠ [] ∧ atoi (readFile 64 text) = a.me then none else some text
  | none => none

theorem not_ownsLock_release (a : StartAnswers) (lock : Option Text) :
    ¬ ownsLock a (releaseExternalLock a lock) := by
  rintro ⟨text, htext, hown⟩
  unfold releaseExternalLock at htext
  split at htext
  · split at htext
    · cases htext
    · next hnot =>
      obtain rfl := Option.some.inj htext
      exact hnot hown
  · cases htext

/-- A lock that was refused is somebody else's. -/
theorem not_ownsLock_of_refused {a : StartAnswers} {lock lock' : Option Text}
    (h : acquireExternalLock a lock = (false, lock')) : ¬ ownsLock a lock' := by
  rintro ⟨text, rfl, -, hown⟩
  unfold acquireExternalLock at h
  split at h
  · next text' =>
    split at h
    · next holder hholder =>
      split at h
      · next hne =>
        obtain rfl : text' = text := by simpa using h
        rw [atoi_of_lockHolderIfAlive hholder] at hown
        exact hne (by exact_mod_cast hown)
      · split at h <;> simp at h
    · split at h <;> simp at h
  · split at h <;> simp at h

/-- A lock that was taken is ours. -/
theorem ownsLock_of_acquired {a : StartAnswers} {lock lock' : Option Text}
    (h : acquireExternalLock a lock = (true, lock')) : ownsLock a lock' := by
  have hstamp : lock' = some (lockStamp a.boot a.me) := by
    unfold acquireExternalLock at h
    split at h
    · split at h
      · split at h
        · simp at h
        · split at h <;> simp_all
      · split at h <;> simp_all
    · split at h <;> simp_all
  refine ⟨_, hstamp, ?_, ?_⟩
  · rw [readFile_lockStamp a.boot a.me_lt]
    simp [lockStamp]
  · rw [readFile_lockStamp a.boot a.me_lt, atoi_lockStamp]

/-! ## The start -/

structure Start where
  host : StartHost
  cfg : StartConfig
  hasSideEffects : Bool
  lockAcquired : Bool
  /-- `cfg->console` -/
  master : ℤ
  slave : ℤ
  syncPipe : ℤ × ℤ
  /-- The image mount that the call made or took over. -/
  tookMount : Option String
  opened : List ℤ
  /-- The arguments of its `close` calls. -/
  closed : List ℤ

/-- At the call: `ds_config` is zeroed by whoever fills it in, `sync_pipe` is not initialised. -/
def Start.begin (host : StartHost) (cfg : StartConfig) (garbage : ℤ × ℤ) : Start where
  host := host
  cfg := cfg
  hasSideEffects := false
  lockAcquired := false
  master := 0
  slave := 0
  syncPipe := garbage
  tookMount := none
  opened := []
  closed := []

abbrev StartM := Attempt StartStep Start

def onHost (f : StartHost → StartHost) (s : Start) : Start := { s with host := f s.host }

def onCfg (f : StartConfig → StartConfig) (s : Start) : Start := { s with cfg := f s.cfg }

/-- The pidfile in use once it is resolved. -/
def StartConfig.resolvedPidfile (a : StartAnswers) (cfg : StartConfig) : String :=
  if cfg.pidfile = "" then a.globalPidfile else cfg.pidfile

def resolvePidfile (a : StartAnswers) : Start → Start :=
  onCfg fun cfg => { cfg with pidfile := cfg.resolvedPidfile a }

def closeFd (fd : ℤ) (s : Start) : Start := { s with closed := s.closed ++ [fd] }

/-- The mount that a restart has left in place. -/
def preservedMount (a : StartAnswers) (host : StartHost) (cfg : StartConfig) : Option String :=
  ((host.tracking (cfg.resolvedPidfile a)).mount.filter (· ≠ "")).filter host.mounted

/-- Step 0: a lock file looks like a restart hand-off. -/
def detectRestart (a : StartAnswers) (s : Start) : Start :=
  if s.host.lock.isSome then
    match acquireExternalLock a s.host.lock with
    | (true, lock) =>
      let s := resolvePidfile a (onHost (fun host => { host with lock := lock }) s)
      match preservedMount a s.host s.cfg with
      | some mount =>
        { onCfg (fun cfg => { cfg with
            rootfsPath := mount
            isImgMount := true
            imgMountPoint := mount }) s with
          lockAcquired := true
          tookMount := some mount }
      | none => onHost (fun host => { host with lock := releaseExternalLock a host.lock }) s
    | (false, lock) => onHost (fun host => { host with lock := lock }) s
  else s

def setTracking (pidfile : String) (t : Tracking) (host : StartHost) : StartHost :=
  { host with tracking := Function.update host.tracking pidfile t }

/-- Step 1b: `is_container_running`. -/
def checkName (a : StartAnswers) : StartM Unit := do
  if !(← get).lockAcquired then
    modify (resolvePidfile a)
    match a.running with
    | .no => pure ()
    | .byPidfile => throw .nameInUse
    | .byUuid pid =>
      modify fun s => onHost (fun host =>
        setTracking s.cfg.pidfile { host.tracking s.cfg.pidfile with pid := some pid } host) s
      throw .nameInUse

/-- One of the paths that are made absolute, if it is set. -/
def resolveArg (a : StartAnswers) (path : String) (put : String → StartConfig → StartConfig)
    (step : StartStep) : StartM Unit := do
  if path ≠ "" then
    match a.resolve path with
    | some path => modify (onCfg (put path))
    | none => throw step

/-- Step 2 -/
def resolvePaths (a : StartAnswers) : StartM Unit := do
  resolveArg a (← get).cfg.rootfsPath (fun path cfg => { cfg with rootfsPath := path }) .rootfsPath
  resolveArg a (← get).cfg.rootfsImgPath (fun path cfg => { cfg with rootfsImgPath := path })
    .rootfsImgPath

/-- The SELinux mode, and the point from which on there are side effects. -/
def applySelinux (s : Start) : Start :=
  { onHost (fun host => { host with
      enforcing :=
        if s.cfg.selinuxPermissive then dsSetSelinuxPermissive true host.enforcing
        else host.enforcing }) s with
    hasSideEffects := true }

def setMounted (path : String) (mounted : Bool) (host : StartHost) : StartHost :=
  { host with mounted := Function.update host.mounted path mounted }

/-- `unmount_rootfs_img` and the forced `umount2` of the cleanup. -/
def unmountImg (a : StartAnswers) (path : String) (host : StartHost) : StartHost :=
  if path ≠ "" ∧ a.umountWorks then setMounted path false host else host

/-- Step 2: `mount_rootfs_img`, which puts the mount point into `rootfs_path` before it mounts. -/
def mountImage (a : StartAnswers) : StartM Unit := do
  let s ← get
  if s.cfg.rootfsImgPath ≠ "" ∧ !s.lockAcquired then
    modify (onCfg fun cfg => { cfg with rootfsPath := a.mountPoint })
    failIf (!a.mountPointMade) .mountImg
    -- a mount that is still there is from a crashed run
    modify (onHost (unmountImg a a.mountPoint))
    failIf (!a.imgMounted) .mountImg
    modify fun s =>
      { onCfg (fun cfg => { cfg with isImgMount := true, imgMountPoint := a.mountPoint })
          (onHost (setMounted a.mountPoint true) s) with
        tookMount := some a.mountPoint }

/-- Step 2a: the init binary. -/
def checkInit (a : StartAnswers) : StartM Unit := do
  let unmount : Start → Start := fun s =>
    if s.cfg.isImgMount then onHost (unmountImg a s.cfg.imgMountPoint) s else s
  if !a.initFound then
    modify unmount
    throw .initMissing
  if !a.initExecutable then
    modify unmount
    throw .initNotExecutable

/-- Step 3, and the configuration. -/
def preflight (a : StartAnswers) : StartM Unit := do
  failIf (!a.volatileSupported) .volatileMode
  failIf ((← get).cfg.configFile ≠ "" ∧ !a.configSaved) .saveConfig

/-- The firmware path and step 4: the console. -/
def createTerminal (a : StartAnswers) : StartM Unit := do
  if (← get).cfg.hwAccess then
    modify fun s => onHost (fun host => { host with
      firmware := firmwarePathAdd a.android a.firmwarePresent
        (s.cfg.rootfsPath ++ "/lib/firmware").toList host.firmware }) s
  match a.pty with
  | none => throw .console
  | some pty =>
    modify fun s => { s with
      master := pty.master
      slave := pty.slave
      opened := s.opened ++ [(pty.master : ℤ), (pty.slave : ℤ)] }

/-- Steps 5 to 8: the pipe, the monitor, and the pid that it sends. -/
def forkMonitor (a : StartAnswers) : StartM Pid := do
  modify (resolvePidfile a)
  match a.pipe with
  | none => throw .syncPipe
  | some (r, w) =>
    modify fun s => { s with
      syncPipe := (r, w)
      opened := s.opened ++ [(r : ℤ), (w : ℤ)] }
    if !a.forked then
      modify (closeFd r)
      modify (closeFd w)
      throw .fork
    modify (closeFd w)
    match a.pidSent with
    | some pid => pure pid
    | none =>
      modify fun s =>
        if s.lockAcquired then
          onHost (fun host => { host with lock := releaseExternalLock a host.lock }) s
        else s
      throw .monitor

/-- `start_rootfs` up to the pid of the container's init. -/
def startSteps (a : StartAnswers) : StartM Pid := do
  modify (detectRestart a)
  checkName a
  resolvePaths a
  modify applySelinux
  mountImage a
  checkInit a
  preflight a
  createTerminal a
  forkMonitor a

/-- The Android part of the cleanup: `count_running_containers`, and the SELinux mode. -/
def cleanupAndroid (a : StartAnswers) (pidfile : String) (host : StartHost) : StartHost :=
  let host := if a.countPrunes then setTracking pidfile Tracking.nothing host else host
  if a.selinuxNeeds = some false then
    { host with enforcing := dsSetSelinuxPermissive false host.enforcing }
  else host

/-- `cleanup_container_resources(cfg, pid, 0, 1)` as far as it concerns what was done so far: the
firmware path is left alone, because the cleanup is a forced one. -/
def cleanupForced (a : StartAnswers) (cfg : StartConfig) (host : StartHost) : StartHost :=
  let host := if a.android then cleanupAndroid a cfg.pidfile host else host
  let mountPoint := ((host.tracking cfg.pidfile).mount.filter (· ≠ "")).getD cfg.imgMountPoint
  let host := setTracking cfg.pidfile Tracking.nothing (unmountImg a mountPoint host)
  setTracking a.globalPidfile { host.tracking a.globalPidfile with pid := none } host

/-- The label `cleanup`. -/
def cleanupLabel (a : StartAnswers) (s : Start) : Start :=
  let s := if s.hasSideEffects then onHost (cleanupForced a s.cfg) s else s
  let s :=
    if s.lockAcquired then
      onHost (fun host => { host with lock := releaseExternalLock a host.lock }) s
    else s
  let s := if 0 ≤ s.master then closeFd s.master s else s
  let s := if 0 ≤ s.syncPipe.1 then closeFd s.syncPipe.1 s else s
  if 0 ≤ s.syncPipe.2 then closeFd s.syncPipe.2 s else s

/-- `start_rootfs`, which returns -1 where this gives up. -/
def startRootfs (a : StartAnswers) : StartM Pid :=
  tryCatch (startSteps a) fun step => do
    if !step.returnsAtOnce then
      modify (cleanupLabel a)
    throw step

/-! ## What a failed start should have undone -/

/-- The host is as it was, the mount that the call had is gone with its tracking files, and the
call has closed exactly what it opened. -/
structure Undone (a : StartAnswers) (before : StartHost) (after : Start) : Prop where
  image : ∀ mount, after.tookMount = some mount → after.host.mounted mount = false ∧
    (after.host.tracking after.cfg.pidfile).mount = none ∧
      (after.host.tracking after.cfg.pidfile).init = false
  pidfile : (after.host.tracking after.cfg.pidfile).pid = none ∧
    (after.host.tracking a.globalPidfile).pid = none
  lock : ¬ ownsLock a after.host.lock
  selinux : after.host.enforcing = before.enforcing
  firmware : after.host.firmware = before.firmware
  descriptors : ∀ fd, after.closed.count fd = if fd ∈ after.opened then 1 else 0

/-- The call takes over a lock and the mount that it protects. -/
def takesOver (a : StartAnswers) (host : StartHost) (cfg : StartConfig) : Bool :=
  host.lock.isSome && (acquireExternalLock a host.lock).1 && (preservedMount a host cfg).isSome

/-- The call fails at a check of the init binary, with nothing to undo but an image mount of its
own. -/
structure NothingToUndo (a : StartAnswers) (host : StartHost) (cfg : StartConfig)
    (step : StartStep) : Prop where
  atOnce : step.returnsAtOnce = true
  fresh : takesOver a host cfg = false
  pidfile : (host.tracking (cfg.resolvedPidfile a)).pid = none ∧
    (host.tracking a.globalPidfile).pid = none
  image : cfg.rootfsImgPath ≠ "" → a.umountWorks = true ∧
    (host.tracking (cfg.resolvedPidfile a)).mount = none ∧
      (host.tracking (cfg.resolvedPidfile a)).init = false
  selinux : cfg.selinuxPermissive = true → host.enforcing ≠ some true

/-! ## What is known on the way -/

section Way

variable {a : StartAnswers} {host : StartHost} {cfg : StartConfig} {garbage : ℤ × ℤ}
  {e : Selinux} {s : Start} {Q : Unit → Start → Prop} {E : StartStep → Start → Prop}

/-- Up to the image mount: the lock is as it was found, nothing is mounted, nothing is open. -/
structure Early (a : StartAnswers) (host : StartHost) (cfg : StartConfig) (garbage : ℤ × ℤ)
    (e : Selinux) (s : Start) : Prop where
  tracking : s.host.tracking = host.tracking
  firmware : s.host.firmware = host.firmware
  enforcing : s.host.enforcing = e
  lockAcquired : s.lockAcquired = takesOver a host cfg
  owns : takesOver a host cfg = true → ownsLock a s.host.lock
  disowns : takesOver a host cfg = false → ¬ ownsLock a s.host.lock ∧ s.tookMount = none
  pidfile : s.cfg.resolvedPidfile a = cfg.resolvedPidfile a
  img : s.cfg.rootfsImgPath = "" ↔ cfg.rootfsImgPath = ""
  permissive : s.cfg.selinuxPermissive = cfg.selinuxPermissive
  master : s.master = 0
  syncPipe : s.syncPipe = garbage
  opened : s.opened = []
  closed : s.closed = []

theorem resolvedPidfile_idem (a : StartAnswers) (cfg : StartConfig) :
    ({ cfg with pidfile := cfg.resolvedPidfile a } : StartConfig).resolvedPidfile a =
      cfg.resolvedPidfile a := by
  unfold StartConfig.resolvedPidfile
  split_ifs <;> simp_all

theorem early_detectRestart :
    Early a host cfg garbage host.enforcing (detectRestart a (Start.begin host cfg garbage)) := by
  have hpidfile := resolvedPidfile_idem a cfg
  cases hlock : host.lock with
  | none =>
    have htakes : takesOver a host cfg = false := by simp [takesOver, hlock]
    constructor <;> simp [detectRestart, Start.begin, hlock, htakes, ownsLock]
  | some text =>
    rcases hacquire : acquireExternalLock a host.lock with ⟨taken, lock⟩
    rw [hlock] at hacquire
    cases taken with
    | false =>
      have htakes : takesOver a host cfg = false := by simp [takesOver, hlock, hacquire]
      have hfree := not_ownsLock_of_refused hacquire
      constructor <;> simp [detectRestart, Start.begin, onHost, hlock, hacquire, htakes, hfree]
    | true =>
      have hown := ownsLock_of_acquired hacquire
      have hpreserved : preservedMount a { host with lock := lock }
          { cfg with pidfile := cfg.resolvedPidfile a } = preservedMount a host cfg := by
        simp only [preservedMount, hpidfile]
      cases hmount : preservedMount a host cfg with
      | none =>
        have htakes : takesOver a host cfg = false := by simp [takesOver, hmount]
        have hfree := not_ownsLock_release a lock
        rw [hmount] at hpreserved
        constructor <;> simp [detectRestart, Start.begin, resolvePidfile, onHost, onCfg, hlock,
          hacquire, hpreserved, htakes, hfree, hpidfile]
      | some mount =>
        have htakes : takesOver a host cfg = true := by simp [takesOver, hlock, hacquire, hmount]
        rw [hmount] at hpreserved
        constructor <;> simp [detectRestart, Start.begin, resolvePidfile, onHost, onCfg, hlock,
          hacquire, hpreserved, htakes, hown]
        exact hpidfile

/-- Nothing has been opened that the label could close. -/
def Unopened (s : Start) : Prop := s.master = 0 ∧ s.opened = []

theorem Early.unopened (hs : Early a host cfg garbage e s) : Unopened s := ⟨hs.master, hs.opened⟩

theorem Early.resolvePidfile (hs : Early a host cfg garbage e s) :
    Early a host cfg garbage e (resolvePidfile a s) :=
  { hs with pidfile := (resolvedPidfile_idem a s.cfg).trans hs.pidfile }

theorem wp_checkName (hs : Early a host cfg garbage e s)
    (hQ : ∀ t, Early a host cfg garbage e t →
      (takesOver a host cfg = false → t.cfg.pidfile = cfg.resolvedPidfile a) → Q () t)
    (hE : ∀ t, Unopened t → E .nameInUse t) : (checkName a).wp Q E s := by
  unfold checkName
  simp only [Attempt.wp_bind, Attempt.wp_get]
  refine Attempt.wp_ite (fun _ => ?_) fun htaken => ?_
  · simp only [Attempt.wp_bind, Attempt.wp_modify]
    cases a.running with
    | no => exact hQ _ hs.resolvePidfile fun _ => hs.pidfile
    | byPidfile => exact hE _ hs.resolvePidfile.unopened
    | byUuid pid =>
      simp only [Attempt.wp_bind, Attempt.wp_modify, Attempt.wp_throw]
      exact hE _ hs.resolvePidfile.unopened
  · refine hQ s hs fun htakes => ?_
    rw [hs.lockAcquired, htakes] at htaken
    simp at htaken

theorem wp_resolveArg {path : String} {put : String → StartConfig → StartConfig}
    {step : StartStep} (hQ : path = "" → Q () s)
    (hput : ∀ path', path ≠ "" → path' ≠ "" → Q () (onCfg (put path') s)) (hE : E step s) :
    (resolveArg a path put step).wp Q E s := by
  unfold resolveArg
  refine Attempt.wp_ite (fun hpath => ?_) fun hpath => hQ (not_not.1 hpath)
  cases hresolve : a.resolve path with
  | none => exact hE
  | some path' => exact hput path' hpath (a.resolve_ne _ _ hresolve)

/-- The resolved paths are not empty. -/
theorem wp_resolvePaths (hs : Early a host cfg garbage e s)
    (hQ : ∀ t, Early a host cfg garbage e t → t.cfg.pidfile = s.cfg.pidfile → Q () t)
    (hE : ∀ step t, step.returnsAtOnce = false → Unopened t → E step t) :
    (resolvePaths a).wp Q E s := by
  have himg : ∀ t, Early a host cfg garbage e t → t.cfg.pidfile = s.cfg.pidfile →
      (resolveArg a t.cfg.rootfsImgPath (fun path cfg => { cfg with rootfsImgPath := path })
        .rootfsImgPath).wp Q E t := fun t ht hpidfile =>
    wp_resolveArg (fun _ => hQ t ht hpidfile) (fun path' hold hnew => hQ _
      { ht with img := by simpa [onCfg, hnew] using fun h => hold (ht.img.2 h) } hpidfile)
      (hE _ t rfl ht.unopened)
  unfold resolvePaths
  simp only [Attempt.wp_bind, Attempt.wp_get]
  exact wp_resolveArg (fun _ => himg s hs rfl) (fun path' _ _ => himg _ { hs with } rfl)
    (hE _ s rfl hs.unopened)

/-- The SELinux mode from `applySelinux` on. -/
def selinuxOf (host : StartHost) (cfg : StartConfig) : Selinux :=
  if cfg.selinuxPermissive then dsSetSelinuxPermissive true host.enforcing else host.enforcing

theorem Early.applySelinux (hs : Early a host cfg garbage host.enforcing s) :
    Early a host cfg garbage (selinuxOf host cfg) (applySelinux s) :=
  { hs with
    enforcing := by simp [Startup.applySelinux, onHost, selinuxOf, hs.enforcing, hs.permissive] }

/-- Unmounting leaves the rest of the host alone. -/
theorem unmountImg_frame (a : StartAnswers) (path : String) (host : StartHost) :
    (unmountImg a path host).lock = host.lock ∧
      (unmountImg a path host).tracking = host.tracking ∧
      (unmountImg a path host).firmware = host.firmware ∧
      (unmountImg a path host).enforcing = host.enforcing := by
  unfold unmountImg setMounted
  split_ifs <;> simp

/-- What the mount and the checks of the init binary leave as it is. -/
structure Prepared (a : StartAnswers) (host : StartHost) (cfg : StartConfig) (s : Start) :
    Prop where
  tracking : s.host.tracking = host.tracking
  firmware : s.host.firmware = host.firmware
  enforcing : s.host.enforcing = selinuxOf host cfg
  owns : takesOver a host cfg = true → ownsLock a s.host.lock
  disowns : takesOver a host cfg = false → ¬ ownsLock a s.host.lock ∧
    s.cfg.pidfile = cfg.resolvedPidfile a
  noImage : takesOver a host cfg = false → cfg.rootfsImgPath = "" → s.tookMount = none
  image : takesOver a host cfg = false → cfg.rootfsImgPath ≠ "" →
    s.tookMount = some a.mountPoint ∧ s.cfg.isImgMount = true ∧ s.cfg.imgMountPoint = a.mountPoint
  opened : s.opened = []
  closed : s.closed = []

/-- Once the image is mounted, if there is one. -/
structure Mounted (a : StartAnswers) (host : StartHost) (cfg : StartConfig) (garbage : ℤ × ℤ)
    (s : Start) : Prop extends Prepared a host cfg s where
  mounted : takesOver a host cfg = false → cfg.rootfsImgPath ≠ "" →
    s.host.mounted a.mountPoint = true
  master : s.master = 0
  syncPipe : s.syncPipe = garbage

theorem Mounted.unopened (hs : Mounted a host cfg garbage s) : Unopened s :=
  ⟨hs.master, hs.opened⟩

theorem wp_mountImage (hs : Early a host cfg garbage (selinuxOf host cfg) s)
    (hpidfile : takesOver a host cfg = false → s.cfg.pidfile = cfg.resolvedPidfile a)
    (hQ : ∀ t, Mounted a host cfg garbage t → Q () t) (hE : ∀ t, Unopened t → E .mountImg t) :
    (mountImage a).wp Q E s := by
  obtain ⟨hlock, htracking, hfirmware, henforcing⟩ := unmountImg_frame a a.mountPoint s.host
  unfold mountImage
  simp only [Attempt.wp_bind, Attempt.wp_get]
  refine Attempt.wp_ite (fun hcond => ?_) fun hcond => hQ s ?_
  · simp only [Attempt.wp_bind, Attempt.wp_modify]
    refine Attempt.wp_failIf (fun _ => hE _ hs.unopened) fun _ => ?_
    refine Attempt.wp_failIf (fun _ => hE _ hs.unopened) fun _ => hQ _ ?_
    have hempty : cfg.rootfsImgPath ≠ "" := fun h => hcond.1 (hs.img.2 h)
    exact {
      tracking := htracking.trans hs.tracking
      firmware := hfirmware.trans hs.firmware
      enforcing := henforcing.trans hs.enforcing
      owns := fun htakes => hlock ▸ hs.owns htakes
      disowns := fun hfresh => ⟨hlock ▸ (hs.disowns hfresh).1, hpidfile hfresh⟩
      noImage := fun _ h => absurd h hempty
      image := fun _ _ => ⟨rfl, rfl, rfl⟩
      mounted := fun _ _ => by simp [onHost, onCfg, setMounted]
      master := hs.master
      syncPipe := hs.syncPipe
      opened := hs.opened
      closed := hs.closed }
  · have hskip : takesOver a host cfg = false → cfg.rootfsImgPath = "" := by
      intro hfresh
      by_contra himg
      refine hcond ⟨fun h => himg (hs.img.1 h), ?_⟩
      simp [hs.lockAcquired, hfresh]
    exact {
      tracking := hs.tracking
      firmware := hs.firmware
      enforcing := hs.enforcing
      owns := hs.owns
      disowns := fun hfresh => ⟨(hs.disowns hfresh).1, hpidfile hfresh⟩
      noImage := fun hfresh _ => (hs.disowns hfresh).2
      image := fun hfresh himg => absurd (hskip hfresh) himg
      mounted := fun hfresh himg => absurd (hskip hfresh) himg
      master := hs.master
      syncPipe := hs.syncPipe
      opened := hs.opened
      closed := hs.closed }

/-- At one of the direct returns. -/
structure AtOnce (a : StartAnswers) (host : StartHost) (cfg : StartConfig) (s : Start) : Prop
    extends Prepared a host cfg s where
  unmounted : takesOver a host cfg = false → cfg.rootfsImgPath ≠ "" →
    (s.host.mounted a.mountPoint = false ↔ a.umountWorks = true)

theorem Mounted.atOnce (hs : Mounted a host cfg garbage s) :
    AtOnce a host cfg
      (if s.cfg.isImgMount then onHost (unmountImg a s.cfg.imgMountPoint) s else s) := by
  obtain ⟨hlock, htracking, hfirmware, henforcing⟩ :=
    unmountImg_frame a s.cfg.imgMountPoint s.host
  split
  · exact {
      tracking := htracking.trans hs.tracking
      firmware := hfirmware.trans hs.firmware
      enforcing := henforcing.trans hs.enforcing
      owns := fun htakes => hlock ▸ hs.owns htakes
      disowns := fun hfresh => ⟨hlock ▸ (hs.disowns hfresh).1, (hs.disowns hfresh).2⟩
      noImage := hs.noImage
      image := hs.image
      opened := hs.opened
      closed := hs.closed
      unmounted := by
        intro hfresh himg
        obtain ⟨-, -, hpoint⟩ := hs.image hfresh himg
        have hmounted := hs.mounted hfresh himg
        simp only [onHost, unmountImg, hpoint]
        split_ifs with hcond
        · simp [setMounted, hcond.2]
        · have hfails : a.umountWorks ≠ true := fun h => hcond ⟨a.mountPoint_ne, h⟩
          simp [hmounted, hfails] }
  · next hnot =>
    exact {
      tracking := hs.tracking
      firmware := hs.firmware
      enforcing := hs.enforcing
      owns := hs.owns
      disowns := hs.disowns
      noImage := hs.noImage
      image := hs.image
      opened := hs.opened
      closed := hs.closed
      unmounted := fun hfresh himg => absurd (hs.image hfresh himg).2.1 hnot }

theorem wp_checkInit (hs : Mounted a host cfg garbage s)
    (hQ : Q () s)
    (hE : ∀ step t, step.returnsAtOnce = true → AtOnce a host cfg t → E step t) :
    (checkInit a).wp Q E s := by
  unfold checkInit
  refine Attempt.wp_ite (fun _ => ?_) fun _ => Attempt.wp_ite (fun _ => ?_) fun _ => hQ
  · simp only [Attempt.wp_bind, Attempt.wp_modify, Attempt.wp_throw]
    exact hE _ _ rfl hs.atOnce
  · simp only [Attempt.wp_bind, Attempt.wp_modify, Attempt.wp_throw]
    exact hE _ _ rfl hs.atOnce

theorem wp_preflight (hQ : Q () s) (hE : ∀ step, step.returnsAtOnce = false → E step s) :
    (preflight a).wp Q E s := by
  unfold preflight
  simp only [Attempt.wp_bind, Attempt.wp_get]
  exact Attempt.wp_failIf (fun _ => hE _ rfl) fun _ =>
    Attempt.wp_failIf (fun _ => hE _ rfl) fun _ => hQ

end Way

/-! ## What the label closes -/

section Label

variable {a : StartAnswers} {garbage : ℤ × ℤ} {s : Start} {pty : Pty}
  {Q : Unit → Start → Prop} {E : StartStep → Start → Prop}

@[simp] theorem cleanupLabel_opened (a : StartAnswers) (s : Start) :
    (cleanupLabel a s).opened = s.opened := by
  simp only [cleanupLabel, onHost, closeFd]
  split_ifs <;> rfl

theorem cleanupLabel_closed (a : StartAnswers) (s : Start) :
    (cleanupLabel a s).closed =
      s.closed ++ [s.master, s.syncPipe.1, s.syncPipe.2].filter (0 ≤ ·) := by
  simp only [cleanupLabel, onHost, closeFd]
  split_ifs <;> simp_all

/-- After the label some descriptor has been closed too often or not at all. -/
def Miscloses (a : StartAnswers) (s : Start) : Prop :=
  ∃ fd, (cleanupLabel a s).closed.count fd ≠ if fd ∈ s.opened then 1 else 0

/-- Descriptor 0 was never opened. -/
theorem Unopened.miscloses (hs : Unopened s) : Miscloses a s := by
  obtain ⟨hmaster, hopened⟩ := hs
  refine ⟨0, ?_⟩
  rw [cleanupLabel_closed, hmaster, hopened, List.count_append]
  simp

/-- With the PTY allocated and the pipe not made yet. -/
structure HasTerminal (garbage : ℤ × ℤ) (pty : Pty) (s : Start) : Prop where
  master : s.master = pty.master
  syncPipe : s.syncPipe = garbage
  opened : s.opened = [(pty.master : ℤ), (pty.slave : ℤ)]
  closed : s.closed = []

/-- The slave side stays open. -/
theorem HasTerminal.miscloses (hs : HasTerminal (-1, -1) pty s) : Miscloses a s := by
  refine ⟨pty.slave, ?_⟩
  rw [cleanupLabel_closed, hs.closed, hs.master, hs.syncPipe, hs.opened]
  have hcast : (pty.master : ℤ) ≠ pty.slave := by exact_mod_cast pty.ne
  simp [hcast]

/-- The write end of the pipe is closed a second time. -/
theorem miscloses_of_closed {w : ℕ} (hw : s.syncPipe.2 = w) (hclosed : (w : ℤ) ∈ s.closed) :
    Miscloses a s := by
  refine ⟨w, ?_⟩
  have hfirst : 1 ≤ s.closed.count (w : ℤ) := List.count_pos_iff.2 hclosed
  have hagain : 1 ≤ ([s.master, s.syncPipe.1, s.syncPipe.2].filter (0 ≤ ·)).count (w : ℤ) := by
    refine List.count_pos_iff.2 (List.mem_filter.2 ⟨?_, ?_⟩) <;> simp [hw]
  rw [cleanupLabel_closed, List.count_append]
  split_ifs <;> omega

theorem wp_createTerminal (hmaster : s.master = 0) (hpipe : s.syncPipe = garbage)
    (hopened : s.opened = []) (hclosed : s.closed = [])
    (hQ : ∀ pty t, HasTerminal garbage pty t → Q () t)
    (hE : ∀ t, Unopened t → E .console t) : (createTerminal a).wp Q E s := by
  unfold createTerminal
  simp only [Attempt.wp_bind, Attempt.wp_get]
  refine Attempt.wp_ite (fun _ => ?_) fun _ => ?_
  · simp only [Attempt.wp_bind, Attempt.wp_modify]
    cases a.pty with
    | none => exact hE _ ⟨hmaster, hopened⟩
    | some pty => exact hQ pty _ ⟨rfl, hpipe, by simp [onHost, hopened], hclosed⟩
  · cases a.pty with
    | none => exact hE _ ⟨hmaster, hopened⟩
    | some pty => exact hQ pty _ ⟨rfl, hpipe, by simp [hopened], hclosed⟩

theorem wp_forkMonitor {Q : Pid → Start → Prop} (hs : HasTerminal garbage pty s)
    (hQ : ∀ pid t, Q pid t)
    (hE : ∀ step t, step.returnsAtOnce = false → (garbage = (-1, -1) → Miscloses a t) →
      E step t) : (forkMonitor a).wp Q E s := by
  unfold forkMonitor
  simp only [Attempt.wp_bind, Attempt.wp_modify]
  cases a.pipe with
  | none =>
    refine hE _ _ rfl fun hgarbage => ?_
    subst hgarbage
    have hterminal : HasTerminal (-1, -1) pty (resolvePidfile a s) :=
      ⟨hs.master, hs.syncPipe, hs.opened, hs.closed⟩
    exact hterminal.miscloses
  | some ends =>
    obtain ⟨r, w⟩ := ends
    simp only [Attempt.wp_bind, Attempt.wp_modify]
    refine Attempt.wp_ite (fun _ => ?_) fun _ => ?_
    · refine hE _ _ rfl fun _ => miscloses_of_closed (w := w) rfl ?_
      simp [closeFd]
    · simp only [Attempt.wp_bind, Attempt.wp_modify]
      cases a.pidSent with
      | some pid => exact hQ pid _
      | none =>
        simp only [Attempt.wp_bind, Attempt.wp_modify, Attempt.wp_throw]
        refine hE _ _ rfl fun _ => miscloses_of_closed (w := w) ?_ ?_
        · split <;> rfl
        · split <;> simp [closeFd, onHost]

end Label

/-! ## Exactly when nothing is left -/

section Exact

variable {a : StartAnswers} {host : StartHost} {cfg : StartConfig} {step : StartStep}

theorem Miscloses.not_undone {s : Start} (h : Miscloses a s) :
    ¬ Undone a host (cleanupLabel a s) := by
  obtain ⟨fd, hfd⟩ := h
  intro hundone
  refine hfd ?_
  simpa using hundone.descriptors fd

theorem selinuxOf_eq_self :
    selinuxOf host cfg = host.enforcing ↔
      (cfg.selinuxPermissive = true → host.enforcing ≠ some true) := by
  unfold selinuxOf
  split
  · next hpermissive => simp [hpermissive, dsSetSelinuxPermissive_eq_self]
  · next hpermissive => simp [hpermissive]

/-- A direct return undoes the image mount and nothing else. -/
theorem AtOnce.undone_iff {s : Start} (hs : AtOnce a host cfg s)
    (hstep : step.returnsAtOnce = true) :
    Undone a host s ↔ NothingToUndo a host cfg step := by
  cases hfresh : takesOver a host cfg with
  | true =>
    constructor
    · exact fun hundone => absurd (hs.owns hfresh) hundone.lock
    · intro hnothing
      rw [hnothing.fresh] at hfresh
      cases hfresh
  | false =>
    obtain ⟨hlock, hpidfile⟩ := hs.disowns hfresh
    constructor
    · intro hundone
      refine ⟨hstep, hfresh, ?_, fun himg => ?_, ?_⟩
      · simpa only [hs.tracking, hpidfile] using hundone.pidfile
      · obtain ⟨htook, -, -⟩ := hs.image hfresh himg
        obtain ⟨hmounted, hmount, hinit⟩ := hundone.image _ htook
        rw [hs.tracking, hpidfile] at hmount hinit
        exact ⟨(hs.unmounted hfresh himg).1 hmounted, hmount, hinit⟩
      · exact selinuxOf_eq_self.1 (hs.enforcing.symm.trans hundone.selinux)
    · intro hnothing
      refine ⟨fun mount htook => ?_, ?_, hlock, ?_, hs.firmware, fun fd => ?_⟩
      · by_cases himg : cfg.rootfsImgPath = ""
        · rw [hs.noImage hfresh himg] at htook
          cases htook
        · obtain ⟨hpoint, -, -⟩ := hs.image hfresh himg
          obtain ⟨hworks, hmount, hinit⟩ := hnothing.image himg
          obtain rfl : a.mountPoint = mount := Option.some.inj (hpoint.symm.trans htook)
          rw [hs.tracking, hpidfile]
          exact ⟨(hs.unmounted hfresh himg).2 hworks, hmount, hinit⟩
      · simpa only [hs.tracking, hpidfile] using hnothing.pidfile
      · exact hs.enforcing.trans (selinuxOf_eq_self.2 hnothing.selinux)
      · simp [hs.opened, hs.closed]

/-- Where each step leaves the call. -/
theorem wp_startSteps (a : StartAnswers) (host : StartHost) (cfg : StartConfig)
    (garbage : ℤ × ℤ) :
    (startSteps a).wp (fun _ _ => True)
      (fun step s => (step.returnsAtOnce = true → AtOnce a host cfg s) ∧
        (step.returnsAtOnce = false → garbage = (-1, -1) → Miscloses a s))
      (Start.begin host cfg garbage) := by
  have hunopened : ∀ (step : StartStep) t, step.returnsAtOnce = false → Unopened t →
      (step.returnsAtOnce = true → AtOnce a host cfg t) ∧
        (step.returnsAtOnce = false → garbage = (-1, -1) → Miscloses a t) :=
    fun step t hstep ht => ⟨fun h => by simp [hstep] at h, fun _ _ => ht.miscloses⟩
  unfold startSteps
  simp only [Attempt.wp_bind, Attempt.wp_modify]
  refine wp_checkName early_detectRestart (fun s hs hpidfile => ?_) fun t => hunopened _ t rfl
  refine wp_resolvePaths hs (fun s' hs' hsame => ?_) hunopened
  refine wp_mountImage hs'.applySelinux
    (fun hfresh => hsame.trans (hpidfile hfresh)) (fun t ht => ?_) fun t => hunopened _ t rfl
  refine wp_checkInit ht ?_ fun step t' hstep ht' => ⟨fun _ => ht', fun h => by simp [hstep] at h⟩
  refine wp_preflight ?_ fun step hstep => hunopened step t hstep ht.unopened
  refine wp_createTerminal ht.master ht.syncPipe ht.opened ht.closed
    (fun pty t' ht' => ?_) fun t' => hunopened _ t' rfl
  exact wp_forkMonitor ht' (fun _ _ => trivial) fun step _ hstep hmiscloses =>
    ⟨fun h => by simp [hstep] at h, fun _ => hmiscloses⟩

theorem startRootfs_of_error {s t : Start} (h : startSteps a s = (.error step, t)) :
    (startRootfs a s).2 = if step.returnsAtOnce then t else cleanupLabel a t := by
  have hcatch : startRootfs a s = (do
      if !step.returnsAtOnce then
        modify (cleanupLabel a)
      throw step : StartM Pid) t := by
    unfold startRootfs
    simp only [tryCatch, tryCatchThe, MonadExceptOf.tryCatch, h]
  rw [hcatch]
  cases hstep : step.returnsAtOnce <;> rfl

/-- **A failed start leaves the host as it was exactly if it had nothing to undo**, whatever is on
its stack. -/
theorem start_failure_undone_iff (a : StartAnswers) (host : StartHost) (cfg : StartConfig)
    (step : StartStep)
    (hfail : ∀ garbage, (startSteps a (Start.begin host cfg garbage)).1 = .error step) :
    (∀ garbage, Undone a host (startRootfs a (Start.begin host cfg garbage)).2) ↔
      NothingToUndo a host cfg step := by
  have hrun : ∀ garbage, ∃ t, startSteps a (Start.begin host cfg garbage) = (.error step, t) :=
    fun garbage => ⟨_, Prod.ext (hfail garbage) rfl⟩
  cases hstep : step.returnsAtOnce with
  | true =>
    have hiff : ∀ garbage, Undone a host (startRootfs a (Start.begin host cfg garbage)).2 ↔
        NothingToUndo a host cfg step := by
      intro garbage
      obtain ⟨t, ht⟩ := hrun garbage
      have hspec := Attempt.wp_error (wp_startSteps a host cfg garbage) ht
      rw [startRootfs_of_error ht, if_pos hstep]
      exact (hspec.1 hstep).undone_iff hstep
    exact ⟨fun h => (hiff (0, 0)).1 (h _), fun h garbage => (hiff garbage).2 h⟩
  | false =>
    constructor
    · intro h
      obtain ⟨t, ht⟩ := hrun (-1, -1)
      have hspec := Attempt.wp_error (wp_startSteps a host cfg (-1, -1)) ht
      have hundone := h (-1, -1)
      rw [startRootfs_of_error ht, if_neg (by simp [hstep])] at hundone
      exact absurd hundone (hspec.2 hstep rfl).not_undone
    · intro hnothing
      have hatOnce := hnothing.atOnce
      rw [hstep] at hatOnce
      cases hatOnce

end Exact

/-! ## A directory container without an init -/

section Run

/-- A start on which everything works up to the fork of the monitor. -/
def answersOfDebian : StartAnswers where
  android := false
  me := 100
  me_lt := by decide
  boot := aBoot
  alive _ := false
  lockWritten := true
  globalPidfile := "/var/lib/Droidspaces/Pids/debian.pid"
  running := .no
  resolve path := if path = "" then none else some path
  resolve_ne := by
    intro p q h
    split at h
    · cases h
    · next hne => exact fun hq => hne (by rw [Option.some.inj h, hq])
  mountPoint := "/mnt/Droidspaces/debian"
  mountPoint_ne := by decide
  mountPointMade := true
  imgMounted := true
  umountWorks := true
  initFound := true
  initExecutable := true
  volatileSupported := true
  configSaved := true
  firmwarePresent := false
  pty := some ⟨5, 6, by decide⟩
  pipe := some (7, 8)
  forked := true
  pidSent := some 200
  countPrunes := false
  selinuxNeeds := none

def quietHost : StartHost where
  lock := none
  tracking _ := Tracking.nothing
  mounted _ := false
  enforcing := some true
  firmware := []

def debianConfig : StartConfig where
  pidfile := ""
  rootfsPath := "/data/debian"
  rootfsImgPath := ""
  isImgMount := false
  imgMountPoint := ""
  selinuxPermissive := false
  hwAccess := false
  configFile := ""

/-- The init is missing: nothing was done, nothing is left. -/
theorem start_failure_undone_noInit :
    (∀ garbage, (startSteps { answersOfDebian with initFound := false }
      (Start.begin quietHost debianConfig garbage)).1 = .error .initMissing) ∧
    ∀ garbage, Undone { answersOfDebian with initFound := false } quietHost
      (startRootfs { answersOfDebian with initFound := false }
        (Start.begin quietHost debianConfig garbage)).2 := by
  have hfail : ∀ garbage, (startSteps { answersOfDebian with initFound := false }
      (Start.begin quietHost debianConfig garbage)).1 = .error .initMissing := fun _ => rfl
  refine ⟨hfail, (start_failure_undone_iff _ _ _ _ hfail).2 ⟨rfl, rfl, ⟨rfl, rfl⟩, ?_, ?_⟩⟩
  · exact fun h => absurd rfl h
  · exact fun h => absurd h (by decide)

/-- No PTY is to be had: the label closes standard input. -/
theorem start_failure_closes_stdin :
    (startSteps { answersOfDebian with pty := none }
      (Start.begin quietHost debianConfig (-1, -1))).1 = .error .console ∧
    (startRootfs { answersOfDebian with pty := none }
      (Start.begin quietHost debianConfig (-1, -1))).2.opened = [] ∧
    (startRootfs { answersOfDebian with pty := none }
      (Start.begin quietHost debianConfig (-1, -1))).2.closed = [0] ∧
    ¬ Undone { answersOfDebian with pty := none } quietHost
      (startRootfs { answersOfDebian with pty := none }
        (Start.begin quietHost debianConfig (-1, -1))).2 := by
  refine ⟨rfl, rfl, rfl, fun hundone => ?_⟩
  have hcount := hundone.descriptors 0
  revert hcount
  decide

end Run

end Droidspaces.Startup
