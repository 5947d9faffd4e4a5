import Droidspaces.Lifecycle.LockFile
import Droidspaces.Transition.Machine

/-!
# The host, as the lifecycle code sees it

The world that the start, stop, monitor and boot code acts on: for every container name its files
under `Pids/`, its mount directory, its network rules and its cgroup, and the process table.  One
`Op` is one system call of the source (or one short run of them on state that nobody else sees).
Operations are split into queries, which leave the world alone, actions, which change it, and
marks, which name a place in the code and do nothing.

What the environment decides (whether a wait runs out, the pid of a fork, what a configuration
file says) is the number that comes with each step; `0` stands for "it went well".

Left out, because no modelled function reads it back: the text of logs and messages, sync and
sleep calls, signals (a process may die at any moment anyway), the display and sound daemons.
Writes of small files succeed; a directory is listed as it was when it was opened.
-/

namespace Droidspaces

open Transition

/-! ## Configurations and places in the code -/

/-- The 32 hexadecimal digits of a container's UUID. -/
abbrev Uuid := ℕ

inductive NetMode where
  | host
  | nat
  | gateway
  | none
  deriving DecidableEq

/-- The fields of `struct ds_config` that the lifecycle functions branch on. -/
structure Config (N : Type) where
  name : N
  uuid : Option Uuid
  /-- `rootfs_img_path` is set: the rootfs is an image, mounted on `/mnt/Droidspaces/<name>`. -/
  img : Bool
  net : NetMode
  /-- The monitor gets a cgroup of its own (v2 host, no `force_cgroupv1`). -/
  cgroup : Bool
  foreground : Bool

/-- A rootfs directory with host networking. -/
def Config.plain {N : Type} (n : N) : Config N where
  name := n
  uuid := none
  img := false
  net := .host
  cgroup := false
  foreground := false

/-- The same with an image. -/
def Config.image {N : Type} (n : N) : Config N := { Config.plain n with img := true }

/-- What the lifecycle functions use of a configuration file that they load again. -/
structure Loaded where
  /-- The feature that `ds_feature_needs` asks for. -/
  feature : Bool
  net : NetMode
  uuid : Option Uuid

/-- How a container init, and after it the intermediate process, ended. -/
inductive Exit where
  /-- `reboot(2)` inside the container, reported as `DS_REBOOT_EXIT`. -/
  | reboot
  | normal
  deriving DecidableEq

/-- Where a process can start, or go on. -/
inductive Entry (N : Type) where
  | start (cfg : Config N)
  | stop (cfg : Config N)
  /-- `restart`: a stop with the booted configuration, then a start with the reloaded one. -/
  | restart (booted reloaded : Config N)
  | countRunningContainers
  | showContainers
  | scanContainers
  /-- Any sequence of calls of the three lock functions on one name. -/
  | lockClient (n : N)
  | monitor (cfg : Config N)
  /-- `reboot_loop` of `ds_monitor_run`. -/
  | rebootLoop (cfg : Config N) (rebootCycle : Bool)
  | intermediate (cfg : Config N) (rebootCycle : Bool)
  | init (cfg : Config N)
  | exited

/-- What a process is, fixed when it is born. -/
inductive Role (N : Type) where
  /-- A CLI command for one container. -/
  | command (n : N)
  /-- A CLI command that looks at all containers. -/
  | query
  | monitor (n : N)
  | intermediate (n : N)
  | init (n : N)
  deriving DecidableEq

def Entry.role {N : Type} : Entry N → Role N
  | start cfg | stop cfg | restart cfg _ => .command cfg.name
  | lockClient n => .command n
  | countRunningContainers | showContainers | scanContainers | exited => .query
  | monitor cfg | rebootLoop cfg _ => .monitor cfg.name
  | intermediate cfg _ => .intermediate cfg.name
  | init cfg => .init cfg.name

/-! ## Operations -/

/-- Operations that read. -/
inductive Query (N : Type) where
  /-- `getpid()`. -/
  | self
  /-- A step of the source that may fail for reasons outside this model. -/
  | fallible
  | isAndroid
  /-- `opendir(get_pids_dir())` and its `readdir` loop. -/
  | listPids
  /-- `read_file(pidfile)` and the parse of its content. -/
  | readPid (n : N)
  /-- `access(pidfile, F_OK)`. -/
  | accessPid (n : N)
  /-- `read_mount_path(pidfile)`: whether `<name>.mount` exists. -/
  | readMount (n : N)
  /-- `ds_config_load_by_name`. -/
  | loadConfig (n : N)
  | generateUuid
  /-- `access(lock_path, F_OK)`, outside the lock functions. -/
  | lockAccess (n : N)
  /-- `access(lock_path, F_OK)`, the first step of a lock function. -/
  | lockLook (n : N)
  /-- `read_file(lock_path, buf, 64)`. -/
  | lockRead (n : N)
  /-- `lock_holder_if_alive(buf)`. -/
  | lockProbe (buf : Text)
  /-- Which lock function a `lockClient` calls next. -/
  | lockCall
  /-- `kill(pid, 0)`. -/
  | kill0 (p : Pid)
  /-- A loop of `kill(pid, 0)`: whether the process was gone before the loop ran out. -/
  | awaitGone (p : Pid)
  /-- `is_valid_container_pid`. -/
  | validPid (p : Pid)
  /-- The boot poll of `start_rootfs`: whether the marker appeared in time. -/
  | awaitMarker (p : Pid)
  /-- `/proc/<pid>/root/run/droidspaces/<uuid>`. -/
  | uuidMarker (p : Pid) (u : Uuid)
  /-- The UUID markers of one process, for `collect_active_uuids`. -/
  | uuidsOf (p : Pid)
  /-- `/proc/<pid>/root/run/droidspaces/name`. -/
  | nameMarker (p : Pid)
  /-- `/proc/<pid>/root/run/droidspaces/mount`. -/
  | mountMarker (p : Pid)
  /-- `collect_pids`. -/
  | collectPids
  /-- `read(sync_pipe[0])`: `none` at end of file. -/
  | syncRead
  /-- `read(mid_sync_pipe[0])` by the monitor. -/
  | midRead (mid : Pid)
  /-- `read(net_ready_pipe[0])` by the monitor. -/
  | netReadyRead (init : Pid)
  /-- `read(net_done_pipe[0])` by the init. -/
  | netDoneRead
  /-- `waitpid(mid_pid)` by the monitor. -/
  | waitMid (mid : Pid)
  /-- `access(mount_path, F_OK)`. -/
  | accessMnt (n : N)
  | isMountpoint (n : N)
  /-- `opendir("/mnt/Droidspaces")` and its `readdir` loop. -/
  | listMnt

/-- Operations that write. -/
inductive Action (N : Type) where
  /-- `write_file_atomic(pidfile, "<pid>")`. -/
  | writePid (n : N) (p : Pid)
  | unlinkPid (n : N)
  | writeMount (n : N)
  | unlinkMount (n : N)
  | writeInit (n : N)
  | unlinkInit (n : N)
  | unlinkLock (n : N)
  /-- `write_file_atomic(lock_path, lock_str)`. -/
  | renameLock (n : N)
  | fork (e : Entry N)
  | exit (how : Exit)
  /-- `waitpid(init_pid)` by the intermediate. -/
  | waitInit (init : Pid)
  /-- `write(sync_pipe[1], &init_pid)` and the close after it. -/
  | syncWrite (init : Pid)
  /-- `write(mid_sync_pipe[1], &init_pid)`. -/
  | midWrite (init : Pid)
  | netReadyWrite
  | netDoneWrite (init : Pid)
  /-- `mkdir("run/droidspaces")` in the container root. -/
  | markDir
  /-- The UUID marker file. -/
  | markUuid (u : Uuid)
  /-- The `name` and `mount` files beside it. -/
  | markIdentity (img : Bool)
  | mkdirMnt (n : N)
  | mountImg (n : N)
  | umount (n : N)
  | rmdirMnt (n : N)
  /-- `setup_veth_host_side`, `setup_gateway_veth_side`. -/
  | setupVeth (n : N)
  /-- `ds_net_cleanup`. -/
  | netCleanup (n : N)
  /-- `mkdir_p` of the cgroup. -/
  | cgroupMkdir (n : N)
  /-- The write of our pid to its `cgroup.procs`. -/
  | cgroupEnter (n : N)
  /-- The write of our pid to the root `cgroup.procs`. -/
  | cgroupLeave
  /-- The write to `cgroup.kill`. -/
  | cgroupKill (n : N)
  /-- The `rmdir` walk. -/
  | cgroupRmdir (n : N)

/-- Places in the code that properties refer to. -/
inductive Mark (N : Type) where
  /-- A lock function returns. -/
  | lockReturn (n : N)
  /-- A restart ends its stop and leaves the lock behind. -/
  | handOff (n : N)
  /-- `start_rootfs` is past its name check, or skips it because it takes over the mount that a
  restart preserved. -/
  | admitted (n : N) (restart : Bool)
  /-- `start_rootfs` has saved pidfile and sidecars. -/
  | recorded (n : N)
  /-- `stop_rootfs_with_timeout` has found init `p` running; `img` is whether it knows the mount. -/
  | stopping (n : N) (p : Pid) (img skip : Bool)
  /-- `cleanup_container_resources` begins, and ends. -/
  | cleanup (n : N) (skip : Bool)
  | cleaned (n : N)
  /-- The intermediate has reported its init and waits for it. -/
  | reported (n : N)
  /-- `internal_boot` is about to run, and has passed, the boot guard. -/
  | bootGuard (n : N)
  | bootPassed (n : N)
  /-- `scan_containers` opens `Pids/`, opens `/mnt/Droidspaces`, ends. -/
  | gather
  | sweep
  | swept
  /-- The table of tracked mounts is full and `rest` of the directory is left unread. -/
  | tableFull (rest : List N)

inductive Op (N : Type) where
  | query (q : Query N)
  | action (a : Action N)
  | mark (m : Mark N)

/-- One call of a `lockClient`. -/
inductive LockCall where
  | acquire
  | active
  | release
  | handOff
  | quit

variable {N : Type}

abbrev Query.Res : Query N → Type
  | self | generateUuid => Pid
  | fallible | isAndroid | accessPid _ | readMount _ | lockAccess _ | lockLook _ => Bool
  | kill0 _ | awaitGone _ | validPid _ | awaitMarker _ | uuidMarker _ _ | mountMarker _ => Bool
  | accessMnt _ | isMountpoint _ => Bool
  | listPids | listMnt => List N
  | readPid _ | lockProbe _ | syncRead | midRead _ => Option Pid
  | loadConfig _ => Loaded
  | lockRead _ => Option Text
  | lockCall => LockCall
  | uuidsOf _ => List Uuid
  | nameMarker _ => Option N
  | collectPids => List Pid
  | netReadyRead _ | netDoneRead => Unit
  | waitMid _ => Exit

abbrev Action.Res : Action N → Type
  | fork _ => Pid
  | waitInit _ => Exit
  | renameLock _ | mkdirMnt _ | mountImg _ => Bool
  | _ => Unit

abbrev Op.Res : Op N → Type
  | query q => q.Res
  | action a => a.Res
  | mark _ => Unit

/-- Programs of the lifecycle code. -/
abbrev Code (N : Type) := Prog (Op N) Op.Res

/-- The program that performs one operation of the lifecycle code. -/
def perform (op : Op N) : Code N op.Res := Prog.perform op

def ask (q : Query N) : Code N q.Res := perform (.query q)

def act (a : Action N) : Code N a.Res := perform (.action a)

def mark (m : Mark N) : Code N Unit := perform (.mark m)

/-! ## The world -/

inductive Life where
  | unborn
  | running
  /-- Dead, and its parent has not waited for it yet. -/
  | zombie
  | gone
  deriving DecidableEq

/-- One entry of the process table, with what the process reads from pipes and shows in its
container root. -/
structure Proc (N : Type) where
  life : Life
  /-- Where it started. -/
  entry : Entry N
  parent : Pid
  /-- The process whose sync pipe this one can still write to. -/
  syncOut : Option Pid
  /-- What lies in its own sync pipe. -/
  syncIn : Option Pid
  midIn : Option Pid
  ready : Bool
  done : Bool
  /-- `/run/droidspaces` and what is in it. -/
  marked : Bool
  uuids : List Uuid
  identity : Option Bool
  cgroup : Option N
  how : Exit

/-- What the process is. -/
def Proc.role (q : Proc N) : Role N := q.entry.role

/-- A process as it is born. -/
def Proc.newborn (entry : Entry N) (parent : Pid) (syncOut : Option Pid) (cgroup : Option N) :
    Proc N where
  life := .running
  entry := entry
  parent := parent
  syncOut := syncOut
  syncIn := none
  midIn := none
  ready := false
  done := false
  marked := false
  uuids := []
  identity := none
  cgroup := cgroup
  how := .normal

def Proc.unborn : Proc N :=
  { Proc.newborn .exited 0 none none with life := .unborn }

/-- A process dies; only a container init has a parent that waits for its status. -/
def Proc.die (q : Proc N) (how : Exit) : Proc N :=
  match q.role with
  | .init _ => { q with life := .zombie, how := how }
  | _ => { q with life := .gone, how := how }

/-- What belongs to one container name. -/
structure Files where
  /-- `<name>.pid`, `<name>.mount`, `<name>.init` and `<name>.lock` under `Pids/`. -/
  pid : Option Pid
  mount : Bool
  init : Bool
  lock : Option Text
  /-- The directory `/mnt/Droidspaces/<name>`, and how many images are mounted on it. -/
  dir : Bool
  mnt : ℕ
  rules : Bool
  cgroup : Bool

def Files.none : Files where
  pid := Option.none
  mount := false
  init := false
  lock := Option.none
  dir := false
  mnt := 0
  rules := false
  cgroup := false

structure World (N : Type) where
  boot : BootId
  android : Bool
  /-- The kernel has `cgroup.kill`. -/
  cgroupKill : Bool
  files : N → Files
  /-- Every name that ever had a pidfile or a mount directory, in directory order. -/
  names : List N
  procs : Pid → Proc N
  /-- Every pid ever used. -/
  pids : List Pid

/-- A host on which nothing has happened yet. -/
def World.idle (boot : BootId) : World N where
  boot := boot
  android := false
  cgroupKill := true
  files := fun _ => Files.none
  names := []
  procs := fun _ => Proc.unborn
  pids := []

namespace World

variable (w : World N)

def running (p : Pid) : Bool := (w.procs p).life == .running

/-- The process answers `kill(pid, 0)`: it runs, or nobody has waited for it yet. -/
def present (p : Pid) : Bool :=
  match (w.procs p).life with
  | .running => true
  | .zombie => w.running (w.procs p).parent
  | _ => false

/-- The process is a container init with its marker directory in place. -/
def valid (p : Pid) : Bool :=
  w.running p && (w.procs p).marked &&
    match (w.procs p).role with
    | .init _ => true
    | _ => false

variable [DecidableEq N]

def setProc (p : Pid) (f : Proc N → Proc N) : World N :=
  { w with procs := Function.update w.procs p (f (w.procs p)) }

def setFiles (n : N) (f : Files → Files) : World N :=
  { w with files := Function.update w.files n (f (w.files n)) }

def addName (n : N) : World N :=
  { w with names := if n ∈ w.names then w.names else n :: w.names }

/-- A new process; the pid must never have been used. -/
def born (c : Pid) (q : Proc N) : Option (World N) :=
  if (w.procs c).life = .unborn ∧ 0 < c ∧ c < pidMax then
    some { w with procs := Function.update w.procs c q, pids := c :: w.pids }
  else none

def kill (p : Pid) (how : Exit) : World N := w.setProc p fun q => q.die how

/-- Everything that runs in the cgroup of `n` is killed. -/
def killCgroup (n : N) : World N :=
  { w with
    procs := fun p =>
      if w.running p && (w.procs p).cgroup == some n then (w.procs p).die .normal
      else w.procs p }

end World

/-! ## What the operations do -/

/-- A call that the environment lets go well. -/
def goesWell (choice : ℕ) : Bool := choice == 0

/-- A configuration file that the environment makes up. -/
def someConfig (choice : ℕ) : Loaded where
  feature := choice % 2 == 1
  net := match choice / 2 % 4 with
    | 0 => .host
    | 1 => .nat
    | 2 => .gateway
    | _ => .none
  uuid := if choice / 8 = 0 then none else some (choice / 8)

def someCall : ℕ → LockCall
  | 0 => .acquire
  | 1 => .active
  | 2 => .release
  | 3 => .handOff
  | _ => .quit

/-- The answer of a query to process `me`; `none` while the query blocks. -/
def answer (w : World N) (me : Pid) (q : Query N) (choice : ℕ) : Option q.Res :=
  match q with
  | .self => some me
  | .fallible => some (goesWell choice)
  | .isAndroid => some w.android
  | .listPids => some (w.names.filter fun n => (w.files n).pid.isSome)
  | .readPid n => some (w.files n).pid
  | .accessPid n => some (w.files n).pid.isSome
  | .readMount n => some (w.files n).mount
  | .loadConfig _ => some (someConfig choice)
  | .generateUuid => some choice
  | .lockAccess n | .lockLook n => some (w.files n).lock.isSome
  | .lockRead n => some ((w.files n).lock.map (readFile 64))
  | .lockProbe buf => some (lockHolderIfAlive w.boot w.present buf)
  | .lockCall => some (someCall choice)
  | .kill0 p => some (w.present p)
  | .awaitGone p =>
    if goesWell choice then (if w.present p then none else some true) else some false
  | .validPid p => some (w.valid p)
  | .awaitMarker p =>
    if goesWell choice then (if w.running p && (w.procs p).marked then some true else none)
    else some false
  | .uuidMarker p u => some (w.running p && (w.procs p).marked && (w.procs p).uuids.contains u)
  | .uuidsOf p =>
    some (if w.running p && (w.procs p).marked then (w.procs p).uuids else [])
  | .nameMarker p =>
    match (w.procs p).role, (w.procs p).identity with
    | .init n, some _ => some (if w.running p then some n else none)
    | _, _ => some none
  | .mountMarker p => some (w.running p && (w.procs p).identity == some true)
  | .collectPids => some (w.pids.filter w.present)
  | .syncRead =>
    match (w.procs me).syncIn with
    | some v => some (some v)
    | none =>
      if w.pids.any (fun q => w.running q && (w.procs q).syncOut == some me) then none
      else some none
  | .midRead mid =>
    match (w.procs me).midIn with
    | some v => some (some v)
    | none => if w.running mid then none else some none
  | .netReadyRead p => if (w.procs p).ready || !w.running p then some () else none
  | .netDoneRead =>
    if (w.procs me).done || !w.running (w.procs (w.procs me).parent).parent then some ()
    else none
  | .waitMid mid => if (w.procs mid).life = .gone then some (w.procs mid).how else none
  | .accessMnt n => some (w.files n).dir
  | .isMountpoint n => some (0 < (w.files n).mnt)
  | .listMnt => some (w.names.filter fun n => (w.files n).dir)

variable [DecidableEq N]

/-- What a new process inherits from the one that forks it. -/
def Entry.newborn (w : World N) (me : Pid) (e : Entry N) : Proc N :=
  let out := match e with
    | .monitor _ => some me
    | .intermediate _ _ => (w.procs me).syncOut
    | _ => none
  Proc.newborn e me out (w.procs me).cgroup

/-- The pipe ends of the parent after a fork: a monitor closes its sync pipe and starts the cycle
with an empty pipe from the intermediate. -/
def Entry.afterFork (e : Entry N) (q : Proc N) : Proc N :=
  match e with
  | .intermediate _ _ => { q with syncOut := none, midIn := none }
  | _ => q

/-- The effect of an action of process `me`; `none` while the action blocks. -/
def effect (w : World N) (me : Pid) (a : Action N) (choice : ℕ) : Option (World N × a.Res) :=
  match a with
  | .writePid n p => some ((w.setFiles n fun f => { f with pid := some p }).addName n, ())
  | .unlinkPid n => some (w.setFiles n fun f => { f with pid := none }, ())
  | .writeMount n => some (w.setFiles n fun f => { f with mount := true }, ())
  | .unlinkMount n => some (w.setFiles n fun f => { f with mount := false }, ())
  | .writeInit n => some (w.setFiles n fun f => { f with init := true }, ())
  | .unlinkInit n => some (w.setFiles n fun f => { f with init := false }, ())
  | .unlinkLock n => some (w.setFiles n fun f => { f with lock := none }, ())
  | .renameLock n =>
    if goesWell choice then
      some (w.setFiles n fun f => { f with lock := some (lockStamp w.boot me) }, true)
    else some (w, false)
  | .fork e => ((w.setProc me e.afterFork).born choice (e.newborn w me)).map fun w' => (w', choice)
  | .exit how => some (w.kill me how, ())
  | .waitInit p =>
    if (w.procs p).life = .zombie ∨ (w.procs p).life = .gone then
      some (w.setProc p fun q => { q with life := .gone }, (w.procs p).how)
    else none
  | .syncWrite p =>
    match (w.procs me).syncOut with
    | some s => some ((w.setProc s fun q => { q with syncIn := some p }).setProc me
        fun q => { q with syncOut := none }, ())
    | none => some (w, ())
  | .midWrite p => some (w.setProc (w.procs me).parent fun q => { q with midIn := some p }, ())
  | .netReadyWrite => some (w.setProc me fun q => { q with ready := true }, ())
  | .netDoneWrite p => some (w.setProc p fun q => { q with done := true }, ())
  | .markDir => some (w.setProc me fun q => { q with marked := true }, ())
  | .markUuid u => some (w.setProc me fun q => { q with uuids := u :: q.uuids }, ())
  | .markIdentity img => some (w.setProc me fun q => { q with identity := some img }, ())
  | .mkdirMnt n =>
    if (w.files n).dir then some (w, false)
    else some ((w.setFiles n fun f => { f with dir := true }).addName n, true)
  | .mountImg n =>
    if (w.files n).dir ∧ goesWell choice then
      some (w.setFiles n fun f => { f with mnt := f.mnt + 1 }, true)
    else some (w, false)
  | .umount n => some (w.setFiles n fun f => { f with mnt := f.mnt - 1 }, ())
  | .rmdirMnt n =>
    if (w.files n).mnt = 0 then some (w.setFiles n fun f => { f with dir := false }, ())
    else some (w, ())
  | .setupVeth n => some (w.setFiles n fun f => { f with rules := true }, ())
  | .netCleanup n => some (w.setFiles n fun f => { f with rules := false }, ())
  | .cgroupMkdir n => some (w.setFiles n fun f => { f with cgroup := true }, ())
  | .cgroupEnter n =>
    if (w.files n).cgroup then some (w.setProc me fun q => { q with cgroup := some n }, ())
    else some (w, ())
  | .cgroupLeave => some (w.setProc me fun q => { q with cgroup := none }, ())
  | .cgroupKill n =>
    if w.cgroupKill then some (w.killCgroup n, ()) else some (w, ())
  | .cgroupRmdir n =>
    if w.pids.any (fun p => w.running p && (w.procs p).cgroup == some n) then some (w, ())
    else some (w.setFiles n fun f => { f with cgroup := false }, ())

/-- The effect of an operation. -/
def exec (w : World N) (me : Pid) (op : Op N) (choice : ℕ) : Option (World N × op.Res) :=
  match op with
  | .query q => (answer w me q choice).map fun r => (w, r)
  | .action a => effect w me a choice
  | .mark _ => some (w, ())

end Droidspaces
