import Droidspaces.Transition.System
import Mathlib.Data.Nat.Notation
import Mathlib.Logic.Function.Basic
import Mathlib.Tactic.SplitIfs

/-!
# A session of the daemon

The process that serves a client forks the command, reads what it writes through two pipes or a
PTY, and passes it on in frames.  That the command has exited it learns from a `signalfd`, from the
end of both pipes, or from the hang-up of the terminal; the last frame says how.

The child and whatever inherits its output run beside it, so that their steps come in any order.
What a client types goes its own way, and is not followed here.
-/

namespace Droidspaces.ChildExit

open Function Transition

/-! ## The kernel -/

/-- A status of `waitpid` -/
inductive Status where
  | exited (code : Fin 256)
  | signaled (signal : ℕ)
  deriving DecidableEq

/-- `WIFEXITED(st) ? WEXITSTATUS(st) : 1` -/
def Status.code : Status → ℕ
  | .exited code => code
  | .signaled _ => 1

inductive Child where
  | none
  | running
  /-- It has exited, and has not been waited for. -/
  | exited (status : Status)
  | reaped (status : Status)
  deriving DecidableEq

/-- How the child has exited -/
def Child.status : Child → Option Status
  | .exited status | .reaped status => some status
  | .none | .running => .none

inductive Stream where
  | out
  | err
  deriving DecidableEq

abbrev Bytes := List UInt8

/-- A pipe; or a PTY, whose slave is written to and whose master is read -/
structure Source where
  unread : Bytes
  /-- The end that is read is open. -/
  isOpen : Bool
  /-- The session has an end to write to. -/
  handler : Bool
  /-- So has the child. -/
  child : Bool
  /-- How many others have inherited one -/
  others : ℕ
  deriving DecidableEq

/-- Somebody other than the session may write. -/
def Source.isHeld (source : Source) : Bool := source.child || decide (0 < source.others)

/-- When nothing is left, reading comes to the end of the file, or to `EIO`. -/
def Source.isOver (source : Source) : Bool := !source.handler && !source.isHeld

/-! ## The session -/

/-- `DS_IOBUF`, and the size of `buf` -/
def ioBuf : ℕ := 8192

inductive Frame where
  /-- `MSG_OUT` or `MSG_ERR` -/
  | data (stream : Stream) (bytes : Bytes)
  /-- A `MSG_ERR` of the daemon itself -/
  | message (text : String)
  /-- `MSG_EXIT` -/
  | exit (code : ℕ)
  deriving DecidableEq

/-- What a frame has of the output -/
def Frame.output? : Frame → Option (Stream × Bytes)
  | .data stream bytes => some (stream, bytes)
  | _ => none

/-- What `epoll_wait` has for a descriptor -/
inductive Ready where
  | signal
  | source (stream : Stream) (pollin hup pollout : Bool)
  | conn
  deriving DecidableEq

/-- The descriptor -/
def Ready.fd : Ready → Fin 4
  | .signal => 0
  | .conn => 1
  | .source .out _ _ _ => 2
  | .source .err _ _ _ => 3

/-- `child_done` -/
inductive ChildDone where
  | running
  | killed
  | normalExitSeen
  deriving DecidableEq

/-- Where the session is -/
inductive Phase where
  | starting
  /-- After the `fork` -/
  | forked
  /-- `epoll_create1` has failed, and the child is killed. -/
  | abandoned
  | unmasked
  /-- `SIGCHLD` is blocked. -/
  | masked
  | registering
  /-- At `epoll_wait` -/
  | waiting
  | serving
  /-- In `drain_fd` -/
  | draining (todo : List Stream)
  /-- The loop has been left. -/
  | leaving
  /-- The client is gone, and the child is killed. -/
  | killing
  | ended
  deriving DecidableEq

structure Session where
  isPty : Bool
  phase : Phase
  child : Child
  /-- `SIGCHLD` is blocked; otherwise it is ignored. -/
  blocked : Bool
  pending : Bool
  /-- There is a `signalfd`. -/
  sfd : Bool
  source : Stream → Source
  activeReads : ℕ
  /-- `exit_code`, unless it is `EXIT_PENDING` -/
  exitCode : Option ℕ
  childDone : ChildDone
  /-- What is left of `events` -/
  batch : List Ready
  /-- A `SIGCHLD` has been read, and `waitpid` comes next. -/
  reaping : Bool
  /-- What has been read of the output -/
  read : List (Stream × Bytes)
  sent : List Frame

def Session.init (isPty : Bool) : Session where
  isPty := isPty
  phase := .starting
  child := .none
  blocked := false
  pending := false
  sfd := false
  source _ := ⟨[], false, false, false, 0⟩
  activeReads := 0
  exitCode := none
  childDone := .running
  batch := []
  reaping := false
  read := []
  sent := []

/-- How a session starts -/
inductive Start where
  /-- `ds_openpty` or `pipe2` fails. -/
  | noDescriptors
  | noMemory
  | noProcess
  | forked
  deriving DecidableEq

inductive Event where
  /-- The child or one of the others writes. -/
  | writes (stream : Stream) (bytes : Bytes)
  /-- Another process inherits the end that is written to. -/
  | inherits (stream : Stream)
  | closes (stream : Stream)
  | childCloses (stream : Stream)
  /-- The child is stopped or continued. -/
  | stops
  | exits (status : Status)
  | starts (start : Start)
  | createsEpoll (created : Bool)
  | blocks
  | createsSignalfd (created : Bool)
  | registers
  /-- `epoll_wait` returns; with nothing when a signal interrupts it. -/
  | polls (ready : List Ready)
  | fails
  /-- One `read` of the `signalfd` -/
  | readsSignal
  /-- `waitpid` with `WNOHANG` -/
  | waits
  /-- One `read` of a descriptor that is ready -/
  | reads (size : ℕ)
  /-- Input for a PTY -/
  | hears
  | clientGone
  /-- The client is gone in the middle of a frame that nobody wants. -/
  | frameCut
  /-- The check at the end of a round -/
  | checks
  /-- One `read` of `drain_fd` -/
  | drains (size : ℕ)
  /-- `waitpid` has the child. -/
  | collects
  | ends
  deriving DecidableEq

namespace Session

variable (s : Session)

/-! ### What goes on beside the session -/

def setSource (stream : Stream) (source : Source) : Session :=
  { s with source := update s.source stream source }

/-- A `SIGCHLD` comes; it stays pending only if it is blocked. -/
def raise : Session := { s with pending := s.pending || s.blocked }

def writes (stream : Stream) (bytes : Bytes) : Session :=
  let source := s.source stream
  s.setSource stream
    { source with unread := if source.isOpen then source.unread ++ bytes else source.unread }

/-- The child takes its descriptors with it. -/
def exits (status : Status) : Session :=
  { s with
    child := .exited status
    source := fun stream => { s.source stream with child := false } }.raise

/-! ### Frames -/

def send (frame : Frame) : Session := { s with sent := s.sent ++ [frame] }

/-- The last frame is sent. -/
def finish (code : ℕ) : Session := { s.send (.exit code) with phase := .ended }

/-- A part of what is there is read, and passed on. -/
def receive (stream : Stream) (size : ℕ) : Session :=
  let source := s.source stream
  let bytes := source.unread.take size
  { s.setSource stream { source with unread := source.unread.drop size } with
    read := s.read ++ [(stream, bytes)] }.send (.data stream bytes)

def canReceive (stream : Stream) (size : ℕ) : Bool :=
  0 < size && size ≤ ioBuf && size ≤ (s.source stream).unread.length

/-! ### The start -/

/-- Up to the `fork` -/
def starts : Start → Session
  | .noDescriptors =>
    (s.send (.message (if s.isPty then "daemon: openpty failed\n"
      else "daemon: pipe2 failed\n"))).finish 1
  | .noMemory => s.finish 1
  | .noProcess => (s.send (.message "daemon: fork failed\n")).finish 1
  | .forked => { s with
      phase := .forked
      child := .running
      -- A PTY has one descriptor for both streams.
      source := fun stream =>
        if s.isPty && stream = .err then s.source stream else ⟨[], true, true, true, 0⟩ }

/-- The session closes its ends to write to. -/
def registers : Session :=
  { s with
    phase := .waiting
    source := fun stream => { s.source stream with handler := false }
    activeReads := if s.isPty then 1 else 2 }

/-! ### The loop -/

/-- `epoll_wait` reports what is the case, and each descriptor once. -/
def canReport (ready : List Ready) : Bool :=
  decide (ready.map Ready.fd).Nodup && ready.all fun
    | .signal => s.sfd && s.pending
    | .conn => true
    | .source stream pollin hup pollout =>
      let source := s.source stream
      source.isOpen && (!pollin || source.unread ≠ [] || source.isOver) &&
        (!hup || source.isOver) && (!pollout || s.isPty)

/-- `waitpid` with `WNOHANG` -/
def waits : Session :=
  match s.child with
  | .exited status =>
    { s with
      child := .reaped status
      exitCode := some status.code
      childDone := if s.isPty then .normalExitSeen else .killed
      reaping := false }
  | _ => { s with reaping := false }

/-- A descriptor has come to its end. -/
def closeSource (stream : Stream) : Session :=
  { s.setSource stream { s.source stream with isOpen := false } with
    activeReads := s.activeReads - 1
    childDone := if s.activeReads ≤ 1 then .normalExitSeen else s.childDone }

/-- One `read` of a descriptor that is ready.  Where a PTY can be written to as well, that it has
come to its end is not looked at. -/
def reads (size : ℕ) : Option Session :=
  match s.batch with
  | .source stream pollin hup pollout :: rest =>
    let flushes := s.isPty && pollout
    if pollin || hup && !flushes then
      if (s.source stream).unread = [] then
        some (if flushes || !(s.source stream).isOver then { s with batch := rest }
          else { s with batch := rest }.closeSource stream)
      else if s.canReceive stream size then some (s.receive stream size)
      else none
    else some { s with batch := rest }
  | _ => none

/-- The check at the end of a round -/
def nextPhase : Phase :=
  match s.childDone with
  | .running => .waiting
  | .killed => .draining ([.out, .err].filter fun stream => (s.source stream).isOpen)
  | .normalExitSeen => .draining ([.out].filter fun stream => s.isPty && (s.source stream).isOpen)

/-- One `read` of `drain_fd` -/
def drains (size : ℕ) : List Stream → Option Session
  | [] => some { s with phase := .leaving }
  | stream :: rest =>
    if (s.source stream).unread = [] then some { s with phase := .draining rest }
    else if s.canReceive stream size then some (s.receive stream size)
    else none

/-- `waitpid` has the child; without `exit_code` a client that is gone is told 0. -/
def collects : Option Session :=
  match s.phase, s.child with
  | .leaving, .exited status =>
    if s.exitCode.isNone then
      some { s with child := .reaped status, exitCode := some status.code }
    else none
  | .abandoned, .exited status => some ({ s with child := .reaped status }.finish 1)
  | .killing, .exited status =>
    some ({ s with child := .reaped status }.finish (s.exitCode.getD 0))
  | .killing, .reaped _ => some (s.finish (s.exitCode.getD 0))
  | _, _ => none

/-- `handle_session`, and what goes on beside it -/
def step : Event → Option Session
  | .writes stream bytes => if (s.source stream).isHeld then some (s.writes stream bytes) else none
  | .inherits stream =>
    if (s.source stream).isHeld then
      some (s.setSource stream { s.source stream with others := (s.source stream).others + 1 })
    else none
  | .closes stream =>
    if 0 < (s.source stream).others then
      some (s.setSource stream { s.source stream with others := (s.source stream).others - 1 })
    else none
  | .childCloses stream =>
    if s.child = .running then some (s.setSource stream { s.source stream with child := false })
    else none
  | .stops => if s.child = .running then some s.raise else none
  | .exits status => if s.child = .running then some (s.exits status) else none
  | .starts start => if s.phase = .starting then some (s.starts start) else none
  | .createsEpoll created =>
    if s.phase = .forked then
      some { s with phase := if created then .unmasked else .abandoned }
    else none
  | .blocks =>
    if s.phase = .unmasked then some { s with phase := .masked, blocked := true } else none
  | .createsSignalfd created =>
    if s.phase = .masked then some { s with phase := .registering, sfd := created } else none
  | .registers => if s.phase = .registering then some s.registers else none
  | .polls ready =>
    if s.phase = .waiting && s.canReport ready then
      some { s with phase := .serving, batch := ready }
    else none
  | .fails => if s.phase = .waiting then some { s with phase := .leaving } else none
  | .readsSignal =>
    match s.phase, s.batch with
    | .serving, .signal :: rest =>
      if s.reaping then none
      else if s.pending then some { s with pending := false, reaping := s.childDone = .running }
      else some { s with batch := rest }
    | _, _ => none
  | .waits => if s.reaping then some s.waits else none
  | .reads size => if s.phase = .serving then s.reads size else none
  | .hears =>
    match s.phase, s.batch with
    | .serving, .conn :: rest => if s.isPty then some { s with batch := rest } else none
    | _, _ => none
  | .clientGone =>
    if s.phase = .serving && s.batch ≠ [] && !s.reaping then some { s with phase := .killing }
    else none
  | .frameCut =>
    match s.phase, s.batch with
    | .serving, .conn :: _ => if s.isPty then some (s.finish (s.exitCode.getD 0)) else none
    | _, _ => none
  | .checks =>
    if s.phase = .serving && s.batch = [] then some { s with phase := s.nextPhase } else none
  | .drains size =>
    match s.phase with
    | .draining todo => s.drains size todo
    | _ => none
  | .collects => s.collects
  | .ends =>
    if s.phase = .leaving then s.exitCode.map fun code => s.finish code else none

/-- What a step can do -/
inductive Stepped : Event → Session → Prop
  /-- What is written, and who may write, changes. -/
  | source (e : Event) (source : Stream → Source) : Stepped e { s with source := source }
  | stops (hrunning : s.child = .running) : Stepped .stops s.raise
  | exits (hrunning : s.child = .running) (status : Status) :
    Stepped (.exits status) (s.exits status)
  | starts (hphase : s.phase = .starting) (start : Start) : Stepped (.starts start) (s.starts start)
  | createsEpoll (hphase : s.phase = .forked) (created : Bool) :
    Stepped (.createsEpoll created) { s with phase := if created then .unmasked else .abandoned }
  | blocks (hphase : s.phase = .unmasked) :
    Stepped .blocks { s with phase := .masked, blocked := true }
  | createsSignalfd (hphase : s.phase = .masked) (created : Bool) :
    Stepped (.createsSignalfd created) { s with phase := .registering, sfd := created }
  | registers (hphase : s.phase = .registering) : Stepped .registers s.registers
  | polls (hphase : s.phase = .waiting) {ready : List Ready} (hready : s.canReport ready = true) :
    Stepped (.polls ready) { s with phase := .serving, batch := ready }
  | fails (hphase : s.phase = .waiting) : Stepped .fails { s with phase := .leaving }
  | takesSignal (hphase : s.phase = .serving) {rest : List Ready}
    (hbatch : s.batch = .signal :: rest) (hpending : s.pending = true) :
    Stepped .readsSignal { s with pending := false, reaping := s.childDone = .running }
  /-- Nothing more is to be done for a descriptor. -/
  | serves (e : Event) (hphase : s.phase = .serving) {ready : Ready} {rest : List Ready}
    (hbatch : s.batch = ready :: rest) (hsignal : ready = .signal → s.reaping = false) :
    Stepped e { s with batch := rest }
  | waits (hreaping : s.reaping = true) : Stepped .waits s.waits
  | receives (e : Event) (hphase : s.phase = .serving ∨ ∃ todo, s.phase = .draining todo)
    (stream : Stream) (size : ℕ) : Stepped e (s.receive stream size)
  | closesSource (hphase : s.phase = .serving) {stream : Stream} {pollin hup pollout : Bool}
    {rest : List Ready} (hbatch : s.batch = .source stream pollin hup pollout :: rest) (size : ℕ) :
    Stepped (.reads size) ({ s with batch := rest }.closeSource stream)
  | clientGone (hphase : s.phase = .serving) : Stepped .clientGone { s with phase := .killing }
  | frameCut (hphase : s.phase = .serving) : Stepped .frameCut (s.finish (s.exitCode.getD 0))
  | checks (hphase : s.phase = .serving) (hbatch : s.batch = []) :
    Stepped .checks { s with phase := s.nextPhase }
  | drains {stream : Stream} {rest : List Stream} (hphase : s.phase = .draining (stream :: rest))
    (size : ℕ) : Stepped (.drains size) { s with phase := .draining rest }
  | drained (hphase : s.phase = .draining []) (size : ℕ) :
    Stepped (.drains size) { s with phase := .leaving }
  | collects (hphase : s.phase = .leaving) {status : Status} (hexited : s.child = .exited status) :
    Stepped .collects { s with child := .reaped status, exitCode := some status.code }
  | collectsAbandoned (hphase : s.phase = .abandoned) {status : Status}
    (hexited : s.child = .exited status) :
    Stepped .collects ({ s with child := .reaped status }.finish 1)
  | collectsKilled (hphase : s.phase = .killing) {status : Status}
    (hexited : s.child.status = some status) :
    Stepped .collects ({ s with child := .reaped status }.finish (s.exitCode.getD 0))
  | ends (hphase : s.phase = .leaving) {code : ℕ} (hcode : s.exitCode = some code) :
    Stepped .ends (s.finish code)

variable {s}

theorem stepped_of_reads {size : ℕ} {t : Session} (hphase : s.phase = .serving)
    (h : s.reads size = some t) : s.Stepped (.reads size) t := by
  rw [reads] at h
  split at h
  case h_1 stream pollin hup pollout rest hbatch =>
    dsimp only at h
    split_ifs at h
    · cases h
      exact .serves _ hphase hbatch nofun
    · cases h
      exact .closesSource hphase hbatch size
    · cases h
      exact .receives _ (.inl hphase) stream size
    · cases h
      exact .serves _ hphase hbatch nofun
  case h_2 => cases h

theorem stepped_of_collects {t : Session} (h : s.collects = some t) : s.Stepped .collects t := by
  rw [collects] at h
  split at h
  case h_1 status hphase hexited =>
    obtain ⟨-, ⟨⟩⟩ := Option.ite_none_right_eq_some.1 h
    exact .collects hphase hexited
  case h_2 status hphase hexited =>
    cases h
    exact .collectsAbandoned hphase hexited
  case h_3 status hphase hexited =>
    cases h
    exact .collectsKilled hphase (by rw [hexited, Child.status])
  case h_4 status hphase hreaped =>
    cases h
    have hsame : s = { s with child := .reaped status } := by rw [← hreaped]
    have hkilled : s.Stepped .collects
        ({ s with child := .reaped status }.finish (s.exitCode.getD 0)) :=
      .collectsKilled hphase (by rw [hreaped, Child.status])
    rwa [← hsame] at hkilled
  case h_5 => cases h

theorem stepped_of_step {e : Event} {t : Session} (h : s.step e = some t) : s.Stepped e t := by
  cases e with
  | writes stream bytes =>
    obtain ⟨-, ⟨⟩⟩ := Option.ite_none_right_eq_some.1 h
    exact .source _ _
  | inherits stream =>
    obtain ⟨-, ⟨⟩⟩ := Option.ite_none_right_eq_some.1 h
    exact .source _ _
  | closes stream =>
    obtain ⟨-, ⟨⟩⟩ := Option.ite_none_right_eq_some.1 h
    exact .source _ _
  | childCloses stream =>
    obtain ⟨-, ⟨⟩⟩ := Option.ite_none_right_eq_some.1 h
    exact .source _ _
  | stops =>
    obtain ⟨hrunning, ⟨⟩⟩ := Option.ite_none_right_eq_some.1 h
    exact .stops hrunning
  | exits status =>
    obtain ⟨hrunning, ⟨⟩⟩ := Option.ite_none_right_eq_some.1 h
    exact .exits hrunning status
  | starts start =>
    obtain ⟨hphase, ⟨⟩⟩ := Option.ite_none_right_eq_some.1 h
    exact .starts hphase start
  | createsEpoll created =>
    obtain ⟨hphase, ⟨⟩⟩ := Option.ite_none_right_eq_some.1 h
    exact .createsEpoll hphase created
  | blocks =>
    obtain ⟨hphase, ⟨⟩⟩ := Option.ite_none_right_eq_some.1 h
    exact .blocks hphase
  | createsSignalfd created =>
    obtain ⟨hphase, ⟨⟩⟩ := Option.ite_none_right_eq_some.1 h
    exact .createsSignalfd hphase created
  | registers =>
    obtain ⟨hphase, ⟨⟩⟩ := Option.ite_none_right_eq_some.1 h
    exact .registers hphase
  | polls ready =>
    obtain ⟨hwaiting, ⟨⟩⟩ := Option.ite_none_right_eq_some.1 h
    obtain ⟨hphase, hready⟩ := Bool.and_eq_true_iff.1 hwaiting
    exact .polls (of_decide_eq_true hphase) hready
  | fails =>
    obtain ⟨hphase, ⟨⟩⟩ := Option.ite_none_right_eq_some.1 h
    exact .fails hphase
  | readsSignal =>
    simp only [step] at h
    split at h
    case h_1 rest hphase hbatch =>
      split_ifs at h with hreaping hpending
      · cases h
        exact .takesSignal hphase hbatch hpending
      · cases h
        exact .serves _ hphase hbatch fun _ => Bool.not_eq_true _ ▸ hreaping
    case h_2 => cases h
  | waits =>
    obtain ⟨hreaping, ⟨⟩⟩ := Option.ite_none_right_eq_some.1 h
    exact .waits hreaping
  | reads size =>
    obtain ⟨hphase, h⟩ := Option.ite_none_right_eq_some.1 h
    exact stepped_of_reads hphase h
  | hears =>
    simp only [step] at h
    split at h
    case h_1 rest hphase hbatch =>
      obtain ⟨-, ⟨⟩⟩ := Option.ite_none_right_eq_some.1 h
      exact .serves _ hphase hbatch nofun
    case h_2 => cases h
  | clientGone =>
    obtain ⟨hserving, ⟨⟩⟩ := Option.ite_none_right_eq_some.1 h
    rw [Bool.and_eq_true, Bool.and_eq_true] at hserving
    exact .clientGone (of_decide_eq_true hserving.1.1)
  | frameCut =>
    simp only [step] at h
    split at h
    case h_1 rest hphase hbatch =>
      obtain ⟨-, ⟨⟩⟩ := Option.ite_none_right_eq_some.1 h
      exact .frameCut hphase
    case h_2 => cases h
  | checks =>
    obtain ⟨hround, ⟨⟩⟩ := Option.ite_none_right_eq_some.1 h
    obtain ⟨hphase, hbatch⟩ := Bool.and_eq_true_iff.1 hround
    exact .checks (of_decide_eq_true hphase) (of_decide_eq_true hbatch)
  | drains size =>
    simp only [step] at h
    split at h
    case h_1 todo hphase =>
      cases todo with
      | nil =>
        cases h
        exact .drained hphase size
      | cons stream rest =>
        rw [drains] at h
        split_ifs at h
        · cases h
          exact .drains hphase size
        · cases h
          exact .receives _ (.inr ⟨_, hphase⟩) stream size
    case h_2 => cases h
  | collects => exact stepped_of_collects h
  | ends =>
    obtain ⟨hphase, h⟩ := Option.ite_none_right_eq_some.1 h
    obtain ⟨code, hcode, rfl⟩ := Option.map_eq_some_iff.1 h
    exact .ends hphase hcode

end Session

def system : System Session Event where
  step := Session.step

end Droidspaces.ChildExit
