import Droidspaces.Transition.System
import Mathlib.Data.Nat.Notation
import Mathlib.Data.Option.Basic
import Mathlib.Logic.Function.Basic

/-!
# The monitor's heartbeat

While a container runs, its monitor writes the virtual `/proc` files through `/proc/<pid>/root`.
The pid comes from the intermediate, by a pipe, or with host networking from the pidfile, which is
read only as long as the monitor has no pid; the inode of the pid's namespace is to tell when the
pid has gone to another process, and `0` turns that check off.

So with host networking the pid stays that of the first init over all in-container reboots, and the
inode becomes that of whatever has this pid.  `along_good` says under which conditions the monitor
writes into the current init only and knows its pid and its inode.
-/

namespace Droidspaces.Heartbeat

open Transition

/-! ## Processes, and the monitor's place in the code -/

/-- What the modelled calls see of a process; `birth` tells two with the same pid apart. -/
structure Proc where
  birth : ℕ
  /-- The number of its PID namespace. -/
  inode : ℕ
  /-- `is_valid_container_pid` -/
  valid : Bool
  /-- The virtual files are in its root; a zombie has no root. -/
  files : Bool
  deriving DecidableEq

/-- The init of the current instance. -/
structure Init where
  pid : ℕ
  inode : ℕ
  birth : ℕ
  deriving DecidableEq

/-- The lines of `ds_monitor_run` and `ds_virtualize_update` that matter here. -/
inductive Phase where
  /-- `reboot_loop`, up to the fork of the intermediate. -/
  | fork
  /-- `read(mid_sync_pipe[0])` -/
  | handshake
  /-- `cfg->ns_inode = ds_get_pid_ns_inode(cfg->container_pid)` -/
  | capture
  /-- `waitpid(mid_pid, &status, WNOHANG)` -/
  | poll
  /-- `read_and_validate_pid(cfg->pidfile, &p)` -/
  | resolve
  | resolveInode
  /-- The PID-recycling guard. -/
  | guard
  /-- `stat(vproc_dir)` -/
  | look
  /-- The `write_inplace` calls. -/
  | write
  /-- The poll on the signalfd: the iteration is complete. -/
  | pause
  /-- In-container reboot: `read_and_validate_pid(cfg->pidfile, &new_pid)`. -/
  | sync
  | reload
  | refresh
  | ended
  deriving DecidableEq

structure State where
  procs : ℕ → Option Proc
  births : ℕ
  pidfile : Option ℕ
  phase : Phase
  /-- `cfg->container_pid`, with `0` for none. -/
  pid : ℕ
  /-- `cfg->ns_inode` -/
  inode : ℕ
  /-- `cfg->net_mode == DS_NET_HOST` -/
  host : Bool
  /-- Not a reboot cycle. -/
  first : Bool
  init : Option Init
  /-- The pid is in the pipe to the monitor, and in the one to the parent. -/
  told : Bool
  toParent : Option ℕ
  /-- How the intermediate ended: whether with `DS_REBOOT_EXIT`. -/
  ended : Option Bool
  /-- The iteration began with the current init's pid in the pidfile. -/
  began : Bool

inductive Event where
  /-- The next line of the monitor; the number is a choice where there is one. -/
  | monitor (choice : ℕ)
  /-- The intermediate forks the init. -/
  | forkInit (pid inode : ℕ)
  /-- The intermediate writes the pid to the pipes. -/
  | tell
  | tellParent
  /-- The parent writes the pidfile, on the first boot. -/
  | parentWrites
  /-- The intermediate writes the pidfile, on a reboot cycle. -/
  | midWrites
  /-- The init gets its marker, and its virtual files. -/
  | boots (files : Bool)
  /-- The init is a zombie. -/
  | dies
  /-- The intermediate waits for it and exits. -/
  | reaped (reboot : Bool)
  /-- Other processes. -/
  | appears (pid inode : ℕ) (valid files : Bool)
  | vanishes (pid : ℕ)
  deriving DecidableEq

/-! ## The code -/

/-- `ds_get_pid_ns_inode` -/
def nsInode (s : State) (pid : ℕ) : ℕ :=
  match s.procs pid with
  | some proc => proc.inode
  | none => 0

/-- `read_and_validate_pid(cfg->pidfile)`: the pid it returns `0` with. -/
def validatedPid (s : State) : Option ℕ :=
  s.pidfile.filter fun p => p ≠ 0 ∧ ∃ proc ∈ s.procs p, proc.valid = true

/-- Where `goto reboot_loop` and the shutdown part. -/
def afterExit (reboot : Bool) : Phase := if reboot then .sync else .ended

/-- One line of the monitor. -/
def monitorStep (s : State) (choice : ℕ) : Option State :=
  match s.phase with
  | .fork => some { s with
      phase := .handshake
      init := none
      told := false
      ended := none
      began := false }
  | .handshake =>
    if s.host then some { s with phase := .capture }
    else
      match s.told, s.init with
      | true, some i => some { s with phase := .capture, pid := i.pid }
      | _, _ => some { s with phase := .capture }
  | .capture => some { s with phase := .poll, inode := nsInode s s.pid }
  | .poll =>
    match s.ended with
    | some reboot => some { s with phase := afterExit reboot }
    | none => some { s with
        phase := if s.pid = 0 then .resolve else .guard
        began := ∃ i ∈ s.init, s.pidfile = some i.pid }
  | .resolve =>
    match validatedPid s with
    | some p => some { s with phase := .resolveInode, pid := p }
    | none => some { s with phase := .guard }
  | .resolveInode => some { s with phase := .guard, inode := nsInode s s.pid }
  | .guard =>
    if s.pid = 0 then some { s with phase := .pause }
    else if s.inode ≠ 0 ∧ nsInode s s.pid ≠ s.inode then some { s with phase := .pause }
    else some { s with phase := .look }
  | .look =>
    if ∃ proc ∈ s.procs s.pid, proc.files = true then some { s with phase := .write }
    else some { s with phase := .pause }
  | .write => some { s with phase := if choice = 0 then .write else .pause }
  | .pause => some { s with phase := .poll }
  | .sync =>
    match validatedPid s with
    | some p => some { s with phase := .reload, pid := p }
    | none => some { s with phase := .reload }
  | .reload => some { s with phase := .refresh, host := choice = 0, first := false }
  | .refresh => some { s with phase := .fork, inode := nsInode s s.pid }
  | .ended => none

def setProc (s : State) (pid : ℕ) (proc : Option Proc) : State :=
  { s with procs := Function.update s.procs pid proc }

/-- The process of the current init, as long as nobody has waited for it. -/
def initProc (s : State) : Option (Init × Proc) := do
  let i ← s.init
  let proc ← s.procs i.pid
  if proc.birth = i.birth then some (i, proc) else none

def system : System State Event where
  step s
    | .monitor choice => monitorStep s choice
    | .forkInit pid inode =>
      if s.phase ≠ .fork ∧ s.init = none ∧ s.ended = none ∧ pid ≠ 0 ∧ inode ≠ 0 ∧
          s.procs pid = none then
        some { setProc s pid (some ⟨s.births, inode, false, false⟩) with
          births := s.births + 1
          init := some ⟨pid, inode, s.births⟩ }
      else none
    | .tell => if s.init.isSome then some { s with told := true } else none
    | .tellParent => if s.first then some { s with toParent := s.init.map Init.pid } else none
    | .parentWrites => s.toParent.map fun p => { s with pidfile := some p }
    | .midWrites =>
      if s.first then none else s.init.map fun i => { s with pidfile := some i.pid }
    | .boots files =>
      (initProc s).map fun a => setProc s a.1.pid (some { a.2 with valid := true, files := files })
    | .dies =>
      (initProc s).map fun a => setProc s a.1.pid (some { a.2 with valid := false, files := false })
    | .reaped reboot =>
      (initProc s).map fun a => { setProc s a.1.pid none with ended := some reboot }
    | .appears pid inode valid files =>
      if pid ≠ 0 ∧ inode ≠ 0 ∧ s.procs pid = none then
        some { setProc s pid (some ⟨s.births, inode, valid, files⟩) with births := s.births + 1 }
      else none
    | .vanishes pid =>
      if ∃ proc ∈ s.procs pid, ∀ i ∈ s.init, proc.birth ≠ i.birth then some (setProc s pid none)
      else none

/-! ## What is promised, and when it holds -/

/-- What is written is written into the current init, and after a complete iteration that began
with the pid in the pidfile the monitor knows the init. -/
structure Good (s : State) (e : Event) (t : State) : Prop where
  write : s.phase = .write → e = .monitor 0 → ∀ proc ∈ s.procs s.pid, proc.files = true →
    ∃ i ∈ s.init, proc.birth = i.birth
  knows : s.phase ≠ .pause → t.phase = .pause → t.began = true → ∀ i ∈ t.init,
    t.pid = i.pid ∧ t.inode = i.inode

instance (s : State) (e : Event) (t : State) : Decidable (Good s e t) :=
  decidable_of_iff (_ ∧ _) ⟨fun h => ⟨h.1, h.2⟩, fun h => ⟨h.write, h.knows⟩⟩

/-- The condition. -/
def Careful (s : State) : Event → Prop
  | .monitor _ =>
    match s.phase with
    -- The pipe delivers.
    | .handshake => s.host = true ∨ s.told = true
    -- With host networking there is no pid from an earlier cycle; else the init is still there.
    | .capture => if s.host then s.pid = 0 else (initProc s).isSome = true
    -- The pidfile is not another container's, and the init has its marker if it is in there.
    | .resolve => (∀ p ∈ validatedPid s, ∃ a ∈ initProc s, a.1.pid = p) ∧
        (s.began = true → (validatedPid s).isSome = true)
    | .resolveInode => (initProc s).isSome = true
    | _ => True
  -- The kernel gives the pid to nobody in a namespace with the same number, nor during an update.
  | .appears pid inode _ _ => ∀ i ∈ s.init, i.pid = pid →
      inode ≠ i.inode ∧ s.phase ≠ .look ∧ s.phase ≠ .write
  | _ => True

instance (s : State) : ∀ e, Decidable (Careful s e)
  | .monitor _ => by
    unfold Careful
    cases s.phase <;> infer_instance
  | .appears _ _ _ _ => by
    unfold Careful
    infer_instance
  | .forkInit _ _ | .tell | .tellParent | .parentWrites | .midWrites | .boots _ | .dies
  | .reaped _ | .vanishes _ => isTrue trivial

/-! ## What the monitor knows at each line -/

variable {s t : State} {e : Event} {i : Init} {proc : Proc}

def Knows (s : State) : Prop := ∃ i ∈ s.init, s.pid = i.pid ∧ s.inode = i.inode

/-- What holds before each line. -/
def Place (s : State) : Prop :=
  match s.phase with
  | .capture => s.host = false → ∃ i ∈ s.init, s.pid = i.pid
  | .poll => s.pid = 0 ∨ Knows s
  | .resolve => s.pid = 0
  | .resolveInode => ∃ i ∈ s.init, s.pid = i.pid
  | .guard | .pause => s.pid = 0 ∧ s.began = false ∨ Knows s
  | .look | .write => Knows s ∧ ∀ proc ∈ s.procs s.pid, ∀ i ∈ s.init, proc.birth = i.birth
  | _ => True

/-- What holds of the processes; the init's pid has the init's namespace only with the init. -/
structure Procs (s : State) : Prop where
  fresh : ∀ p, ∀ proc ∈ s.procs p, proc.birth < s.births
  init : ∀ i ∈ s.init, i.birth < s.births ∧ i.pid ≠ 0 ∧ i.inode ≠ 0
  own : ∀ i ∈ s.init, ∀ proc ∈ s.procs i.pid, proc.birth = i.birth ↔ proc.inode = i.inode
  told : s.told = true → s.init.isSome = true

structure Inv (s : State) : Prop where
  procs : Procs s
  place : Place s

theorem initProc_eq_some : initProc s = some (i, proc) ↔
    s.init = some i ∧ s.procs i.pid = some proc ∧ proc.birth = i.birth := by
  unfold initProc
  cases hinit : s.init with
  | none => simp
  | some i' =>
    cases hproc : s.procs i'.pid with
    | none =>
      simp only [hproc, Option.bind_eq_bind, Option.bind_some, Option.bind_none]
      refine iff_of_false (fun h => by cases h) fun h => ?_
      obtain rfl := Option.some.inj h.1
      simp [hproc] at h
    | some proc' =>
      simp only [hproc, Option.bind_eq_bind, Option.bind_some, Option.ite_none_right_eq_some,
        Option.some.injEq, Prod.mk.injEq]
      constructor
      · rintro ⟨hbirth, rfl, rfl⟩
        exact ⟨rfl, hproc, hbirth⟩
      · rintro ⟨rfl, hproc', hbirth⟩
        rw [hproc] at hproc'
        obtain rfl := Option.some.inj hproc'
        exact ⟨hbirth, rfl, rfl⟩

/-- As long as nobody has waited for the init, its pid has its namespace. -/
theorem Procs.nsInode (hs : Procs s) (h : (initProc s).isSome = true)
    (hpid : ∃ i ∈ s.init, s.pid = i.pid) :
    ∃ i ∈ s.init, s.pid = i.pid ∧ Heartbeat.nsInode s s.pid = i.inode := by
  obtain ⟨⟨i, proc⟩, hsome⟩ := Option.isSome_iff_exists.1 h
  obtain ⟨hinit, hproc, hbirth⟩ := initProc_eq_some.1 hsome
  obtain ⟨i', hi', hpid⟩ := hpid
  obtain rfl : i = i' := Option.some.inj (hinit.symm.trans hi')
  refine ⟨i, hi', hpid, ?_⟩
  unfold Heartbeat.nsInode
  rw [hpid, hproc]
  exact (hs.own i hi' proc hproc).1 hbirth

/-- A namespace number that the monitor can rely on. -/
theorem Procs.birth_of_nsInode (hs : Procs s) (hknows : Knows s)
    (hlive : Heartbeat.nsInode s s.pid = s.inode) :
    ∀ proc ∈ s.procs s.pid, ∀ i ∈ s.init, proc.birth = i.birth := by
  obtain ⟨i, hi, hpid, hinode⟩ := hknows
  intro proc hproc i' hi'
  obtain rfl : i = i' := Option.some.inj (Option.mem_def.1 hi ▸ hi')
  have hproc' : s.procs i.pid = some proc := hpid ▸ hproc
  refine (hs.own i hi proc hproc').2 ?_
  rw [← hinode, ← hlive, Heartbeat.nsInode, hpid, hproc']

theorem monitorStep_inv {choice : ℕ} (hs : Inv s) (hcare : Careful s (.monitor choice))
    (h : monitorStep s choice = some t) : Inv t := by
  obtain ⟨hprocs, hplace⟩ := hs
  unfold Careful at hcare
  unfold Place at hplace
  unfold monitorStep at h
  cases hphase : s.phase <;> simp only [hphase] at h hcare hplace
  case fork =>
    obtain rfl := Option.some.inj h
    exact ⟨⟨hprocs.fresh, by simp, by simp, by simp⟩, trivial⟩
  case handshake =>
    split at h
    · next hhost =>
      obtain rfl := Option.some.inj h
      refine ⟨⟨hprocs.fresh, hprocs.init, hprocs.own, hprocs.told⟩, fun hno => ?_⟩
      rw [hhost] at hno
      cases hno
    · next hhost =>
      split at h
      · next i hinit htold =>
        obtain rfl := Option.some.inj h
        exact ⟨⟨hprocs.fresh, hprocs.init, hprocs.own, hprocs.told⟩, fun _ => ⟨i, htold, rfl⟩⟩
      · next hnot =>
        exfalso
        have htold := hcare.resolve_left hhost
        obtain ⟨i, hi⟩ := Option.isSome_iff_exists.1 (hprocs.told htold)
        exact hnot i htold hi
  case capture =>
    obtain rfl := Option.some.inj h
    refine ⟨⟨hprocs.fresh, hprocs.init, hprocs.own, hprocs.told⟩, ?_⟩
    cases hhost : s.host with
    | true =>
      rw [hhost, if_pos rfl] at hcare
      exact Or.inl hcare
    | false =>
      rw [hhost] at hcare
      exact Or.inr (hprocs.nsInode hcare (hplace hhost))
  case poll =>
    split at h
    · next reboot hended =>
      obtain rfl := Option.some.inj h
      refine ⟨⟨hprocs.fresh, hprocs.init, hprocs.own, hprocs.told⟩, ?_⟩
      unfold Place afterExit
      cases reboot <;> trivial
    · by_cases hpid : s.pid = 0
      · rw [if_pos hpid] at h
        obtain rfl := Option.some.inj h
        exact ⟨⟨hprocs.fresh, hprocs.init, hprocs.own, hprocs.told⟩, hpid⟩
      · rw [if_neg hpid] at h
        obtain rfl := Option.some.inj h
        exact ⟨⟨hprocs.fresh, hprocs.init, hprocs.own, hprocs.told⟩,
          Or.inr (hplace.resolve_left hpid)⟩
  case resolve =>
    split at h
    · next p hp =>
      obtain rfl := Option.some.inj h
      obtain ⟨⟨i, proc⟩, hsome, hpid⟩ := hcare.1 p hp
      exact ⟨⟨hprocs.fresh, hprocs.init, hprocs.own, hprocs.told⟩, i,
        (initProc_eq_some.1 hsome).1, hpid.symm⟩
    · next hnone =>
      obtain rfl := Option.some.inj h
      refine ⟨⟨hprocs.fresh, hprocs.init, hprocs.own, hprocs.told⟩, Or.inl ⟨hplace, ?_⟩⟩
      by_contra hbegan
      have hsome := hcare.2 (by simpa using hbegan)
      rw [hnone] at hsome
      cases hsome
  case resolveInode =>
    obtain rfl := Option.some.inj h
    exact ⟨⟨hprocs.fresh, hprocs.init, hprocs.own, hprocs.told⟩,
      Or.inr (hprocs.nsInode hcare hplace)⟩
  case guard =>
    split at h
    · obtain rfl := Option.some.inj h
      exact ⟨⟨hprocs.fresh, hprocs.init, hprocs.own, hprocs.told⟩, hplace⟩
    · next hpid =>
      split at h
      · obtain rfl := Option.some.inj h
        exact ⟨⟨hprocs.fresh, hprocs.init, hprocs.own, hprocs.told⟩, hplace⟩
      · next hguard =>
        obtain rfl := Option.some.inj h
        have hknows : Knows s := hplace.resolve_left fun hno => hpid hno.1
        have hne : s.inode ≠ 0 := by
          obtain ⟨i, hi, -, hinode⟩ := hknows
          rw [hinode]
          exact (hprocs.init i hi).2.2
        have hlive : nsInode s s.pid = s.inode := by
          by_contra hother
          exact hguard ⟨hne, hother⟩
        exact ⟨⟨hprocs.fresh, hprocs.init, hprocs.own, hprocs.told⟩, hknows,
          hprocs.birth_of_nsInode hknows hlive⟩
  case look =>
    split at h
    · obtain rfl := Option.some.inj h
      exact ⟨⟨hprocs.fresh, hprocs.init, hprocs.own, hprocs.told⟩, hplace⟩
    · obtain rfl := Option.some.inj h
      exact ⟨⟨hprocs.fresh, hprocs.init, hprocs.own, hprocs.told⟩, Or.inr hplace.1⟩
  case write =>
    by_cases hmore : choice = 0
    · rw [if_pos hmore] at h
      obtain rfl := Option.some.inj h
      exact ⟨⟨hprocs.fresh, hprocs.init, hprocs.own, hprocs.told⟩, hplace⟩
    · rw [if_neg hmore] at h
      obtain rfl := Option.some.inj h
      exact ⟨⟨hprocs.fresh, hprocs.init, hprocs.own, hprocs.told⟩, Or.inr hplace.1⟩
  case pause =>
    obtain rfl := Option.some.inj h
    exact ⟨⟨hprocs.fresh, hprocs.init, hprocs.own, hprocs.told⟩, hplace.imp_left And.left⟩
  case sync =>
    split at h <;> obtain rfl := Option.some.inj h <;>
      exact ⟨⟨hprocs.fresh, hprocs.init, hprocs.own, hprocs.told⟩, trivial⟩
  case reload =>
    obtain rfl := Option.some.inj h
    exact ⟨⟨hprocs.fresh, hprocs.init, hprocs.own, hprocs.told⟩, trivial⟩
  case refresh =>
    obtain rfl := Option.some.inj h
    exact ⟨⟨hprocs.fresh, hprocs.init, hprocs.own, hprocs.told⟩, trivial⟩
  case ended => cases h

/-- What happens to processes matters to the monitor only while it writes. -/
theorem Place.of_procs {procs : ℕ → Option Proc} {births : ℕ} {pidfile toParent : Option ℕ}
    {told : Bool} {ended : Option Bool} (hs : Place s)
    (hwrites : s.phase = .look ∨ s.phase = .write → Knows s →
      ∀ proc ∈ procs s.pid, ∀ i ∈ s.init, proc.birth = i.birth) :
    Place { s with procs, births, pidfile, toParent, told, ended } := by
  unfold Place at hs ⊢
  cases hphase : s.phase <;> simp only [hphase] at hs hwrites ⊢
  case look => exact ⟨hs.1, hwrites (Or.inl trivial) hs.1⟩
  case write => exact ⟨hs.1, hwrites (Or.inr trivial) hs.1⟩
  all_goals exact hs

/-- Nobody but the init is born or dies at the pid that is written to. -/
theorem Place.writes (hs : Place s) (h : s.phase = .look ∨ s.phase = .write) :
    Knows s ∧ ∀ proc ∈ s.procs s.pid, ∀ i ∈ s.init, proc.birth = i.birth := by
  unfold Place at hs
  rcases h with h | h <;> simpa only [h] using hs

/-- The process of the init changes, or goes. -/
theorem Inv.setProc {proc' : Option Proc} {ended : Option Bool} (hs : Inv s)
    (hinit : initProc s = some (i, proc))
    (hsame : ∀ q ∈ proc', q.birth = proc.birth ∧ q.inode = proc.inode) :
    Inv { Heartbeat.setProc s i.pid proc' with ended } := by
  obtain ⟨hi, hproc, hbirth⟩ := initProc_eq_some.1 hinit
  obtain ⟨hprocs, hplace⟩ := hs
  have hupdate : ∀ p, ∀ q ∈ Function.update s.procs i.pid proc' p,
      ∃ q' ∈ s.procs p, q.birth = q'.birth ∧ q.inode = q'.inode := by
    intro p q hq
    by_cases hp : p = i.pid
    · subst hp
      rw [Function.update_self] at hq
      exact ⟨proc, hproc, hsame q hq⟩
    · rw [Function.update_of_ne hp] at hq
      exact ⟨q, hq, rfl, rfl⟩
  refine ⟨⟨fun p q hq => ?_, hprocs.init, fun i' hi' q hq => ?_, hprocs.told⟩, ?_⟩
  · obtain ⟨q', hq', hsame', -⟩ := hupdate p q hq
    rw [hsame']
    exact hprocs.fresh p q' hq'
  · obtain ⟨q', hq', hbirth', hinode'⟩ := hupdate i'.pid q hq
    rw [hbirth', hinode']
    exact hprocs.own i' hi' q' hq'
  · refine hplace.of_procs fun hphase hknows q hq i' hi' => ?_
    obtain ⟨q', hq', hbirth', -⟩ := hupdate s.pid q hq
    rw [hbirth']
    exact (hplace.writes hphase).2 q' hq' i' hi'

theorem inv_step (s : State) (e : Event) (t : State) (hs : Inv s) (hcare : Careful s e)
    (h : system.step s e = some t) : Inv t := by
  obtain ⟨hprocs, hplace⟩ := id hs
  have hwrites : s.phase = .look ∨ s.phase = .write → Knows s →
      ∀ proc ∈ s.procs s.pid, ∀ i ∈ s.init, proc.birth = i.birth :=
    fun hphase _ => (hplace.writes hphase).2
  cases e with
  | monitor choice => exact monitorStep_inv hs hcare h
  | forkInit pid inode =>
    simp only [system] at h
    split at h
    · next hfree =>
      obtain ⟨hphase, hnone, hended, hpid, hinode, hfree⟩ := hfree
      obtain rfl := Option.some.inj h
      refine ⟨⟨fun p q hq => ?_, fun i hi => ?_, fun i hi q hq => ?_, fun _ => rfl⟩, ?_⟩
      · by_cases hp : p = pid
        · subst hp
          obtain rfl : _ = q := by simpa [setProc] using hq
          exact Nat.lt_succ_self _
        · have hq' : q ∈ s.procs p := by simpa [setProc, hp] using hq
          exact Nat.lt_succ_of_lt (hprocs.fresh p q hq')
      · obtain rfl := Option.some.inj hi
        exact ⟨Nat.lt_succ_self _, hpid, hinode⟩
      · obtain rfl := Option.some.inj hi
        obtain rfl : _ = q := by simpa [setProc] using hq
        exact iff_of_true rfl rfl
      · have hknows : ¬ Knows s := by
          rintro ⟨i, hi, -⟩
          rw [hnone] at hi
          cases hi
        unfold Place at hplace ⊢
        cases hp : s.phase <;> simp only [hp] at hplace <;> simp only [setProc, hp]
        case capture =>
          intro hhost
          obtain ⟨i, hi, -⟩ := hplace hhost
          rw [hnone] at hi
          cases hi
        case poll => exact Or.inl (hplace.resolve_right hknows)
        case pause => exact Or.inl (hplace.resolve_right hknows)
        case resolve => exact hplace
        case resolveInode =>
          obtain ⟨i, hi, -⟩ := hplace
          rw [hnone] at hi
          cases hi
        case guard => exact Or.inl (hplace.resolve_right hknows)
        case look => exact absurd hplace.1 hknows
        case write => exact absurd hplace.1 hknows
    · cases h
  | tell =>
    simp only [system] at h
    split at h
    · next hsome =>
      obtain rfl := Option.some.inj h
      exact ⟨⟨hprocs.fresh, hprocs.init, hprocs.own, fun _ => hsome⟩, hplace.of_procs hwrites⟩
    · cases h
  | tellParent =>
    simp only [system] at h
    split at h
    · obtain rfl := Option.some.inj h
      exact ⟨⟨hprocs.fresh, hprocs.init, hprocs.own, hprocs.told⟩, hplace.of_procs hwrites⟩
    · cases h
  | parentWrites =>
    obtain ⟨p, -, rfl⟩ := Option.map_eq_some_iff.1 h
    exact ⟨⟨hprocs.fresh, hprocs.init, hprocs.own, hprocs.told⟩, hplace.of_procs hwrites⟩
  | midWrites =>
    simp only [system] at h
    split at h
    · cases h
    · obtain ⟨i, -, rfl⟩ := Option.map_eq_some_iff.1 h
      exact ⟨⟨hprocs.fresh, hprocs.init, hprocs.own, hprocs.told⟩, hplace.of_procs hwrites⟩
  | boots files =>
    obtain ⟨⟨i, proc⟩, ha, rfl⟩ := Option.map_eq_some_iff.1 h
    refine Inv.setProc hs ha fun q hq => ?_
    obtain rfl := Option.some.inj hq
    exact ⟨rfl, rfl⟩
  | dies =>
    obtain ⟨⟨i, proc⟩, ha, rfl⟩ := Option.map_eq_some_iff.1 h
    refine Inv.setProc hs ha fun q hq => ?_
    obtain rfl := Option.some.inj hq
    exact ⟨rfl, rfl⟩
  | reaped reboot =>
    obtain ⟨⟨i, proc⟩, ha, rfl⟩ := Option.map_eq_some_iff.1 h
    exact hs.setProc ha fun q hq => by cases hq
  | appears pid inode valid files =>
    simp only [system] at h
    split at h
    · next hfree =>
      obtain ⟨hpid, hinode, hfree⟩ := hfree
      obtain rfl := Option.some.inj h
      have hnew : ∀ p, ∀ q ∈ Function.update s.procs pid (some ⟨s.births, inode, valid, files⟩) p,
          q ∈ s.procs p ∨ p = pid ∧ q.birth = s.births ∧ q.inode = inode := by
        intro p q hq
        by_cases hp : p = pid
        · subst hp
          rw [Function.update_self] at hq
          obtain rfl := Option.some.inj hq
          exact Or.inr ⟨rfl, rfl, rfl⟩
        · rw [Function.update_of_ne hp] at hq
          exact Or.inl hq
      refine ⟨⟨fun p q hq => ?_, fun i hi => ?_, fun i hi q hq => ?_, hprocs.told⟩, ?_⟩
      · rcases hnew p q hq with hold | ⟨-, hbirth, -⟩
        · exact Nat.lt_succ_of_lt (hprocs.fresh p q hold)
        · rw [hbirth]
          exact Nat.lt_succ_self _
      · obtain ⟨hbirth, hrest⟩ := hprocs.init i hi
        exact ⟨Nat.lt_succ_of_lt hbirth, hrest⟩
      · rcases hnew i.pid q hq with hold | ⟨hp, hbirth, hnumber⟩
        · exact hprocs.own i hi q hold
        · refine iff_of_false ?_ ?_
          · rw [hbirth]
            exact (Nat.ne_of_lt (hprocs.init i hi).1).symm
          · rw [hnumber]
            exact (hcare i hi hp).1
      · refine hplace.of_procs fun hphase hknows q hq i hi => ?_
        rcases hnew s.pid q hq with hold | ⟨hp, -, -⟩
        · exact hwrites hphase hknows q hold i hi
        · obtain ⟨i', hi', hpid', -⟩ := hknows
          obtain ⟨-, hlook, hwrite⟩ := hcare i' hi' (hpid' ▸ hp)
          exact absurd hphase (by simp [hlook, hwrite])
    · cases h
  | vanishes pid =>
    simp only [system] at h
    split at h
    · obtain rfl := Option.some.inj h
      have hold : ∀ p, ∀ q ∈ Function.update s.procs pid none p, q ∈ s.procs p := by
        intro p q hq
        by_cases hp : p = pid
        · subst hp
          simp at hq
        · rwa [Function.update_of_ne hp] at hq
      exact ⟨⟨fun p q hq => hprocs.fresh p q (hold p q hq), hprocs.init,
        fun i hi q hq => hprocs.own i hi q (hold i.pid q hq), hprocs.told⟩,
        hplace.of_procs fun hphase hknows q hq => hwrites hphase hknows q (hold s.pid q hq)⟩
    · cases h

/-! ## Whole runs -/

/-- The monitor has just been forked. -/
structure Initial (s : State) : Prop where
  phase : s.phase = .fork
  init : s.init = none
  told : s.told = false
  fresh : ∀ p, ∀ proc ∈ s.procs p, proc.birth < s.births

theorem Initial.inv (hs : Initial s) : Inv s := by
  refine ⟨⟨hs.fresh, ?_, ?_, ?_⟩, ?_⟩
  · simp [hs.init]
  · simp [hs.init]
  · simp [hs.told]
  · unfold Place
    rw [hs.phase]
    trivial

theorem good_of_inv (s : State) (e : Event) (t : State) (hs : Inv s) (hcare : Careful s e)
    (h : system.step s e = some t) : Good s e t := by
  constructor
  · intro hphase _ proc hproc _
    obtain ⟨⟨i, hi, -⟩, hbirth⟩ := hs.place.writes (Or.inr hphase)
    exact ⟨i, hi, hbirth proc hproc i hi⟩
  · intro _ hphase hbegan i hi
    have hplace := (inv_step s e t hs hcare h).place
    unfold Place at hplace
    simp only [hphase] at hplace
    rcases hplace with ⟨-, hno⟩ | ⟨i', hi', hpid, hinode⟩
    · rw [hbegan] at hno
      cases hno
    · obtain rfl : i' = i := Option.some.inj (hi'.symm.trans hi)
      exact ⟨hpid, hinode⟩

/-- **In a careful run the monitor writes into the current init only, and knows it after every
complete iteration.** -/
theorem along_good (s : State) (hs : Initial s) (es : List Event)
    (hcare : system.Guarded Careful s es) : system.Along Good s es :=
  system.along_of_guarded inv_step good_of_inv hs.inv hcare

/-! ## A reboot with host networking -/

/-- A monitor that has just been forked, on a host where nothing else runs. -/
def forked (host : Bool) : State where
  procs _ := none
  births := 0
  pidfile := none
  phase := .fork
  pid := 0
  inode := 0
  host := host
  first := true
  init := none
  told := false
  toParent := none
  ended := none
  began := false

theorem forked_initial (host : Bool) : Initial (forked host) :=
  ⟨rfl, rfl, rfl, fun _ _ h => by cases h⟩

/-- `n` lines of the monitor. -/
def lines (n : ℕ) : List Event := List.replicate n (.monitor 0)

/-- The first boot, up to the first iteration. -/
def firstBoot : List Event :=
  lines 1 ++ [.forkInit 4 40, .tell, .tellParent, .parentWrites, .boots true] ++ lines 2

/-- Two writes and the end of the iteration. -/
def iteration : List Event := lines 4 ++ [.monitor 1, .monitor 0]

/-- With a network namespace of its own, the monitor learns the pid from the pipe. -/
theorem firstBoot_good :
    (system.run (forked false) (firstBoot ++ lines 1 ++ iteration)).isSome = true ∧
      system.Along Good (forked false) (firstBoot ++ lines 1 ++ iteration) :=
  ⟨by decide +kernel, along_good (forked false) (forked_initial false) _ (by decide +kernel)⟩

/-- With host networking: the first boot, and a reboot. -/
def hostReboot : List Event :=
  lines 3 ++ [.forkInit 4 40, .tellParent, .parentWrites, .boots true] ++ lines 5 ++
    [.monitor 1, .monitor 0, .dies, .reaped true] ++ lines 7 ++
    [.forkInit 5 50, .midWrites, .boots true]

/-- After it the monitor goes by the first init's pid, and has turned the check off. -/
theorem hostReboot_not_good : (system.run (forked true) (hostReboot ++ lines 3)).isSome = true ∧
    ¬ system.Along Good (forked true) (hostReboot ++ lines 3) := by
  decide +kernel

end Droidspaces.Heartbeat
