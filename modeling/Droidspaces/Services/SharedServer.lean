import Droidspaces.Transition.System
import Mathlib.Data.Nat.Notation
import Mathlib.Logic.Function.Basic

/-!
# Shared servers, one command at a time

The display and sound servers of the host are shared by the containers.  Whoever starts a container
that uses one starts it, if `<server>.pid` names no process, and keeps its pid; whoever cleans up
after a container stops it, unless another running container uses it.  The pid that is stopped is
the one that the process has kept since its own start, and the recorded one only if it kept none.

Servers may die and be started again in between, and pids may go to other processes, so the kept
pid, the recorded pid and the pid of the server need not be the same.  `along_good_iff` says which
cleanups go wrong.  Here everything happens one command at a time; what can happen between the steps
of two commands is the subject of `Services/SharedService.lean`.
-/

namespace Droidspaces.SharedServer

open Transition

/-- What `kill(pid, 0)` finds. -/
inductive Proc where
  | server
  | other
  /-- A process that nobody has waited for. -/
  | zombie
  deriving DecidableEq

/-- A running container: its configuration, and what its monitor has in `cfg->x11_pid` (or
`cfg->virgl_pid`, `cfg->pulse_pid`). -/
structure Running (N : Type) where
  name : N
  uses : Bool
  kept : Option ℕ

structure Host (N : Type) where
  procs : ℕ → Option Proc
  /-- The server's file in `Pids/`. -/
  pidfile : Option ℕ
  /-- The server that was launched last. -/
  current : Option ℕ
  running : List (Running N)

inductive Event (N : Type) where
  /-- A start; `spawned` is the server it launches, if it has to and can. -/
  | start (n : N) (uses : Bool) (spawned : Option ℕ)
  /-- The same after the stop of a restart, which leaves the servers alone. -/
  | restart (n : N) (spawned : Option ℕ)
  /-- An in-container reboot, by the monitor. -/
  | reboot (n : N) (spawned : Option ℕ)
  /-- `cleanup_container_resources`, by the monitor (or the start, if that failed) or by a stop
  command, which has kept nothing. -/
  | cleanup (n : N) (own : Bool)
  | die (p : ℕ) (reaped : Bool)
  | reap (p : ℕ)
  /-- Another process gets the pid. -/
  | appear (p : ℕ)

/-! ## The code -/

section Code

variable {N : Type} [DecidableEq N]

/-- `ds_daemon_read_pid` -/
def daemonReadPid (s : Host N) : Option ℕ :=
  s.pidfile.filter fun p => 1 < p && (s.procs p).isSome

/-- `ds_resolve_daemon_pid` -/
def resolveDaemonPid (s : Host N) (kept : Option ℕ) : Option ℕ := kept.or (daemonReadPid s)

/-- `ds_x11_daemon_start`, `ds_virgl_daemon_start`, `ds_pulse_daemon_start`: the host and the pid
to keep. -/
def daemonStart (s : Host N) (uses : Bool) (kept spawned : Option ℕ) : Option (Host N × Option ℕ) :=
  if uses then
    match daemonReadPid s with
    | some p => some (s, some p)
    | none =>
      match spawned with
      | none => some (s, kept)
      | some p =>
        if 1 < p ∧ s.procs p = none then
          some ({ s with
            procs := Function.update s.procs p (some .server)
            pidfile := some p
            current := some p }, some p)
        else none
  else some (s, kept)

/-- `check_fn() == 1`, asked when the container `n` is down. -/
def needs (s : Host N) (n : N) : Bool := s.running.any fun r => r.name ≠ n && r.uses

/-- What `ds_global_daemon_stop` sends its signals to. -/
def stopped (s : Host N) (r : Running N) (own : Bool) : Option ℕ :=
  if needs s r.name then none else resolveDaemonPid s (if own then r.kept else none)

/-- `ds_global_daemon_stop`: nobody survives `SIGTERM` and `SIGKILL`. -/
def globalDaemonStop (s : Host N) (r : Running N) (own : Bool) : Host N :=
  if needs s r.name then s
  else
    { s with
      procs := fun p => if stopped s r own = some p then none else s.procs p
      pidfile := none }

def down (s : Host N) (n : N) : Host N :=
  { s with running := s.running.filter (·.name ≠ n) }

def recordOf (s : Host N) (n : N) : Option (Running N) := s.running.find? (·.name = n)

/-- Containers start, reboot and end; processes come and go. -/
def system : System (Host N) (Event N) where
  step s
    | .start n uses spawned =>
      if (recordOf s n).isSome then none
      else
        (daemonStart s uses none spawned).map fun a =>
          { a.1 with running := ⟨n, uses, a.2⟩ :: a.1.running }
    | .restart n spawned =>
      (recordOf s n).bind fun r =>
        (daemonStart s r.uses none spawned).map fun a =>
          { down a.1 n with running := ⟨n, r.uses, a.2⟩ :: (down a.1 n).running }
    | .reboot n spawned =>
      (recordOf s n).bind fun r =>
        (daemonStart s r.uses r.kept spawned).map fun a =>
          { down a.1 n with running := ⟨n, r.uses, a.2⟩ :: (down a.1 n).running }
    | .cleanup n own => (recordOf s n).map fun r => down (globalDaemonStop s r own) n
    | .die p reaped =>
      if s.procs p = none then none
      else some { s with
        procs := Function.update s.procs p (if reaped then none else some .zombie) }
    | .reap p =>
      if s.procs p = some .zombie then some { s with procs := Function.update s.procs p none }
      else none
    | .appear p =>
      if s.procs p = none then some { s with procs := Function.update s.procs p (some .other) }
      else none

/-! ## What is promised, and when it holds -/

/-- A cleanup signals nobody but the current server, and the one after the last container that
uses it leaves no server and no pidfile. -/
def Good (s : Host N) (e : Event N) (t : Host N) : Prop :=
  match e with
  | .cleanup n own =>
    ∀ r, recordOf s n = some r →
      (∀ p, stopped s r own = some p → s.procs p ≠ some .other ∧
        (s.procs p = some .server → s.current = some p)) ∧
      (r.uses = true → needs s n = false →
        (∀ p, t.procs p ≠ some .server) ∧ t.pidfile = none)
  | _ => True

/-- The condition: the pid that a cleanup goes by is not another process's, and it is the server's
if there is one. -/
def Apt (s : Host N) : Event N → Prop
  | .cleanup n own =>
    ∀ r, recordOf s n = some r → needs s n = false →
      (∀ p, resolveDaemonPid s (if own then r.kept else none) = some p →
        s.procs p ≠ some .other) ∧
      ∀ q, s.procs q = some .server →
        resolveDaemonPid s (if own then r.kept else none) = some q
  | _ => True

/-- Whatever server there is, is recorded. -/
structure Inv (s : Host N) : Prop where
  server : ∀ p, s.procs p = some .server → s.pidfile = some p ∧ s.current = some p ∧ 1 < p
  kept : ∀ r ∈ s.running, r.uses = false → r.kept = none

/-! ## One step -/

variable {s t : Host N} {e : Event N} {n : N} {r : Running N} {own uses : Bool}
  {kept spawned : Option ℕ}

theorem recordOf_mem (h : recordOf s n = some r) : r ∈ s.running ∧ r.name = n :=
  ⟨List.mem_of_find?_eq_some h, by simpa using List.find?_some h⟩

omit [DecidableEq N] in
theorem daemonReadPid_server (hI : Inv s) {p : ℕ} (hp : s.procs p = some .server) :
    daemonReadPid s = some p := by
  obtain ⟨hpidfile, -, hlt⟩ := hI.server p hp
  simp [daemonReadPid, hpidfile, hp, hlt, Option.filter]

omit [DecidableEq N] in
/-- A start launches a server only where there is none. -/
theorem inv_daemonStart (hI : Inv s) {a : Host N × Option ℕ}
    (h : daemonStart s uses kept spawned = some a) :
    (∀ p, a.1.procs p = some .server →
      a.1.pidfile = some p ∧ a.1.current = some p ∧ 1 < p) ∧
      a.1.running = s.running ∧ (uses = false → a.2 = kept) := by
  unfold daemonStart at h
  split at h
  · next huses =>
    split at h
    · obtain rfl := Option.some.inj h
      exact ⟨hI.server, rfl, fun hno => by simp [huses] at hno⟩
    · next hnone =>
      split at h
      · obtain rfl := Option.some.inj h
        exact ⟨hI.server, rfl, fun _ => rfl⟩
      · next q =>
        split at h
        · next hfree =>
          obtain rfl := Option.some.inj h
          refine ⟨fun p hp => ?_, rfl, fun hno => by simp [huses] at hno⟩
          by_cases hpq : p = q
          · exact ⟨by rw [hpq], by rw [hpq], hpq ▸ hfree.1⟩
          · have hold : s.procs p = some .server := by simpa [hpq] using hp
            rw [daemonReadPid_server hI hold] at hnone
            cases hnone
        · cases h
  · next huses =>
    obtain rfl := Option.some.inj h
    exact ⟨hI.server, rfl, fun _ => rfl⟩

theorem inv_record (hI : Inv s) {a : Host N × Option ℕ} (hkept : uses = false → kept = none)
    (h : daemonStart s uses kept spawned = some a) :
    Inv { down a.1 n with running := ⟨n, uses, a.2⟩ :: (down a.1 n).running } := by
  obtain ⟨hserver, hrunning, hsame⟩ := inv_daemonStart hI h
  refine ⟨hserver, fun r hr huses => ?_⟩
  rcases List.mem_cons.1 hr with rfl | hr
  · rw [hsame huses]
    exact hkept huses
  · have hold : r ∈ a.1.running := (List.mem_filter.1 hr).1
    rw [hrunning] at hold
    exact hI.kept r hold huses

/-- What is left after a cleanup: the server is gone if it was not needed. -/
theorem procs_globalDaemonStop (s : Host N) (r : Running N) (own : Bool) (p : ℕ) :
    (globalDaemonStop s r own).procs p =
      if stopped s r own = some p then none else s.procs p := by
  unfold globalDaemonStop
  split
  · next hneeds => simp [stopped, hneeds]
  · rfl

theorem inv_step (s : Host N) (e : Event N) (t : Host N) (hI : Inv s) (hapt : Apt s e)
    (h : system.step s e = some t) : Inv t := by
  cases e with
  | start n uses spawned =>
    simp only [system] at h
    split at h
    · cases h
    · obtain ⟨a, ha, rfl⟩ := Option.map_eq_some_iff.1 h
      obtain ⟨hserver, hrunning, hsame⟩ := inv_daemonStart hI ha
      refine ⟨hserver, fun r hr huses => ?_⟩
      rcases List.mem_cons.1 hr with rfl | hr
      · exact hsame huses
      · exact hI.kept r (hrunning ▸ hr) huses
  | restart n spawned =>
    obtain ⟨r, -, h⟩ := Option.bind_eq_some_iff.1 h
    obtain ⟨a, ha, rfl⟩ := Option.map_eq_some_iff.1 h
    exact inv_record hI (fun _ => rfl) ha
  | reboot n spawned =>
    obtain ⟨r, hr, h⟩ := Option.bind_eq_some_iff.1 h
    obtain ⟨a, ha, rfl⟩ := Option.map_eq_some_iff.1 h
    exact inv_record hI (hI.kept r (recordOf_mem hr).1) ha
  | cleanup n own =>
    obtain ⟨r, hr, rfl⟩ := Option.map_eq_some_iff.1 h
    have hname := (recordOf_mem hr).2
    have hrunning : (globalDaemonStop s r own).running = s.running := by
      unfold globalDaemonStop
      split <;> rfl
    refine ⟨fun p hp => ?_, fun r' hr' huses => ?_⟩
    · have hprocs := procs_globalDaemonStop s r own p
      rw [show (down (globalDaemonStop s r own) n).procs = (globalDaemonStop s r own).procs from
        rfl, hprocs] at hp
      split at hp
      · cases hp
      · next hstopped =>
        cases hneeds : needs s n with
        | true =>
          have hsame : globalDaemonStop s r own = s := by
            unfold globalDaemonStop
            rw [hname, hneeds, if_pos rfl]
          rw [hsame]
          exact hI.server p hp
        | false =>
          exfalso
          refine hstopped ?_
          unfold stopped
          rw [hname, hneeds]
          exact (hapt r hr hneeds).2 p hp
    · have hold : r' ∈ s.running := hrunning ▸ (List.mem_filter.1 hr').1
      exact hI.kept r' hold huses
  | die p reaped =>
    simp only [system] at h
    split at h
    · cases h
    · obtain rfl := Option.some.inj h
      refine ⟨fun q hq => hI.server q ?_, hI.kept⟩
      by_cases hqp : q = p
      · subst hqp
        cases reaped <;> simp at hq
      · simpa [hqp] using hq
  | reap p =>
    simp only [system] at h
    split at h
    · obtain rfl := Option.some.inj h
      refine ⟨fun q hq => hI.server q ?_, hI.kept⟩
      by_cases hqp : q = p
      · simp [hqp] at hq
      · simpa [hqp] using hq
    · cases h
  | appear p =>
    simp only [system] at h
    split at h
    · obtain rfl := Option.some.inj h
      refine ⟨fun q hq => hI.server q ?_, hI.kept⟩
      by_cases hqp : q = p
      · simp [hqp] at hq
      · simpa [hqp] using hq
    · cases h

/-- **A cleanup is good exactly if it goes by the right pid.** -/
theorem good_iff (s : Host N) (e : Event N) (t : Host N) (hI : Inv s)
    (h : system.step s e = some t) : Good s e t ↔ Apt s e := by
  cases e with
  | cleanup n own =>
    obtain ⟨r, hr, rfl⟩ := Option.map_eq_some_iff.1 h
    obtain ⟨hmem, hname⟩ := recordOf_mem hr
    constructor
    · intro hgood r' hr' hneeds
      obtain rfl : r = r' := Option.some.inj (hr.symm.trans hr')
      have hstopped : stopped s r own = resolveDaemonPid s (if own then r.kept else none) := by
        unfold stopped
        rw [hname, hneeds]
        rfl
      obtain ⟨hsignals, hlast⟩ := hgood r hr
      rw [hstopped] at hsignals
      refine ⟨fun p hp => (hsignals p hp).1, fun q hq => ?_⟩
      cases huses : r.uses with
      | true =>
        by_contra hother
        refine (hlast huses hneeds).1 q ?_
        rw [show (down (globalDaemonStop s r own) n).procs = (globalDaemonStop s r own).procs from
          rfl, procs_globalDaemonStop, hstopped, if_neg hother]
        exact hq
      | false =>
        have hkept : (if own then r.kept else none) = none := by
          rw [hI.kept r hmem huses]
          exact ite_self none
        rw [hkept, resolveDaemonPid, Option.none_or]
        exact daemonReadPid_server hI hq
    · intro hapt r' hr'
      obtain rfl : r = r' := Option.some.inj (hr.symm.trans hr')
      constructor
      · intro p hp
        refine ⟨?_, fun hserver => (hI.server p hserver).2.1⟩
        unfold stopped at hp
        rw [hname] at hp
        split at hp
        · cases hp
        · next hneeds => exact (hapt r hr (by simpa using hneeds)).1 p hp
      · intro _ hneeds
        constructor
        · intro p
          rw [show (down (globalDaemonStop s r own) n).procs = (globalDaemonStop s r own).procs
            from rfl, procs_globalDaemonStop]
          split
          · simp
          · next hstopped =>
            intro hserver
            refine hstopped ?_
            unfold stopped
            rw [hname, hneeds]
            exact (hapt r hr hneeds).2 p hserver
        · show (globalDaemonStop s r own).pidfile = none
          unfold globalDaemonStop
          rw [hname, hneeds]
          rfl
  | _ => exact Iff.rfl

/-! ## Whole runs -/

/-- Nothing runs yet, whatever there is in `Pids/`. -/
structure Initial (s : Host N) : Prop where
  running : s.running = []
  procs : ∀ p, s.procs p ≠ some .server

def idle : Host String := ⟨fun _ => none, none, none, []⟩

theorem idle_initial : Initial idle := ⟨rfl, fun p hp => by cases hp⟩

/-- The server of `a` dies, `b` starts another one, `b` ends and then `a`. -/
def replaced : List (Event String) :=
  [.start "a" true (some 10), .die 10 true, .start "b" true (some 11), .cleanup "b" false,
    .cleanup "a" true]

end Code

end Droidspaces.SharedServer
