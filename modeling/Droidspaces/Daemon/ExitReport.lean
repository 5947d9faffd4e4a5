import Droidspaces.Daemon.ChildExit
import Mathlib.Tactic.SplitIfs

/-!
# How a session reports that its child has exited

Before a session waits, a child that has exited has a `SIGCHLD` pending; at the end one frame says
how it has exited, and everything that was read has been sent before.

A signal that is not blocked is lost.  So this holds when the child is still running as `SIGCHLD` is
blocked (`exit_reported`), and otherwise the session never learns of the exit from its `signalfd`
(`exit_lost`).
-/

namespace Droidspaces.ChildExit

open Function Transition

/-- `epoll_wait` may still be called. -/
def Session.isPolling (s : Session) : Bool :=
  match s.phase with
  | .masked | .registering | .waiting => true
  | .serving => s.childDone = .running
  | _ => false

/-- An exit is noticed, what was read is sent, and the last frame tells the truth. -/
structure Reported (s : Session) : Prop where
  noticed : s.phase = .waiting → ∀ status, s.child = .exited status →
    s.sfd = true ∧ s.pending = true
  output : s.sent.filterMap Frame.output? = s.read
  notYet : s.phase ≠ .ended → ∀ code, .exit code ∉ s.sent
  once : s.phase = .ended → ∃ frames code, s.sent = frames ++ [.exit code] ∧
    (∀ code', .exit code' ∉ frames) ∧
      (s.child = .none ∨ ∃ status, s.child = .reaped status ∧ status.code = code)

/-- The client is there. -/
def Event.isLive : Event → Bool
  | .clientGone | .frameCut => false
  | _ => true

/-- The child is running when `SIGCHLD` is blocked, and when there is no `signalfd` it does not exit
before its output has come to an end; when there is no epoll instance, its status is 1. -/
def KeepsExit (s : Session) : Event → Prop
  | .blocks => s.child = .running
  | .createsSignalfd created => created = false → s.child = .running
  | .exits _ => s.isPolling = true → s.phase = .masked ∨ s.sfd = true
  | .collects => s.phase = .abandoned → ∀ status ∈ s.child.status, status.code = 1
  | _ => True

structure Inv (s : Session) : Prop where
  quiet : s.phase = .starting → s.child = .none
  live : s.phase ≠ .killing
  code : ∀ code, s.exitCode = some code → ∃ status, s.child = .reaped status ∧ status.code = code
  blocked : s.isPolling = true → s.blocked = true
  sfd : s.isPolling = true → s.phase ≠ .masked → ∀ status, s.child = .exited status → s.sfd = true
  /-- The signal is pending, or has just been read. -/
  heard : s.isPolling = true → ∀ status, s.child = .exited status →
    s.pending = true ∨ s.reaping = true
  reaping : s.reaping = true → s.phase = .serving ∧ s.childDone = .running ∧
    ∃ rest, s.batch = .signal :: rest
  output : s.sent.filterMap Frame.output? = s.read
  notYet : s.phase ≠ .ended → ∀ code, .exit code ∉ s.sent
  once : s.phase = .ended → ∃ frames code, s.sent = frames ++ [.exit code] ∧
    (∀ code', .exit code' ∉ frames) ∧
      (s.child = .none ∨ ∃ status, s.child = .reaped status ∧ status.code = code)

section Steps

variable {s t : Session}

theorem Inv.reported (hs : Inv s) : Reported s where
  noticed hphase status hexited := by
    have hpolling : s.isPolling = true := by rw [Session.isPolling, hphase]
    refine ⟨hs.sfd hpolling (by rw [hphase]; nofun) status hexited, ?_⟩
    rcases hs.heard hpolling status hexited with hpending | hreaping
    · exact hpending
    · have hserving := (hs.reaping hreaping).1
      rw [hphase] at hserving
      cases hserving
  output := hs.output
  notYet := hs.notYet
  once := hs.once

/-- What is written and who may write does not matter. -/
theorem Inv.source (hs : Inv s) (source : Stream → Source) : Inv { s with source := source } :=
  { hs with }

/-- What is done beside the loop -/
theorem Inv.raise (hs : Inv s) : Inv s.raise :=
  { hs with
    heard := fun hpolling status hexited => by
      rcases hs.heard hpolling status hexited with hpending | hreaping
      · left
        show (s.pending || s.blocked) = true
        rw [hpending, Bool.true_or]
      · exact .inr hreaping }

theorem Inv.exits (hs : Inv s) {status : Status} (hrunning : s.child = .running)
    (hkeeps : KeepsExit s (.exits status)) : Inv (s.exits status) :=
  { hs with
    quiet := fun hphase => nomatch (hs.quiet hphase).symm.trans hrunning
    code := fun code hcode => by
      obtain ⟨status, hreaped, -⟩ := hs.code code hcode
      cases hrunning.symm.trans hreaped
    sfd := fun hpolling hphase _ _ => (hkeeps hpolling).resolve_left hphase
    heard := fun hpolling _ _ => by
      left
      show (s.pending || s.blocked) = true
      rw [hs.blocked hpolling, Bool.or_true]
    once := fun hphase => by
      obtain ⟨-, -, -, -, hnone | ⟨status, hreaped, -⟩⟩ := hs.once hphase
      · cases hrunning.symm.trans hnone
      · cases hrunning.symm.trans hreaped }

/-- The child has been waited for. -/
theorem Inv.reap (hs : Inv s) {status : Status} (hexited : s.child = .exited status) :
    Inv { s with child := .reaped status } :=
  { hs with
    quiet := fun hphase => nomatch (hs.quiet hphase).symm.trans hexited
    code := fun code hcode => by
      obtain ⟨status, hreaped, -⟩ := hs.code code hcode
      cases hexited.symm.trans hreaped
    sfd := fun _ _ _ => nofun
    heard := fun _ _ => nofun
    once := fun hphase => by
      obtain ⟨-, -, -, -, hnone | ⟨status, hreaped, -⟩⟩ := hs.once hphase
      · cases hexited.symm.trans hnone
      · cases hexited.symm.trans hreaped }

theorem Inv.not_reaping (hs : Inv s) (hphase : s.phase ≠ .serving) : s.reaping = false := by
  rw [← Bool.not_eq_true]
  exact fun hreaping => hphase (hs.reaping hreaping).1

theorem Inv.not_reaping_of_batch (hs : Inv s) (hbatch : ∀ rest, s.batch ≠ .signal :: rest) :
    s.reaping = false := by
  rw [← Bool.not_eq_true]
  intro hreaping
  obtain ⟨-, -, rest, hrest⟩ := hs.reaping hreaping
  exact hbatch rest hrest

/-! ### Frames -/

theorem Inv.message (hs : Inv s) (hphase : s.phase ≠ .ended) (text : String) :
    Inv (s.send (.message text)) :=
  { hs with
    output := by
      show (s.sent ++ [Frame.message text]).filterMap Frame.output? = s.read
      rw [List.filterMap_append, hs.output]
      exact List.append_nil _
    notYet := fun _ code hmem => by
      rcases List.mem_append.1 hmem with hmem | hmem
      · exact hs.notYet hphase code hmem
      · cases List.mem_singleton.1 hmem
    once := fun hended => absurd hended hphase }

theorem Inv.receive (hs : Inv s) (hphase : s.phase ≠ .ended) (stream : Stream) (size : ℕ) :
    Inv (s.receive stream size) :=
  { hs with
    output := by
      show (s.sent ++ [Frame.data stream _]).filterMap Frame.output? = s.read ++ [_]
      rw [List.filterMap_append, hs.output]
      rfl
    notYet := fun _ code hmem => by
      rcases List.mem_append.1 hmem with hmem | hmem
      · exact hs.notYet hphase code hmem
      · cases List.mem_singleton.1 hmem
    once := fun hended => absurd hended hphase }

/-- The last frame is sent when the child, if there is one, has been waited for. -/
theorem Inv.finish (hs : Inv s) (hreaping : s.reaping = false) (hphase : s.phase ≠ .ended)
    {code : ℕ} (hcode : s.child = .none ∨ ∃ status, s.child = .reaped status ∧ status.code = code) :
    Inv (s.finish code) where
  quiet := nofun
  live := nofun
  code := hs.code
  blocked := nofun
  sfd := nofun
  heard := nofun
  reaping h := nomatch hreaping.symm.trans h
  output := by
    show (s.sent ++ [Frame.exit code]).filterMap Frame.output? = s.read
    rw [List.filterMap_append, hs.output]
    exact List.append_nil _
  notYet h := absurd rfl h
  once _ := ⟨s.sent, code, rfl, hs.notYet hphase, hcode⟩

/-! ### Where the session is -/

/-- The session goes on; it polls only where it has done so before. -/
theorem Inv.move (hs : Inv s) (hreaping : s.reaping = false) (hended : s.phase ≠ .ended)
    {phase : Phase} (hmoved : phase ≠ .starting ∧ phase ≠ .killing ∧ phase ≠ .ended)
    (hpolling : { s with phase := phase }.isPolling = true →
      s.isPolling = true ∧ s.phase ≠ .masked) : Inv { s with phase := phase } where
  quiet h := absurd h hmoved.1
  live := hmoved.2.1
  code := hs.code
  blocked h := hs.blocked (hpolling h).1
  sfd h _ := hs.sfd (hpolling h).1 (hpolling h).2
  heard h := hs.heard (hpolling h).1
  reaping h := nomatch hreaping.symm.trans h
  output := hs.output
  notYet _ := hs.notYet hended
  once h := absurd h hmoved.2.2

/-- From now on a signal stays pending. -/
theorem Inv.blocks (hs : Inv s) (hphase : s.phase = .unmasked) (hrunning : s.child = .running) :
    Inv { s with phase := .masked, blocked := true } where
  quiet := nofun
  live := nofun
  code := hs.code
  blocked _ := rfl
  sfd _ h := absurd rfl h
  heard _ _ hexited := nomatch hrunning.symm.trans hexited
  reaping h := nomatch (hs.not_reaping (by rw [hphase]; nofun)).symm.trans h
  output := hs.output
  notYet _ := hs.notYet (by rw [hphase]; nofun)
  once := nofun

theorem Inv.createsSignalfd (hs : Inv s) (hphase : s.phase = .masked) {created : Bool}
    (hkeeps : created = false → s.child = .running) :
    Inv { s with phase := .registering, sfd := created } where
  quiet := nofun
  live := nofun
  code := hs.code
  blocked _ := hs.blocked (by rw [Session.isPolling, hphase])
  sfd _ _ _ hexited := by
    cases created with
    | false => exact nomatch (hkeeps rfl).symm.trans hexited
    | true => rfl
  heard _ := hs.heard (by rw [Session.isPolling, hphase])
  reaping h := nomatch (hs.not_reaping (by rw [hphase]; nofun)).symm.trans h
  output := hs.output
  notYet _ := hs.notYet (by rw [hphase]; nofun)
  once := nofun

theorem Inv.registers (hs : Inv s) (hphase : s.phase = .registering) : Inv s.registers := by
  have hreaping : s.reaping = false := hs.not_reaping (by rw [hphase]; nofun)
  have hmoved : Inv { s with phase := .waiting } :=
    hs.move hreaping (by rw [hphase]; nofun) ⟨nofun, nofun, nofun⟩ fun _ =>
      ⟨by rw [Session.isPolling, hphase], by rw [hphase]; nofun⟩
  exact { hmoved.source fun stream => { s.source stream with handler := false } with }

/-! ### What the session serves -/

theorem Inv.rest (hs : Inv s) (hreaping : s.reaping = false) (rest : List Ready) :
    Inv { s with batch := rest } :=
  { hs with reaping := fun h => nomatch hreaping.symm.trans h }

theorem Inv.polls (hs : Inv s) (hphase : s.phase = .waiting) (ready : List Ready) :
    Inv { s with phase := .serving, batch := ready } := by
  have hreaping : s.reaping = false := hs.not_reaping (by rw [hphase]; nofun)
  have hmoved : Inv { s with phase := .serving } :=
    hs.move hreaping (by rw [hphase]; nofun) ⟨nofun, nofun, nofun⟩ fun _ =>
      ⟨by rw [Session.isPolling, hphase], by rw [hphase]; nofun⟩
  exact hmoved.rest hreaping ready

/-- The signal is taken, and the child is looked for at once if it has not been found before. -/
theorem Inv.readsSignal (hs : Inv s) (hphase : s.phase = .serving) {rest : List Ready}
    (hbatch : s.batch = .signal :: rest) :
    Inv { s with pending := false, reaping := s.childDone = .running } :=
  { hs with
    heard := fun hpolling _ _ => by
      right
      rwa [Session.isPolling, hphase] at hpolling
    reaping := fun h => ⟨hphase, of_decide_eq_true h, rest, hbatch⟩ }

theorem Inv.waits (hs : Inv s) (hreaping : s.reaping = true) : Inv s.waits := by
  obtain ⟨hphase, -, -⟩ := hs.reaping hreaping
  rw [Session.waits]
  split
  case h_1 status hexited =>
    have hdone : { s with childDone := if s.isPty then .normalExitSeen else .killed }.isPolling =
        false := by
      simp only [Session.isPolling, hphase]
      split_ifs
      · rfl
      · rfl
    exact { hs.reap hexited with
      code := fun code hcode => ⟨status, rfl, Option.some.inj hcode⟩
      blocked := fun h => nomatch hdone.symm.trans h
      sfd := fun _ _ _ => nofun
      heard := fun _ _ => nofun
      reaping := nofun }
  case h_2 hrunning =>
    exact { hs with
      heard := fun _ status hexited => absurd hexited (hrunning status)
      reaping := nofun }

/-- When a descriptor has come to its end, the loop may have, too. -/
theorem isPolling_of_closeSource {stream : Stream} (h : (s.closeSource stream).isPolling = true) :
    s.isPolling = true := by
  revert h
  simp only [Session.isPolling, Session.closeSource, Session.setSource]
  cases s.phase with
  | serving =>
    split_ifs
    · exact nofun
    · exact id
  | _ => exact id

theorem Inv.closeSource (hs : Inv s) (hreaping : s.reaping = false) (stream : Stream) :
    Inv (s.closeSource stream) :=
  { hs with
    blocked := fun h => hs.blocked (isPolling_of_closeSource h)
    sfd := fun h => hs.sfd (isPolling_of_closeSource h)
    heard := fun h => hs.heard (isPolling_of_closeSource h)
    reaping := fun h => nomatch hreaping.symm.trans h }

theorem isPolling_of_serving (hphase : s.phase = .serving) (hdone : s.childDone = .running) :
    s.isPolling = true := by
  rw [Session.isPolling, hphase]
  exact decide_eq_true hdone

theorem nextPhase_cases (s : Session) : s.childDone = .running ∧ s.nextPhase = .waiting ∨
    ∃ todo, s.nextPhase = .draining todo := by
  rw [Session.nextPhase]
  cases s.childDone with
  | running => exact .inl ⟨rfl, rfl⟩
  | killed => exact .inr ⟨_, rfl⟩
  | normalExitSeen => exact .inr ⟨_, rfl⟩

theorem Inv.checks (hs : Inv s) (hphase : s.phase = .serving) (hbatch : s.batch = []) :
    Inv { s with phase := s.nextPhase } := by
  have hreaping : s.reaping = false := hs.not_reaping_of_batch fun rest hsignal =>
    nomatch hbatch.symm.trans hsignal
  have hended : s.phase ≠ .ended := by rw [hphase]; nofun
  obtain ⟨hdone, hnext⟩ | ⟨todo, hnext⟩ := nextPhase_cases s
  · rw [hnext]
    exact hs.move hreaping hended ⟨nofun, nofun, nofun⟩ fun _ =>
      ⟨isPolling_of_serving hphase hdone, by rw [hphase]; nofun⟩
  · rw [hnext]
    exact hs.move hreaping hended ⟨nofun, nofun, nofun⟩ nofun

end Steps

theorem inv_init (isPty : Bool) : Inv (.init isPty) where
  quiet _ := rfl
  live := nofun
  code := nofun
  blocked := nofun
  sfd := nofun
  heard := nofun
  reaping := nofun
  output := rfl
  notYet _ _ := nofun
  once := nofun

theorem Inv.starts {s : Session} (hs : Inv s) (hphase : s.phase = .starting) (start : Start) :
    Inv (s.starts start) := by
  have hended : s.phase ≠ .ended := by rw [hphase]; nofun
  have hreaping : s.reaping = false := hs.not_reaping (by rw [hphase]; nofun)
  have hnone := hs.quiet hphase
  cases start with
  | noDescriptors => exact (hs.message hended _).finish hreaping hended (.inl hnone)
  | noMemory => exact hs.finish hreaping hended (.inl hnone)
  | noProcess => exact (hs.message hended _).finish hreaping hended (.inl hnone)
  | forked =>
    exact {
      quiet := nofun
      live := nofun
      code := fun code hcode => by
        obtain ⟨status, hreaped, -⟩ := hs.code code hcode
        cases hnone.symm.trans hreaped
      blocked := nofun
      sfd := nofun
      heard := nofun
      reaping := fun h => nomatch hreaping.symm.trans h
      output := hs.output
      notYet := fun _ => hs.notYet hended
      once := nofun }

theorem inv_step (s : Session) (e : Event) (t : Session) (hs : Inv s)
    (hkeeps : e.isLive = true ∧ KeepsExit s e) (h : system.step s e = some t) : Inv t := by
  obtain ⟨hlive, hkeeps⟩ := hkeeps
  cases Session.stepped_of_step h with
  | source e source => exact hs.source source
  | stops hrunning => exact hs.raise
  | exits hrunning status => exact hs.exits hrunning hkeeps
  | starts hphase start => exact hs.starts hphase start
  | createsEpoll hphase created =>
    have hreaping : s.reaping = false := hs.not_reaping (by rw [hphase]; nofun)
    have hended : s.phase ≠ .ended := by rw [hphase]; nofun
    cases created with
    | false => exact hs.move hreaping hended ⟨nofun, nofun, nofun⟩ nofun
    | true => exact hs.move hreaping hended ⟨nofun, nofun, nofun⟩ nofun
  | blocks hphase => exact hs.blocks hphase hkeeps
  | createsSignalfd hphase created => exact hs.createsSignalfd hphase hkeeps
  | registers hphase => exact hs.registers hphase
  | polls hphase hready => exact hs.polls hphase _
  | fails hphase =>
    have hreaping : s.reaping = false := hs.not_reaping (by rw [hphase]; nofun)
    exact hs.move hreaping (by rw [hphase]; nofun) ⟨nofun, nofun, nofun⟩ nofun
  | takesSignal hphase hbatch hpending => exact hs.readsSignal hphase hbatch
  | serves e hphase hbatch hsignal =>
    refine hs.rest ?_ _
    rw [← Bool.not_eq_true]
    intro hreaping
    obtain ⟨-, -, rest, hrest⟩ := hs.reaping hreaping
    have hhead := hsignal (List.cons.inj (hbatch.symm.trans hrest)).1
    exact nomatch hhead.symm.trans hreaping
  | waits hreaping => exact hs.waits hreaping
  | receives e hphase stream size =>
    refine hs.receive ?_ stream size
    obtain hphase | ⟨todo, hphase⟩ := hphase
    · rw [hphase]
      exact nofun
    · rw [hphase]
      exact nofun
  | @closesSource hphase stream _ _ _ rest hbatch size =>
    have hreaping : s.reaping = false := hs.not_reaping_of_batch fun rest' hsignal =>
      nomatch hbatch.symm.trans hsignal
    exact (hs.rest hreaping rest).closeSource hreaping stream
  | clientGone hphase => cases hlive
  | frameCut hphase => cases hlive
  | checks hphase hbatch => exact hs.checks hphase hbatch
  | drains hphase size =>
    have hreaping : s.reaping = false := hs.not_reaping (by rw [hphase]; nofun)
    exact hs.move hreaping (by rw [hphase]; nofun) ⟨nofun, nofun, nofun⟩ nofun
  | drained hphase size =>
    have hreaping : s.reaping = false := hs.not_reaping (by rw [hphase]; nofun)
    exact hs.move hreaping (by rw [hphase]; nofun) ⟨nofun, nofun, nofun⟩ nofun
  | collects hphase hexited =>
    exact { hs.reap hexited with code := fun code hcode => ⟨_, rfl, Option.some.inj hcode⟩ }
  | collectsAbandoned hphase hexited =>
    have hreaping : s.reaping = false := hs.not_reaping (by rw [hphase]; nofun)
    have hended : s.phase ≠ .ended := by rw [hphase]; nofun
    exact (hs.reap hexited).finish hreaping hended
      (.inr ⟨_, rfl, hkeeps hphase _ (by rw [hexited]; rfl)⟩)
  | collectsKilled hphase hexited => exact absurd hphase hs.live
  | ends hphase hcode =>
    have hreaping : s.reaping = false := hs.not_reaping (by rw [hphase]; nofun)
    exact hs.finish hreaping (by rw [hphase]; nofun) (.inr (hs.code _ hcode))

/-- As long as the client is there and every step meets the condition, an exit is noticed, and
reported once, at the end, as it was. -/
theorem exit_reported {isPty : Bool} {es : List Event} {t : Session}
    (hlive : ∀ e ∈ es, e.isLive = true) (hkeeps : system.Guarded KeepsExit (.init isPty) es)
    (hrun : system.run (.init isPty) es = some t) : Reported t := by
  have hguarded := system.guarded_and
    (system.guarded_of_forall_mem (fun e he _ => hlive e he) (.init isPty)) hkeeps
  exact (system.invariant_of_guarded inv_step (inv_init isPty) hguarded hrun).reported

instance : ∀ (s : Session) (e : Event), Decidable (KeepsExit s e)
  | s, .blocks => inferInstanceAs (Decidable (s.child = .running))
  | s, .createsSignalfd created => inferInstanceAs (Decidable
    (created = false → s.child = .running))
  | s, .exits _ => inferInstanceAs (Decidable
    (s.isPolling = true → s.phase = .masked ∨ s.sfd = true))
  | s, .collects => inferInstanceAs (Decidable
    (s.phase = .abandoned → ∀ status ∈ s.child.status, status.code = 1))
  | _, .writes _ _ | _, .inherits _ | _, .closes _ | _, .childCloses _ | _, .stops | _, .starts _
  | _, .createsEpoll _ | _, .registers | _, .polls _ | _, .fails | _, .readsSignal | _, .waits
  | _, .reads _ | _, .hears | _, .clientGone | _, .frameCut | _, .checks | _, .drains _
  | _, .ends => isTrue trivial

/-- A command leaves a process behind that keeps its output open. -/
def leftBehind : List Event :=
  [.starts .forked, .createsEpoll true, .blocks, .createsSignalfd true, .registers,
    .writes .out [111, 107], .inherits .out, .polls [.source .out true false false], .reads 2,
    .reads 2, .checks, .writes .err [33], .exits (.exited 3), .polls [.signal], .readsSignal,
    .waits, .readsSignal, .checks, .drains 1, .drains 1, .drains 1, .drains 1, .ends]

theorem exit_reported_leftBehind :
    Reported ((system.run (.init false) leftBehind).get (by decide +kernel)) :=
  @exit_reported false leftBehind _ (by decide +kernel) (by decide +kernel) (Option.some_get _).symm

/-- The command has exited before `SIGCHLD` is blocked, and left a process behind. -/
def exitedEarly : List Event :=
  [.starts .forked, .inherits .out, .exits (.exited 0), .createsEpoll true, .blocks,
    .createsSignalfd true, .registers]

theorem not_reported_exitedEarly : ¬ ∀ isPty es t, (∀ e ∈ es, e.isLive = true) →
    system.run (.init isPty) es = some t → Reported t := by
  intro h
  have hearly : (system.run (.init false) exitedEarly).map (fun t =>
      (t.phase, t.child, t.pending)) = some (.waiting, .exited (.exited 0), false) := by
    decide +kernel
  obtain ⟨t, ht, heq⟩ := Option.map_eq_some_iff.1 hearly
  obtain ⟨hphase, heq⟩ := Prod.mk.inj heq
  obtain ⟨hexited, hpending⟩ := Prod.mk.inj heq
  have hreported := h false exitedEarly t (by decide +kernel) ht
  exact nomatch hpending.symm.trans (hreported.noticed hphase _ hexited).2

/-! ## A signal that comes too early -/

/-- The child has exited before the signal is blocked. -/
def ExitsEarly (s : Session) : Event → Prop
  | .blocks => ∃ status, s.child = .exited status
  | _ => True

/-- The signal never comes. -/
structure Lost (s : Session) : Prop where
  pending : s.pending = false
  reaping : s.reaping = false
  running : s.child = .running → s.blocked = false
  starting : s.phase = .starting → s.blocked = false
  exited : s.isPolling = true → ∃ status, s.child = .exited status

section Early

variable {s t : Session}

theorem Lost.source (hs : Lost s) (source : Stream → Source) : Lost { s with source := source } :=
  { hs with }

theorem Lost.send (hs : Lost s) (frame : Frame) : Lost (s.send frame) := { hs with }

/-- A signal that is not blocked is gone at once. -/
theorem Lost.raise (hs : Lost s) (hrunning : s.child = .running) : Lost s.raise :=
  { hs with
    pending := by
      show (s.pending || s.blocked) = false
      rw [hs.pending, hs.running hrunning, Bool.or_false] }

theorem Lost.move (hs : Lost s) {phase : Phase} (hstart : phase ≠ .starting)
    (hpolling : { s with phase := phase }.isPolling = true → s.isPolling = true) :
    Lost { s with phase := phase } :=
  { hs with
    starting := fun h => absurd h hstart
    exited := fun h => hs.exited (hpolling h) }

theorem Lost.rest (hs : Lost s) (rest : List Ready) : Lost { s with batch := rest } := { hs with }

theorem Lost.reap (hs : Lost s) (hpolling : s.isPolling = false) (status : Status) :
    Lost { s with child := .reaped status } :=
  { hs with
    running := nofun
    exited := fun h => nomatch hpolling.symm.trans h }

theorem Lost.receive (hs : Lost s) (stream : Stream) (size : ℕ) : Lost (s.receive stream size) :=
  { hs with }

theorem Lost.finish (hs : Lost s) (code : ℕ) : Lost (s.finish code) :=
  (hs.send (.exit code)).move nofun nofun

theorem Lost.closeSource (hs : Lost s) (stream : Stream) : Lost (s.closeSource stream) :=
  { hs with exited := fun h => hs.exited (isPolling_of_closeSource h) }

theorem Lost.starts (hs : Lost s) (hphase : s.phase = .starting) (start : Start) :
    Lost (s.starts start) := by
  cases start with
  | noDescriptors => exact (hs.send _).finish 1
  | noMemory => exact hs.finish 1
  | noProcess => exact (hs.send _).finish 1
  | forked =>
    exact { hs with
      running := fun _ => hs.starting hphase
      starting := nofun
      exited := nofun }

end Early

theorem lost_init (isPty : Bool) : Lost (.init isPty) where
  pending := rfl
  reaping := rfl
  running _ := rfl
  starting _ := rfl
  exited := nofun

theorem lost_step (s : Session) (e : Event) (t : Session) (hs : Lost s) (hearly : ExitsEarly s e)
    (h : system.step s e = some t) : Lost t := by
  cases Session.stepped_of_step h with
  | source e source => exact hs.source source
  | stops hrunning => exact hs.raise hrunning
  | exits hrunning status =>
    exact { hs.raise hrunning with
      running := nofun
      exited := fun _ => ⟨status, rfl⟩ }
  | starts hphase start => exact hs.starts hphase start
  | createsEpoll hphase created =>
    cases created with
    | false => exact hs.move nofun nofun
    | true => exact hs.move nofun nofun
  | blocks hphase =>
    obtain ⟨status, hexited⟩ := hearly
    exact { hs with
      running := fun hrunning => nomatch hexited.symm.trans hrunning
      starting := nofun
      exited := fun _ => ⟨status, hexited⟩ }
  | createsSignalfd hphase created =>
    have hpolling : s.isPolling = true := by rw [Session.isPolling, hphase]
    have hmoved : Lost { s with phase := .registering } := hs.move nofun fun _ => hpolling
    exact { hmoved with }
  | registers hphase =>
    have hpolling : s.isPolling = true := by rw [Session.isPolling, hphase]
    have hmoved : Lost { s with phase := .waiting } := hs.move nofun fun _ => hpolling
    exact { hmoved with }
  | polls hphase hready =>
    have hpolling : s.isPolling = true := by rw [Session.isPolling, hphase]
    have hmoved : Lost { s with phase := .serving } := hs.move nofun fun _ => hpolling
    exact hmoved.rest _
  | fails hphase => exact hs.move nofun nofun
  | takesSignal hphase hbatch hpending => exact nomatch hs.pending.symm.trans hpending
  | serves e hphase hbatch hsignal => exact hs.rest _
  | waits hreaping => exact nomatch hs.reaping.symm.trans hreaping
  | receives e hphase stream size => exact hs.receive stream size
  | @closesSource hphase stream _ _ _ rest hbatch size =>
    exact (hs.rest rest).closeSource stream
  | clientGone hphase => exact hs.move nofun nofun
  | frameCut hphase => exact hs.finish _
  | checks hphase hbatch =>
    obtain ⟨hdone, hnext⟩ | ⟨todo, hnext⟩ := nextPhase_cases s
    · rw [hnext]
      exact hs.move nofun fun _ => isPolling_of_serving hphase hdone
    · rw [hnext]
      exact hs.move nofun nofun
  | drains hphase size => exact hs.move nofun nofun
  | drained hphase size => exact hs.move nofun nofun
  | collects hphase hexited =>
    exact { hs.reap (by rw [Session.isPolling, hphase]) _ with }
  | collectsAbandoned hphase hexited =>
    exact (hs.reap (by rw [Session.isPolling, hphase]) _).finish 1
  | collectsKilled hphase hexited =>
    exact (hs.reap (by rw [Session.isPolling, hphase]) _).finish _
  | ends hphase hcode => exact hs.finish _

/-- A session whose child has exited before `SIGCHLD` is blocked comes to `epoll_wait` with a child
to wait for and without a signal. -/
theorem exit_lost {isPty : Bool} {es : List Event} {t : Session}
    (hearly : system.Guarded ExitsEarly (.init isPty) es)
    (hrun : system.run (.init isPty) es = some t) (hphase : t.phase = .waiting) :
    (∃ status, t.child = .exited status) ∧ t.pending = false := by
  have ht : Lost t := system.invariant_of_guarded lost_step (lost_init isPty) hearly hrun
  exact ⟨ht.exited (by rw [Session.isPolling, hphase]), ht.pending⟩

end Droidspaces.ChildExit
