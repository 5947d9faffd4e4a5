import Droidspaces.Daemon.ExitReport
import Droidspaces.Enter.TerminalProxy
import Mathlib.Data.List.TakeWhile

/-!
# What a command wrote to its PTY

A session reads its PTY as long as there is something to be read, and again when it has learned of
the exit of the child.  So all that was written before the exit has been sent before the last frame,
unless `epoll` itself fails (`sent_of_guarded`).

The proxy in the foreground, which does the same for a console, does not read again when the slave
has been closed.
-/

namespace Droidspaces.ChildExit

open Function Transition

/-! ## What was written -/

/-- A session with a PTY, and what was written to it before the child exited -/
structure Watched where
  session : Session
  written : Bytes

namespace Watched

def step (w : Watched) (e : Event) : Option Watched :=
  (w.session.step e).map fun t =>
    { session := t
      written := match e with
        | .writes .out bytes =>
          if w.session.child.status = none then w.written ++ bytes else w.written
        | _ => w.written }

def init : Watched where
  session := .init true
  written := []

end Watched

def watchedSystem : System Watched Event where
  step := Watched.step

def Frame.isExit : Frame → Bool
  | .exit _ => true
  | _ => false

/-- What a `MSG_OUT` frame has -/
def Frame.outBytes : Frame → Bytes
  | .data .out bytes => bytes
  | _ => []

/-- What a client gets before the `MSG_EXIT` -/
def outputOf (frames : List Frame) : Bytes :=
  (frames.takeWhile fun frame => !frame.isExit).flatMap Frame.outBytes

/-- The last frame comes after all that was written. -/
def Sent (w : Watched) : Prop :=
  w.session.phase = .ended → w.written <+: outputOf w.session.sent

/-- Nothing is left behind when `epoll` fails, and then nothing more is written. -/
def KeepsOutput (w : Watched) : Event → Prop
  | .createsEpoll created => created = false → w.written <+: outputOf w.session.sent
  | .fails => w.written <+: outputOf w.session.sent
  | .writes .out bytes => w.session.child.status = none →
    w.session.phase = .abandoned ∨ w.session.phase = .leaving → bytes = []
  | .clientGone | .frameCut => False
  | _ => True

/-! ## What holds in every state -/

/-- The PTY -/
abbrev Watched.pty (w : Watched) : Source := w.session.source .out

abbrev Watched.sent (w : Watched) : Bytes := w.session.sent.flatMap Frame.outBytes

structure Tracked (w : Watched) : Prop where
  isPty : w.session.isPty = true
  starting : w.session.phase = .starting →
    w.session.child = .none ∧ w.session.childDone = .running ∧ w.written = [] ∧ w.sent = []
  quiet : w.session.child = .none → w.pty.isHeld = false ∧ w.pty.unread = []
  whole : w.session.child.status = none → w.written = w.sent ++ w.pty.unread
  inOrder : w.written <+: w.sent ++ w.pty.unread
  closed : w.pty.isOpen = false → w.pty.isHeld = false ∧ w.pty.unread = []
  /-- A PTY has no second stream. -/
  noErr : (w.session.source .err).isOpen = false
  batch : ∀ pollin hup pollout, .source .err pollin hup pollout ∉ w.session.batch
  code : w.session.exitCode ≠ none → w.session.child.status ≠ none
  done : w.session.childDone ≠ .running → w.session.childDone = .normalExitSeen ∧
    (w.session.child.status ≠ none ∨ w.pty.isOpen = false)
  draining : ∀ todo, w.session.phase = .draining todo →
    w.session.childDone ≠ .running ∧ (todo = [] ∨ todo = [.out])
  settled : w.session.phase = .draining [] ∨ w.session.phase = .abandoned ∨
    w.session.phase = .leaving ∨ w.session.phase = .ended → w.written <+: w.sent
  ended : w.session.phase = .ended → w.session.child.status ≠ none ∨ w.pty.isHeld = false
  live : w.session.phase ≠ .killing
  notYet : w.session.phase ≠ .ended → ∀ code, .exit code ∉ w.session.sent
  last : w.session.phase = .ended → ∃ frames code, w.session.sent = frames ++ [.exit code] ∧
    ∀ code', .exit code' ∉ frames

/-! ### Frames -/

theorem isExit_eq_false {frames : List Frame} (h : ∀ code, .exit code ∉ frames) :
    ∀ frame ∈ frames, (!frame.isExit) = true := by
  intro frame hmem
  cases frame with
  | exit code => exact absurd hmem (h code)
  | data => rfl
  | message => rfl

theorem outputOf_of_notYet {frames : List Frame} (h : ∀ code, .exit code ∉ frames) :
    outputOf frames = frames.flatMap Frame.outBytes := by
  rw [outputOf, List.takeWhile_eq_self_iff.2 (isExit_eq_false h)]

theorem outputOf_concat {frames : List Frame} (h : ∀ code, .exit code ∉ frames) (code : ℕ) :
    outputOf (frames ++ [Frame.exit code]) =
      (frames ++ [Frame.exit code]).flatMap Frame.outBytes := by
  rw [outputOf, List.takeWhile_append_of_pos (isExit_eq_false h), List.flatMap_append,
    List.flatMap_append]
  rfl

theorem Tracked.outputOf {w : Watched} (hs : Tracked w) : outputOf w.session.sent = w.sent := by
  by_cases hended : w.session.phase = .ended
  · obtain ⟨frames, code, hsent, hframes⟩ := hs.last hended
    rw [Watched.sent, hsent]
    exact outputOf_concat hframes code
  · exact outputOf_of_notYet (hs.notYet hended)

theorem Tracked.sentAll {w : Watched} (hs : Tracked w) : Sent w := by
  intro hended
  rw [hs.outputOf]
  exact hs.settled (.inr (.inr (.inr hended)))

/-! ### Beside the session -/

section Steps

variable {s : Session} {written : Bytes}

/-- Who may write changes. -/
theorem Tracked.setSource (hs : Tracked ⟨s, written⟩) {stream : Stream} {source : Source}
    (hunread : source.unread = (s.source stream).unread)
    (hopen : source.isOpen = (s.source stream).isOpen)
    (hheld : (s.source stream).isHeld = false → source.isHeld = false) :
    Tracked ⟨s.setSource stream source, written⟩ := by
  cases stream with
  | err => exact { hs with noErr := hopen.trans hs.noErr }
  | out =>
    exact { hs with
      quiet := fun hnone => by
        obtain ⟨hnot, hempty⟩ := hs.quiet hnone
        exact ⟨hheld hnot, hunread.trans hempty⟩
      whole := fun hstatus => by
        have hwritten := hs.whole hstatus
        rw [Watched.pty, ← hunread] at hwritten
        exact hwritten
      inOrder := by
        have hwritten := hs.inOrder
        rw [Watched.pty, ← hunread] at hwritten
        exact hwritten
      closed := fun hclosed => by
        obtain ⟨hnot, hempty⟩ := hs.closed (hopen.symm.trans hclosed)
        exact ⟨hheld hnot, hunread.trans hempty⟩
      done := fun hdone => by
        obtain ⟨hseen, hexit⟩ := hs.done hdone
        exact ⟨hseen, hexit.imp_right hopen.trans⟩
      ended := fun hended => (hs.ended hended).imp_right hheld }

theorem Tracked.held (hs : Tracked ⟨s, written⟩) (hheld : (s.source .out).isHeld = true) :
    (s.source .out).isOpen = true ∧ s.child ≠ .none := by
  constructor
  · by_contra hclosed
    rw [(hs.closed (Bool.not_eq_true _ ▸ hclosed)).1] at hheld
    cases hheld
  · intro hnone
    rw [(hs.quiet hnone).1] at hheld
    cases hheld

/-- Before the child has exited, nothing is written any more where the session is done. -/
theorem Tracked.writes (hs : Tracked ⟨s, written⟩) (hheld : (s.source .out).isHeld = true)
    (bytes : Bytes) (hkeeps : KeepsOutput ⟨s, written⟩ (.writes .out bytes)) :
    Tracked ⟨s.writes .out bytes, if s.child.status = none then written ++ bytes else written⟩ := by
  obtain ⟨hopen, hchild⟩ := hs.held hheld
  have hwrites : s.writes .out bytes = s.setSource .out
      { s.source .out with unread := (s.source .out).unread ++ bytes } := by
    simp only [Session.writes, hopen, if_true]
  have hexited (hsettled : s.phase = .draining [] ∨ s.phase = .abandoned ∨ s.phase = .leaving ∨
      s.phase = .ended) (hstatus : s.child.status = none) : bytes = [] := by
    rcases hsettled with hphase | hphase | hphase | hphase
    · rcases (hs.done (hs.draining _ hphase).1).2 with hexit | hclosed
      · exact absurd hstatus hexit
      · exact nomatch hopen.symm.trans hclosed
    · exact hkeeps hstatus (.inl hphase)
    · exact hkeeps hstatus (.inr hphase)
    · rcases hs.ended hphase with hexit | hnot
      · exact absurd hstatus hexit
      · exact nomatch hheld.symm.trans hnot
  rw [hwrites]
  exact { hs with
    starting := fun hstart => absurd (hs.starting hstart).1 hchild
    quiet := fun hnone => absurd hnone hchild
    whole := fun (hstatus : s.child.status = none) => by
      show ite _ _ _ = Watched.sent ⟨s, written⟩ ++ ((s.source .out).unread ++ bytes)
      have hwritten := hs.whole hstatus
      rw [if_pos hstatus, ← List.append_assoc]
      exact congrArg (· ++ bytes) hwritten
    inOrder := by
      show ite _ _ _ <+: Watched.sent ⟨s, written⟩ ++ ((s.source .out).unread ++ bytes)
      rw [← List.append_assoc]
      split_ifs with hstatus
      · have hwritten := hs.whole hstatus
        exact ⟨[], by rw [List.append_nil]; exact congrArg (· ++ bytes) hwritten⟩
      · exact hs.inOrder.trans (List.prefix_append _ _)
    closed := fun hclosed => nomatch hopen.symm.trans hclosed
    settled := fun hsettled => by
      have hsent := hs.settled hsettled
      show ite _ _ _ <+: Watched.sent ⟨s, written⟩
      split_ifs with hstatus
      · rw [hexited hsettled hstatus, List.append_nil]
        exact hsent
      · exact hsent }

theorem Tracked.exits (hs : Tracked ⟨s, written⟩) (hrunning : s.child = .running)
    (status : Status) : Tracked ⟨s.exits status, written⟩ :=
  { hs with
    starting := fun hstart => nomatch hrunning.symm.trans (hs.starting hstart).1
    quiet := nofun
    whole := nofun
    closed := fun hclosed => by
      obtain ⟨hnot, hempty⟩ := hs.closed hclosed
      rw [Watched.pty, Source.isHeld, Bool.or_eq_false_iff] at hnot
      exact ⟨by rw [Source.isHeld]; exact hnot.2, hempty⟩
    code := fun _ => nofun
    done := fun hdone => ⟨(hs.done hdone).1, .inl nofun⟩
    ended := fun _ => .inl nofun }

/-! ### The session -/

/-- The session goes on to where it neither drains nor ends. -/
theorem Tracked.move (hs : Tracked ⟨s, written⟩) {phase : Phase} (hended : s.phase ≠ .ended)
    (hphase : phase = .forked ∨ phase = .abandoned ∨ phase = .unmasked ∨ phase = .masked ∨
      phase = .registering ∨ phase = .waiting ∨ phase = .serving ∨ phase = .leaving)
    (hsettled : phase = .abandoned ∨ phase = .leaving →
      written <+: Watched.sent ⟨s, written⟩) :
    Tracked ⟨{ s with phase := phase }, written⟩ :=
  { hs with
    starting := fun (hstart : phase = .starting) => by rw [hstart] at hphase; simp at hphase
    draining := fun todo (hdraining : phase = .draining todo) => by
      rw [hdraining] at hphase
      simp at hphase
    settled := fun (hdone : phase = _ ∨ phase = _ ∨ phase = _ ∨ phase = _) => by
      rcases hdone with hdone | hdone | hdone | hdone
      · rw [hdone] at hphase
        simp at hphase
      · exact hsettled (.inl hdone)
      · exact hsettled (.inr hdone)
      · rw [hdone] at hphase
        simp at hphase
    ended := fun (hdone : phase = .ended) => by rw [hdone] at hphase; simp at hphase
    live := fun (hkilling : phase = .killing) => by rw [hkilling] at hphase; simp at hphase
    notYet := fun _ => hs.notYet hended
    last := fun (hdone : phase = .ended) => by rw [hdone] at hphase; simp at hphase }

/-- The last frame is sent. -/
theorem Tracked.finish (hs : Tracked ⟨s, written⟩) (hended : s.phase ≠ .ended)
    (hsettled : written <+: Watched.sent ⟨s, written⟩)
    (hwritten : s.child.status ≠ none ∨ (s.source .out).isHeld = false) (code : ℕ) :
    Tracked ⟨s.finish code, written⟩ := by
  have hsent : Watched.sent ⟨s.finish code, written⟩ = Watched.sent ⟨s, written⟩ := by
    show (s.sent ++ [Frame.exit code]).flatMap Frame.outBytes = _
    rw [List.flatMap_append]
    exact List.append_nil _
  exact { hs with
    starting := nofun
    whole := fun hstatus => by rw [hsent]; exact hs.whole hstatus
    inOrder := by rw [hsent]; exact hs.inOrder
    draining := nofun
    settled := fun _ => by rw [hsent]; exact hsettled
    ended := fun _ => hwritten
    live := nofun
    notYet := fun hnot => absurd rfl hnot
    last := fun _ => ⟨s.sent, code, rfl, hs.notYet hended⟩ }

/-- A message is no output. -/
theorem Tracked.message (hs : Tracked ⟨s, written⟩) (hended : s.phase ≠ .ended) (text : String) :
    Tracked ⟨s.send (.message text), written⟩ := by
  have hsent : Watched.sent ⟨s.send (.message text), written⟩ = Watched.sent ⟨s, written⟩ := by
    show (s.sent ++ [Frame.message text]).flatMap Frame.outBytes = _
    rw [List.flatMap_append]
    exact List.append_nil _
  exact { hs with
    starting := fun hstart => by rw [hsent]; exact hs.starting hstart
    whole := fun hstatus => by rw [hsent]; exact hs.whole hstatus
    inOrder := by rw [hsent]; exact hs.inOrder
    settled := fun hdone => by rw [hsent]; exact hs.settled hdone
    notYet := fun _ code hmem => by
      rcases List.mem_append.1 hmem with hmem | hmem
      · exact hs.notYet hended code hmem
      · cases List.mem_singleton.1 hmem
    last := fun hdone => absurd hdone hended }

theorem Tracked.starts (hs : Tracked ⟨s, written⟩) (hphase : s.phase = .starting)
    (start : Start) : Tracked ⟨s.starts start, written⟩ := by
  obtain ⟨hchild, hrunning, hwritten, hsent⟩ := hs.starting hphase
  have hended : s.phase ≠ .ended := by rw [hphase]; nofun
  have hnot := (hs.quiet hchild).1
  have hnothing (sent : Bytes) : written <+: sent := by
    rw [show written = [] from hwritten]
    exact List.nil_prefix
  cases start with
  | noDescriptors => exact (hs.message hended _).finish hended (hnothing _) (.inr hnot) 1
  | noMemory => exact hs.finish hended (hnothing _) (.inr hnot) 1
  | noProcess => exact (hs.message hended _).finish hended (hnothing _) (.inr hnot) 1
  | forked =>
    have hpty : s.isPty = true := hs.isPty
    have hout : (s.starts .forked).source .out = ⟨[], true, true, true, 0⟩ := by
      simp [Session.starts]
    have herr : (s.starts .forked).source .err = s.source .err := by
      simp [Session.starts, hpty]
    exact { hs with
      starting := nofun
      quiet := nofun
      whole := fun _ => by
        show written = Watched.sent ⟨s, written⟩ ++ ((s.starts .forked).source .out).unread
        rw [hout, hsent]
        exact hwritten
      inOrder := hnothing _
      closed := fun hclosed => by
        rw [Watched.pty, hout] at hclosed
        cases hclosed
      noErr := by
        show ((s.starts .forked).source .err).isOpen = false
        rw [herr]
        exact hs.noErr
      code := fun hcode => absurd (show s.child.status = none by rw [hchild]; rfl) (hs.code hcode)
      done := fun hdone => absurd hrunning hdone
      draining := nofun
      settled := nofun
      ended := nofun
      live := nofun
      notYet := fun _ => hs.notYet hended
      last := nofun }

theorem Tracked.registers (hs : Tracked ⟨s, written⟩) (hphase : s.phase = .registering) :
    Tracked ⟨s.registers, written⟩ :=
  { hs with
    starting := nofun
    draining := nofun
    settled := nofun
    ended := nofun
    live := nofun
    notYet := fun _ => hs.notYet (by rw [hphase]; nofun)
    last := nofun }

theorem Tracked.waits (hs : Tracked ⟨s, written⟩) : Tracked ⟨s.waits, written⟩ := by
  unfold Session.waits
  split
  case h_1 status hexited =>
    have hchild : s.child.status ≠ none := by rw [hexited]; nofun
    have hdone : (if s.isPty = true then ChildDone.normalExitSeen else .killed) = .normalExitSeen :=
      if_pos hs.isPty
    rw [hdone]
    exact { hs with
      starting := fun hstart => nomatch hexited.symm.trans (hs.starting hstart).1
      quiet := nofun
      whole := nofun
      code := fun _ => nofun
      done := fun _ => ⟨rfl, .inl nofun⟩
      draining := fun todo hdraining => ⟨nofun, (hs.draining todo hdraining).2⟩
      ended := fun _ => .inl nofun }
  case h_2 => exact { hs with }

/-- The rest of the round -/
theorem Tracked.rest (hs : Tracked ⟨s, written⟩) {ready : Ready} {rest : List Ready}
    (hbatch : s.batch = ready :: rest) : Tracked ⟨{ s with batch := rest }, written⟩ :=
  { hs with
    batch := fun pollin hup pollout hmem =>
      hs.batch pollin hup pollout (hbatch ▸ List.mem_cons_of_mem ready hmem) }

/-- What is read is sent. -/
theorem Tracked.receive (hs : Tracked ⟨s, written⟩)
    (hphase : s.phase = .serving ∨ s.phase = .draining [.out]) (size : ℕ) :
    Tracked ⟨s.receive .out size, written⟩ := by
  have hended : s.phase ≠ .ended := by rcases hphase with hphase | hphase <;> rw [hphase] <;> nofun
  have hsplit : Watched.sent ⟨s.receive .out size, written⟩ ++
      ((s.receive .out size).source .out).unread =
        Watched.sent ⟨s, written⟩ ++ (s.source .out).unread := by
    show (s.sent ++ [Frame.data .out ((s.source .out).unread.take size)]).flatMap Frame.outBytes ++
      (s.source .out).unread.drop size = _
    rw [List.flatMap_append, List.flatMap_singleton, List.append_assoc, Frame.outBytes,
      List.take_append_drop]
  have hempty (h : (s.source .out).unread = []) :
      ((s.receive .out size).source .out).unread = [] := by
    show (s.source .out).unread.drop size = []
    rw [h, List.drop_nil]
  exact { hs with
    starting := fun hstart => by
      rcases hphase with hphase | hphase <;> exact nomatch hphase.symm.trans hstart
    quiet := fun hnone => (hs.quiet hnone).imp_right hempty
    whole := fun hstatus => (hs.whole hstatus).trans hsplit.symm
    inOrder := by
      show written <+: Watched.sent _ ++ ((s.receive .out size).source .out).unread
      rw [hsplit]
      exact hs.inOrder
    closed := fun hclosed => (hs.closed hclosed).imp_right hempty
    settled := fun hdone => by
      rcases hdone with hdone | hdone | hdone | hdone <;> rcases hphase with hphase | hphase <;>
        exact nomatch hphase.symm.trans hdone
    notYet := fun _ code hmem => by
      rcases List.mem_append.1 hmem with hmem | hmem
      · exact hs.notYet hended code hmem
      · cases List.mem_singleton.1 hmem
    last := fun hdone => absurd hdone hended }

/-- Nobody can write to the PTY any more, and nothing is left. -/
theorem Tracked.closeSource (hs : Tracked ⟨s, written⟩) (hphase : s.phase = .serving)
    (hempty : (s.source .out).unread = []) (hover : (s.source .out).isOver = true) :
    Tracked ⟨s.closeSource .out, written⟩ := by
  have hheld : (s.source .out).isHeld = false := by
    rw [Source.isOver, Bool.and_eq_true, Bool.not_eq_true', Bool.not_eq_true'] at hover
    exact hover.2
  exact { hs with
    closed := fun _ => ⟨hheld, hempty⟩
    starting := fun hstart => nomatch hphase.symm.trans hstart
    draining := fun todo hdraining => nomatch hphase.symm.trans hdraining
    done := fun hdone => by
      refine ⟨?_, .inr rfl⟩
      rw [Session.closeSource] at hdone ⊢
      dsimp only at hdone ⊢
      split_ifs at hdone ⊢
      · rfl
      · exact (hs.done hdone).1 }

theorem Tracked.reads (hs : Tracked ⟨s, written⟩) (hphase : s.phase = .serving) {size : ℕ}
    {t : Session} (h : s.reads size = some t) : Tracked ⟨t, written⟩ := by
  rw [Session.reads] at h
  split at h
  case h_1 stream pollin hup pollout rest hbatch =>
    cases stream with
    | err => exact absurd (hbatch ▸ List.mem_cons_self) (hs.batch pollin hup pollout)
    | out =>
      dsimp only at h
      split_ifs at h with hready hempty hover
      · cases h
        exact hs.rest hbatch
      · cases h
        rw [Bool.not_eq_true, Bool.or_eq_false_iff, Bool.not_eq_false'] at hover
        exact (hs.rest hbatch).closeSource hphase hempty hover.2
      · cases h
        exact hs.receive (.inl hphase) size
      · cases h
        exact hs.rest hbatch
  case h_2 => cases h

/-- The session goes on to `drain_fd`, or is through with it. -/
theorem Tracked.drain (hs : Tracked ⟨s, written⟩) (hended : s.phase ≠ .ended)
    (hdone : s.childDone ≠ .running) {todo : List Stream} (htodo : todo = [] ∨ todo = [.out])
    (hempty : todo = [] → (s.source .out).unread = []) :
    Tracked ⟨{ s with phase := .draining todo }, written⟩ :=
  { hs with
    starting := nofun
    draining := fun todo' hdraining => by
      cases hdraining
      exact ⟨hdone, htodo⟩
    settled := fun hphase => by
      have hnil : todo = [] := by
        rcases hphase with hphase | hphase | hphase | hphase <;> cases hphase
        rfl
      have hwritten := hs.inOrder
      rwa [Watched.pty, hempty hnil, List.append_nil] at hwritten
    ended := nofun
    live := nofun
    notYet := fun _ => hs.notYet hended
    last := nofun }

theorem Tracked.checks (hs : Tracked ⟨s, written⟩) (hphase : s.phase = .serving) :
    Tracked ⟨{ s with phase := s.nextPhase }, written⟩ := by
  have hended : s.phase ≠ .ended := by simp [hphase]
  rw [Session.nextPhase]
  split
  case h_1 => exact hs.move hended (by simp) (by simp)
  case h_2 hkilled => cases hkilled.symm.trans (hs.done (by simp [hkilled])).1
  case h_3 hseen =>
    have hdone : s.childDone ≠ .running := by simp [hseen]
    have hpty : s.isPty = true := hs.isPty
    by_cases hopen : (s.source .out).isOpen = true
    · have htodo : [Stream.out].filter (fun stream => s.isPty && (s.source stream).isOpen) =
          [.out] := by simp [hpty, hopen]
      rw [htodo]
      exact hs.drain hended hdone (.inr rfl) (by simp)
    · have htodo : [Stream.out].filter (fun stream => s.isPty && (s.source stream).isOpen) =
          [] := by simp [hopen]
      rw [htodo]
      exact hs.drain hended hdone (.inl rfl) fun _ => (hs.closed (Bool.not_eq_true _ ▸ hopen)).2

theorem Tracked.drains (hs : Tracked ⟨s, written⟩) {todo : List Stream}
    (hphase : s.phase = .draining todo) {size : ℕ} {t : Session}
    (h : s.drains size todo = some t) : Tracked ⟨t, written⟩ := by
  have hended : s.phase ≠ .ended := by rw [hphase]; nofun
  rcases (hs.draining todo hphase).2 with rfl | rfl
  · cases h
    exact hs.move hended (by simp) fun _ => hs.settled (.inl hphase)
  · rw [Session.drains] at h
    split_ifs at h with hempty
    · cases h
      exact hs.drain hended (hs.draining _ hphase).1 (.inl rfl) fun _ => hempty
    · cases h
      exact hs.receive (.inr hphase) size

/-- The child has been waited for. -/
theorem Tracked.reap (hs : Tracked ⟨s, written⟩) {status : Status}
    (hexited : s.child = .exited status) (exitCode : Option ℕ) :
    Tracked ⟨{ s with child := .reaped status, exitCode := exitCode }, written⟩ :=
  { hs with
    starting := fun hstart => nomatch hexited.symm.trans (hs.starting hstart).1
    quiet := nofun
    whole := nofun
    code := fun _ => nofun
    done := fun hdone => ⟨(hs.done hdone).1, .inl nofun⟩
    ended := fun _ => .inl nofun }

theorem Tracked.collects (hs : Tracked ⟨s, written⟩) {t : Session} (h : s.collects = some t) :
    Tracked ⟨t, written⟩ := by
  rw [Session.collects] at h
  split at h
  case h_1 status hphase hexited =>
    obtain ⟨-, ⟨⟩⟩ := Option.ite_none_right_eq_some.1 h
    exact hs.reap hexited _
  case h_2 status hphase hexited =>
    cases h
    have hended : s.phase ≠ .ended := by simp [hphase]
    have hsettled := hs.settled (.inr (.inl hphase))
    exact (hs.reap hexited s.exitCode).finish hended hsettled (.inl (by simp [Child.status])) 1
  case h_3 status hphase hexited => exact absurd hphase hs.live
  case h_4 status hphase hreaped => exact absurd hphase hs.live
  case h_5 => cases h

theorem noErr_of_canReport (hs : Tracked ⟨s, written⟩) {ready : List Ready}
    (h : s.canReport ready = true) (pollin hup pollout : Bool) :
    .source .err pollin hup pollout ∉ ready := by
  intro hmem
  have hentry := List.all_eq_true.1 (Bool.and_eq_true_iff.1 h).2 _ hmem
  have hclosed : (s.source .err).isOpen = false := hs.noErr
  simp [hclosed] at hentry

/-! ### A step -/

theorem tracked_step {w w' : Watched} {e : Event} (hs : Tracked w) (hkeeps : KeepsOutput w e)
    (hstep : watchedSystem.step w e = some w') : Tracked w' := by
  obtain ⟨s, written⟩ := w
  obtain ⟨t, h, rfl⟩ := Option.map_eq_some_iff.1 hstep
  cases e with
  | writes stream bytes =>
    obtain ⟨hheld, ⟨⟩⟩ := Option.ite_none_right_eq_some.1 h
    cases stream with
    | out => exact hs.writes hheld bytes hkeeps
    | err => exact { hs with }
  | inherits stream =>
    obtain ⟨hheld, ⟨⟩⟩ := Option.ite_none_right_eq_some.1 h
    exact hs.setSource rfl rfl fun hnot => by cases hheld.symm.trans hnot
  | closes stream =>
    obtain ⟨hothers, ⟨⟩⟩ := Option.ite_none_right_eq_some.1 h
    refine hs.setSource rfl rfl fun hnot => ?_
    rw [Source.isHeld, decide_eq_true hothers, Bool.or_true] at hnot
    cases hnot
  | childCloses stream =>
    obtain ⟨-, ⟨⟩⟩ := Option.ite_none_right_eq_some.1 h
    exact hs.setSource rfl rfl fun hnot => (Bool.or_eq_false_iff.1 hnot).2
  | stops =>
    obtain ⟨-, ⟨⟩⟩ := Option.ite_none_right_eq_some.1 h
    exact { hs with }
  | exits status =>
    obtain ⟨hrunning, ⟨⟩⟩ := Option.ite_none_right_eq_some.1 h
    exact hs.exits hrunning status
  | starts start =>
    obtain ⟨hphase, ⟨⟩⟩ := Option.ite_none_right_eq_some.1 h
    exact hs.starts hphase start
  | createsEpoll created =>
    obtain ⟨hphase, ⟨⟩⟩ := Option.ite_none_right_eq_some.1 h
    have hended : s.phase ≠ .ended := by rw [hphase]; simp
    cases created with
    | false => exact hs.move hended (by simp) fun _ => hs.outputOf ▸ hkeeps rfl
    | true => exact hs.move hended (by simp) (by simp)
  | blocks =>
    obtain ⟨hphase, ⟨⟩⟩ := Option.ite_none_right_eq_some.1 h
    have hmasked : Tracked ⟨{ s with phase := .masked }, written⟩ :=
      hs.move (by rw [hphase]; simp) (by simp) (by simp)
    exact { hmasked with }
  | createsSignalfd created =>
    obtain ⟨hphase, ⟨⟩⟩ := Option.ite_none_right_eq_some.1 h
    have hregistering : Tracked ⟨{ s with phase := .registering }, written⟩ :=
      hs.move (by rw [hphase]; simp) (by simp) (by simp)
    exact { hregistering with }
  | registers =>
    obtain ⟨hphase, ⟨⟩⟩ := Option.ite_none_right_eq_some.1 h
    exact hs.registers hphase
  | polls ready =>
    obtain ⟨hwaiting, ⟨⟩⟩ := Option.ite_none_right_eq_some.1 h
    obtain ⟨hphase, hready⟩ := Bool.and_eq_true_iff.1 hwaiting
    have hserving : Tracked ⟨{ s with phase := .serving }, written⟩ :=
      hs.move (by rw [of_decide_eq_true hphase]; simp) (by simp) (by simp)
    exact { hserving with batch := noErr_of_canReport hs hready }
  | fails =>
    obtain ⟨hphase, ⟨⟩⟩ := Option.ite_none_right_eq_some.1 h
    exact hs.move (by rw [hphase]; simp) (by simp) fun _ => hs.outputOf ▸ hkeeps
  | readsSignal =>
    simp only [Session.step] at h
    split at h
    case h_1 rest hphase hbatch =>
      split_ifs at h
      · cases h
        exact { hs with }
      · cases h
        exact hs.rest hbatch
    case h_2 => cases h
  | waits =>
    obtain ⟨-, ⟨⟩⟩ := Option.ite_none_right_eq_some.1 h
    exact hs.waits
  | reads size =>
    obtain ⟨hphase, h⟩ := Option.ite_none_right_eq_some.1 h
    exact hs.reads hphase h
  | hears =>
    simp only [Session.step] at h
    split at h
    case h_1 rest hphase hbatch =>
      obtain ⟨-, ⟨⟩⟩ := Option.ite_none_right_eq_some.1 h
      exact hs.rest hbatch
    case h_2 => cases h
  | clientGone => cases hkeeps
  | frameCut => cases hkeeps
  | checks =>
    obtain ⟨hround, ⟨⟩⟩ := Option.ite_none_right_eq_some.1 h
    exact hs.checks (of_decide_eq_true (Bool.and_eq_true_iff.1 hround).1)
  | drains size =>
    simp only [Session.step] at h
    split at h
    case h_1 todo hphase => exact hs.drains hphase h
    case h_2 => cases h
  | collects => exact hs.collects h
  | ends =>
    obtain ⟨hphase, h⟩ := Option.ite_none_right_eq_some.1 h
    obtain ⟨code, hcode, rfl⟩ := Option.map_eq_some_iff.1 h
    exact hs.finish (by rw [hphase]; simp) (hs.settled (.inr (.inr (.inl hphase))))
      (.inl (hs.code (by rw [hcode]; simp))) code

end Steps

theorem tracked_init : Tracked .init where
  isPty := rfl
  starting _ := ⟨rfl, rfl, rfl, rfl⟩
  quiet _ := ⟨rfl, rfl⟩
  whole _ := rfl
  inOrder := List.nil_prefix
  closed _ := ⟨rfl, rfl⟩
  noErr := rfl
  batch _ _ _ hmem := by cases hmem
  code := nofun
  done hdone := absurd rfl hdone
  draining := nofun
  settled _ := List.nil_prefix
  ended := nofun
  live := nofun
  notYet _ _ hmem := by cases hmem
  last := nofun

/-- **All that was written before the exit is sent before the last frame,** as long as the client is
there and `epoll` does not fail with something left behind. -/
theorem sent_of_guarded {es : List Event} {w : Watched}
    (hkeeps : watchedSystem.Guarded KeepsOutput .init es)
    (hrun : watchedSystem.run .init es = some w) : Sent w :=
  (watchedSystem.invariant_of_guarded (fun _ _ _ => tracked_step) tracked_init hkeeps hrun).sentAll

/-! ## Both relays -/

/-- **A console is relayed completely exactly if nothing is left to be read when a hang-up is
served,** and a PTY session sends all that was written before the exit. -/
theorem outputs_relayed (ps : List TerminalProxy.Event) (s : TerminalProxy.Proxy)
    (es : List Event) (w : Watched) :
    (TerminalProxy.system.run TerminalProxy.init ps = some s →
      (TerminalProxy.Relayed s ↔
        TerminalProxy.system.Guarded TerminalProxy.Keeps TerminalProxy.init ps)) ∧
    (watchedSystem.Guarded KeepsOutput .init es → watchedSystem.run .init es = some w → Sent w) :=
  ⟨TerminalProxy.relayed_iff, sent_of_guarded⟩

/-- The container says goodbye and closes the slave before the proxy is scheduled. -/
def lastBurst : List TerminalProxy.Event :=
  [.writes [98, 121, 101], .closes, .polls [.master true true], .servesMaster 3]

/-- What it said is lost. -/
theorem not_relayed_lastBurst :
    ¬ ((∀ es s, TerminalProxy.system.run TerminalProxy.init es = some s →
        TerminalProxy.Relayed s) ∧
      ∀ es w, (∀ e ∈ es, e.isLive = true) → watchedSystem.run .init es = some w → Sent w) := by
  rintro ⟨h, -⟩
  have hlost : (TerminalProxy.system.run TerminalProxy.init lastBurst).map (fun s =>
      (s.phase, s.written, s.out)) = some (.slaveClosed, [98, 121, 101], []) := by decide +kernel
  obtain ⟨s, hs, heq⟩ := Option.map_eq_some_iff.1 hlost
  obtain ⟨hphase, heq⟩ := Prod.mk.inj heq
  obtain ⟨hwritten, hout⟩ := Prod.mk.inj heq
  have hsame := h lastBurst s hs hphase
  rw [hout, hwritten] at hsame
  cases hsame

end Droidspaces.ChildExit
