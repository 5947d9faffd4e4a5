import Droidspaces.Binary.Fields
import Droidspaces.Daemon.OutputRelay

/-!
# The frames of a session

Every frame has its type and the length of its payload in front.  A session sends short frames, and
the one that says how the command has exited is the last (`framed_step`).
-/

namespace Droidspaces.ClientRelay

open Binary (bigEndian ofBigEndian)
open ChildExit Transition

/-! ## Frames on the socket -/

def msgOut : UInt8 := 1

def msgErr : UInt8 := 2

def msgExit : UInt8 := 255

/-- The messages are ASCII. -/
def textBytes (text : String) : Bytes := text.toList.map fun c => UInt8.ofNat c.toNat

def type : Frame → UInt8
  | .data .out _ => msgOut
  | .data .err _ | .message _ => msgErr
  | .exit _ => msgExit

def payload : Frame → Bytes
  | .data _ bytes => bytes
  | .message text => textBytes text
  | .exit code => bigEndian 4 code

/-- `send_frame` -/
def encode (frame : Frame) : Bytes :=
  type frame :: bigEndian 4 (payload frame).length ++ payload frame

/-- Where a payload goes. -/
def destOf (type : UInt8) : Stream := if type = msgErr then .err else .out

/-- What a frame has for a stream. -/
def bytesOn (stream : Stream) (frame : Frame) : Bytes :=
  if frame.isExit = false ∧ destOf (type frame) = stream then payload frame else []

def shownOf (frames : List Frame) (stream : Stream) : Bytes := frames.flatMap (bytesOn stream)

/-- What fits into a frame, with a code that `send_exit` can send. -/
def IsShort (frame : Frame) : Prop :=
  (payload frame).length < 2 ^ 32 ∧ ∀ code, frame = .exit code → code < 2 ^ 32

/-! ## What a session sends -/

/-- The frames are short, and a `MSG_EXIT` is the last of them. -/
structure Framed (s : Session) : Prop where
  short : ∀ frame ∈ s.sent, IsShort frame
  notYet : s.phase ≠ .ended → ∀ frame ∈ s.sent, frame.isExit = false
  last : s.phase = .ended → ∃ frames code, s.sent = frames ++ [.exit code] ∧
    ∀ frame ∈ frames, frame.isExit = false
  code : ∀ code, s.exitCode = some code → code < 256

section Session

variable {s t : Session} {e : Event}

theorem isShort_data (stream : Stream) {bytes : Bytes} (h : bytes.length ≤ ioBuf) :
    IsShort (.data stream bytes) :=
  ⟨Nat.lt_of_le_of_lt h (by decide), nofun⟩

theorem isShort_exit {code : ℕ} (h : code < 256) : IsShort (.exit code) := by
  refine ⟨?_, fun code' hsame => ?_⟩
  · show (bigEndian 4 code).length < _
    rw [Binary.length_bigEndian]
    decide
  · obtain rfl : code = code' := Frame.exit.inj hsame
    exact Nat.lt_trans h (by decide)

theorem code_lt (status : Status) : status.code < 256 := by
  cases status with
  | exited code => exact code.isLt
  | signaled => exact (by decide : 1 < 256)

/-- What is sent is short. -/
theorem receive_short {stream : Stream} {size : ℕ} (h : s.canReceive stream size = true) :
    ∃ new, (s.receive stream size).sent = s.sent ++ new ∧ ∀ frame ∈ new, IsShort frame := by
  refine ⟨[.data stream ((s.source stream).unread.take size)], rfl, fun frame hframe => ?_⟩
  rw [List.mem_singleton.1 hframe]
  simp only [Session.canReceive, Bool.and_eq_true, decide_eq_true_eq] at h
  exact isShort_data stream ((List.length_take_le _ _).trans h.1.2)

theorem finish_short {code : ℕ} (h : code < 256) :
    ∃ new, (s.finish code).sent = s.sent ++ new ∧ ∀ frame ∈ new, IsShort frame := by
  refine ⟨[.exit code], rfl, fun frame hframe => ?_⟩
  rw [List.mem_singleton.1 hframe]
  exact isShort_exit h

theorem getD_code_lt (hs : Framed s) : s.exitCode.getD 0 < 256 := by
  cases hcode : s.exitCode with
  | none => exact (by decide : 0 < 256)
  | some code => exact hs.code code hcode

theorem starts_short (start : Start) :
    ∃ new, (s.starts start).sent = s.sent ++ new ∧ ∀ frame ∈ new, IsShort frame := by
  have hmessage (text : String) (h : (textBytes text).length < 2 ^ 32) :
      ∃ new, ((s.send (.message text)).finish 1).sent = s.sent ++ new ∧
        ∀ frame ∈ new, IsShort frame := by
    refine ⟨[.message text, .exit 1], List.append_assoc _ _ _, fun frame hframe => ?_⟩
    rw [List.mem_cons, List.mem_singleton] at hframe
    rcases hframe with rfl | rfl
    · exact ⟨h, nofun⟩
    · exact isShort_exit (by decide)
  cases start with
  | noDescriptors =>
    rw [Session.starts]
    split
    · exact hmessage _ (by decide)
    · exact hmessage _ (by decide)
  | noMemory => exact finish_short (by decide)
  | noProcess => exact hmessage _ (by decide)
  | forked =>
    exact ⟨[], (List.append_nil _).symm, fun _ hnil => absurd hnil List.not_mem_nil⟩

/-- A step sends some more, all of it short. -/
theorem sent_of_step (hs : Framed s) (h : s.step e = some t) :
    ∃ new, t.sent = s.sent ++ new ∧ ∀ frame ∈ new, IsShort frame := by
  have hsame {u : Session} (hu : u.sent = s.sent) :
      ∃ new, u.sent = s.sent ++ new ∧ ∀ frame ∈ new, IsShort frame :=
    ⟨[], by rw [hu, List.append_nil], fun _ hnil => absurd hnil List.not_mem_nil⟩
  cases e with
  | writes | inherits | closes | childCloses | stops | exits | createsEpoll | blocks
  | createsSignalfd | registers | polls | fails | clientGone | checks =>
    obtain ⟨-, ⟨⟩⟩ := Option.ite_none_right_eq_some.1 h
    exact hsame rfl
  | starts start =>
    obtain ⟨-, ⟨⟩⟩ := Option.ite_none_right_eq_some.1 h
    exact starts_short start
  | readsSignal =>
    simp only [Session.step] at h
    split at h
    · split_ifs at h
      all_goals
        cases h
        exact hsame rfl
    · cases h
  | waits =>
    obtain ⟨-, ⟨⟩⟩ := Option.ite_none_right_eq_some.1 h
    refine hsame ?_
    rw [Session.waits]
    split <;> rfl
  | reads size =>
    obtain ⟨-, h⟩ := Option.ite_none_right_eq_some.1 h
    rw [Session.reads] at h
    split at h
    · dsimp only at h
      split_ifs at h with hready hnone hclosed hreceive
      · cases h
        exact hsame rfl
      · cases h
        exact hsame rfl
      · cases h
        exact receive_short hreceive
      · cases h
        exact hsame rfl
    · cases h
  | hears =>
    simp only [Session.step] at h
    split at h
    · obtain ⟨-, ⟨⟩⟩ := Option.ite_none_right_eq_some.1 h
      exact hsame rfl
    · cases h
  | frameCut =>
    simp only [Session.step] at h
    split at h
    · obtain ⟨-, ⟨⟩⟩ := Option.ite_none_right_eq_some.1 h
      exact finish_short (getD_code_lt hs)
    · cases h
  | drains size =>
    simp only [Session.step] at h
    split at h
    · next todo hphase =>
      cases todo with
      | nil =>
        cases h
        exact hsame rfl
      | cons stream rest =>
        rw [Session.drains] at h
        split_ifs at h with hnone hreceive
        · cases h
          exact hsame rfl
        · cases h
          exact receive_short hreceive
    · cases h
  | collects =>
    rw [Session.step, Session.collects] at h
    split at h
    · obtain ⟨-, ⟨⟩⟩ := Option.ite_none_right_eq_some.1 h
      exact hsame rfl
    · cases h
      exact finish_short (by decide)
    · cases h
      exact finish_short (getD_code_lt hs)
    · cases h
      exact finish_short (getD_code_lt hs)
    · cases h
  | ends =>
    obtain ⟨-, h⟩ := Option.ite_none_right_eq_some.1 h
    obtain ⟨code, hcode, rfl⟩ := Option.map_eq_some_iff.1 h
    exact finish_short (hs.code code hcode)

theorem waits_eq (s : Session) :
    s.waits.phase = s.phase ∧ s.waits.sent = s.sent ∧
      (s.waits.exitCode = s.exitCode ∨ ∃ status : Status, s.waits.exitCode = some status.code) := by
  rw [Session.waits]
  split
  · next status _ => exact ⟨rfl, rfl, .inr ⟨status, rfl⟩⟩
  · exact ⟨rfl, rfl, .inl rfl⟩

/-- What has ended sends nothing more. -/
theorem sent_of_ended (h : s.step e = some t) (hended : s.phase = .ended) :
    t.phase = .ended ∧ t.sent = s.sent := by
  have hother {phase : ChildExit.Phase} (hphase : s.phase = phase) (hne : phase ≠ .ended) :
      t.phase = .ended ∧ t.sent = s.sent := absurd (hphase.symm.trans hended) hne
  cases Session.stepped_of_step h with
  | source | stops | exits => exact ⟨hended, rfl⟩
  | waits => exact ⟨(waits_eq s).1.trans hended, (waits_eq s).2.1⟩
  | receives e hphase =>
    rcases hphase with hphase | ⟨todo, hphase⟩
    · exact hother hphase nofun
    · exact hother hphase nofun
  | starts hphase | createsEpoll hphase | blocks hphase | createsSignalfd hphase | registers hphase
  | polls hphase | fails hphase | takesSignal hphase | serves _ hphase | closesSource hphase
  | clientGone hphase | frameCut hphase | checks hphase | drains hphase | drained hphase
  | collects hphase | collectsAbandoned hphase | collectsKilled hphase | ends hphase =>
    exact hother hphase nofun

/-- Nothing is sent, and what has not ended goes on. -/
theorem Framed.keep (hs : Framed s) (hphase : t.phase = s.phase) (hsent : t.sent = s.sent)
    (hcode : t.exitCode = s.exitCode ∨ ∃ status : Status, t.exitCode = some status.code) :
    Framed t where
  short := hsent ▸ hs.short
  notYet h := hsent ▸ hs.notYet (hphase ▸ h)
  last h := hsent ▸ hs.last (hphase ▸ h)
  code code h := by
    rcases hcode with hcode | ⟨status, hcode⟩
    · exact hs.code code (hcode ▸ h)
    · obtain rfl : status.code = code := Option.some.inj (hcode.symm.trans h)
      exact code_lt status

theorem Framed.move (hs : Framed s) (hphase : s.phase ≠ .ended) (hsent : t.sent = s.sent)
    (hended : t.phase ≠ .ended)
    (hcode : t.exitCode = s.exitCode ∨ ∃ status : Status, t.exitCode = some status.code) :
    Framed t :=
  { (hs.keep (t := { t with phase := s.phase }) rfl hsent hcode) with
    notYet := fun _ => hsent ▸ hs.notYet hphase
    last := fun h => absurd h hended }

theorem Framed.finish (hs : Framed s) (hphase : s.phase ≠ .ended) {code : ℕ} (hcode : code < 256) :
    Framed (s.finish code) where
  short frame h := by
    rcases List.mem_append.1 h with h | h
    · exact hs.short frame h
    · rw [List.mem_singleton.1 h]
      exact isShort_exit hcode
  notYet h := absurd rfl h
  last _ := ⟨s.sent, code, rfl, hs.notYet hphase⟩
  code := hs.code

theorem Framed.send (hs : Framed s) (hphase : s.phase ≠ .ended) {frame : Frame}
    (hshort : IsShort frame) (hexit : frame.isExit = false) (ht : t.phase = s.phase)
    (hsent : t.sent = s.sent ++ [frame]) (hcode : t.exitCode = s.exitCode) : Framed t where
  short f h := by
    rw [hsent] at h
    rcases List.mem_append.1 h with h | h
    · exact hs.short f h
    · rw [List.mem_singleton.1 h]
      exact hshort
  notYet _ f h := by
    rw [hsent] at h
    rcases List.mem_append.1 h with h | h
    · exact hs.notYet hphase f h
    · rw [List.mem_singleton.1 h]
      exact hexit
  last h := absurd (ht.symm.trans h) hphase
  code := hcode ▸ hs.code

theorem Framed.starts (hs : Framed s) (hphase : s.phase = .starting) (start : Start) :
    Framed (s.starts start) := by
  have hphase : s.phase ≠ .ended := by rw [hphase]; simp
  have hmessage (text : String) (h : (textBytes text).length < 2 ^ 32) :
      Framed ((s.send (.message text)).finish 1) := by
    have hshort : IsShort (.message text) := ⟨h, by simp⟩
    have hsent : Framed (s.send (.message text)) := hs.send hphase hshort rfl rfl rfl rfl
    exact hsent.finish hphase (by decide)
  cases start with
  | noDescriptors =>
    rw [Session.starts]
    split
    · exact hmessage _ (by decide)
    · exact hmessage _ (by decide)
  | noMemory => exact hs.finish hphase (by decide)
  | noProcess => exact hmessage _ (by decide)
  | forked => exact hs.move hphase rfl (show ChildExit.Phase.forked ≠ .ended by simp) (.inl rfl)

theorem framed_step (hs : Framed s) (h : s.step e = some t) : Framed t := by
  obtain ⟨new, hsent, hshort⟩ := sent_of_step hs h
  cases Session.stepped_of_step h with
  | source | stops | exits => exact hs.keep rfl rfl (.inl rfl)
  | waits => exact hs.keep (waits_eq s).1 (waits_eq s).2.1 (waits_eq s).2.2
  | starts hphase start => exact hs.starts hphase start
  | takesSignal | serves | closesSource => exact hs.keep rfl rfl (.inl rfl)
  | createsEpoll hphase created =>
    refine hs.move (by rw [hphase]; simp) rfl ?_ (.inl rfl)
    cases created <;> simp
  | blocks hphase | createsSignalfd hphase | registers hphase | polls hphase | fails hphase
  | clientGone hphase | drains hphase | drained hphase =>
    exact hs.move (by rw [hphase]; simp) rfl (fun h => by cases h) (.inl rfl)
  | checks hphase =>
    refine hs.move (by rw [hphase]; simp) rfl ?_ (.inl rfl)
    show s.nextPhase ≠ .ended
    rw [Session.nextPhase]
    split <;> simp
  | receives e hphase stream size =>
    have hended : s.phase ≠ .ended := by
      rcases hphase with hphase | ⟨todo, hphase⟩ <;> rw [hphase] <;> simp
    have hnew : [Frame.data stream ((s.source stream).unread.take size)] = new :=
      List.append_cancel_left hsent
    exact hs.send hended (hshort _ (hnew ▸ List.mem_singleton_self _)) rfl rfl rfl rfl
  | frameCut hphase => exact hs.finish (by rw [hphase]; simp) (getD_code_lt hs)
  | collects hphase => exact hs.keep rfl rfl (.inr ⟨_, rfl⟩)
  | collectsAbandoned hphase =>
    refine Framed.finish ?_ (by rw [hphase]; simp) (by decide)
    exact hs.keep rfl rfl (.inl rfl)
  | collectsKilled hphase =>
    refine Framed.finish ?_ (by rw [hphase]; simp) (getD_code_lt hs)
    exact hs.keep rfl rfl (.inl rfl)
  | ends hphase hcode => exact hs.finish (by rw [hphase]; simp) (hs.code _ hcode)

theorem framed_init (isPty : Bool) : Framed (.init isPty) where
  short _ h := absurd h List.not_mem_nil
  notYet _ _ h := absurd h List.not_mem_nil
  last := nofun
  code := nofun

end Session

end Droidspaces.ClientRelay
