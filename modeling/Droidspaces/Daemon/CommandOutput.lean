import Droidspaces.Daemon.ClientRelay

/-!
# A command and its terminal

Who runs a command through the daemon sees what the command wrote, and gets its exit code
(`terminal_told`): the session tells all that there was, and the client all that it was told.
-/

namespace Droidspaces.ClientRelay

open ChildExit Transition

/-- Neither the client nor the session is disturbed. -/
def KeepsAll (s : Line) : LineEvent → Prop
  | .daemon e => KeepsOutput s.watched e ∧ KeepsExit s.session e
  | e => Keeps s e

structure Whole (s : Line) : Prop where
  line : Inv s
  exit : ChildExit.Inv s.session
  tracked : Tracked s.watched

theorem outBytes_eq {frame : Frame} (h : frame.isExit = false) :
    frame.outBytes = bytesOn .out frame := by
  cases frame with
  | data stream bytes => cases stream <;> rfl
  | message => rfl
  | exit => cases h

theorem whole_step (s : Line) (e : LineEvent) (t : Line) (hs : Whole s) (hkeeps : KeepsAll s e)
    (h : s.step e = some t) : Whole t := by
  have hline : Keeps s e := by
    cases e with
    | daemon => trivial
    | _ => exact hkeeps
  refine ⟨inv_step s e t hs.line hline h, ?_, ?_⟩
  · rcases watched_of_step h with hsame | ⟨d, rfl, hd⟩
    · rw [Line.session, hsame]
      exact hs.exit
    · have hlive : d.isLive = true := by
        cases d with
        | clientGone | frameCut => exact absurd hkeeps.1 id
        | _ => rfl
      obtain ⟨r, hr, hsame⟩ := Option.map_eq_some_iff.1 hd
      rw [Line.session, ← hsame]
      exact ChildExit.inv_step s.session d r hs.exit ⟨hlive, hkeeps.2⟩ hr
  · rcases watched_of_step h with hsame | ⟨d, rfl, hd⟩
    · exact hsame ▸ hs.tracked
    · exact tracked_step hs.tracked hkeeps.1 hd

/-- **Who runs a command on a terminal sees all that it wrote before it exited, and gets its exit
code.** -/
theorem terminal_told {isRaw : Bool} {es : List LineEvent} {s : Line}
    (hkeeps : lineSystem.Guarded KeepsAll (.init true isRaw) es)
    (hrun : lineSystem.run (.init true isRaw) es = some s) (hended : s.client.phase = .ended) :
    s.watched.written <+: s.client.shown .out ∧ (s.session.child = .none ∨
      ∃ status, s.session.child = .reaped status ∧ s.client.exitCode = status.code) := by
  have hs : Whole s := lineSystem.invariant_of_guarded whole_step
    ⟨inv_init true isRaw, ChildExit.inv_init true, tracked_init⟩ hkeeps hrun
  cases hs.line.place with
  | header handled rest got hsent hphase =>
    rcases hphase with hphase | ⟨-, hphase | hphase | hphase⟩ <;> cases hphase.symm.trans hended
  | payload handled rest front got hsent hphase => cases hphase.symm.trans hended
  | code handled got hsent hphase => cases hphase.symm.trans hended
  | ended handled hsent hphase hshown =>
    have hover := (exit_last hs.line.framed hsent).2
    obtain ⟨frames, code, hlast, hframes, hchild⟩ := hs.exit.once hover
    obtain ⟨rfl, hcode⟩ := List.append_inj' (hsent.symm.trans hlast) rfl
    obtain rfl : s.client.exitCode = code := by
      simpa using hcode
    have hshow : s.client.shown .out = outputOf s.session.sent := by
      have hsame : handled.map (bytesOn .out) = handled.map Frame.outBytes :=
        List.map_congr_left fun frame hframe =>
          (outBytes_eq (by simpa using isExit_eq_false hframes frame hframe)).symm
      rw [hsent, outputOf_concat hframes, hshown, shownOf, List.flatMap_def, hsame,
        ← List.flatMap_def, List.flatMap_append]
      exact (List.append_nil _).symm
    refine ⟨hshow ▸ hs.tracked.sentAll hover, hchild.imp id ?_⟩
    rintro ⟨status, hreaped, hstatus⟩
    exact ⟨status, hreaped, hstatus.symm⟩

instance : ∀ (w : Watched) (e : Event), Decidable (KeepsOutput w e)
  | w, .createsEpoll created => inferInstanceAs (Decidable
    (created = false → w.written <+: outputOf w.session.sent))
  | w, .fails => inferInstanceAs (Decidable (w.written <+: outputOf w.session.sent))
  | w, .writes .out bytes => inferInstanceAs (Decidable (w.session.child.status = none →
    w.session.phase = .abandoned ∨ w.session.phase = .leaving → bytes = []))
  | _, .clientGone | _, .frameCut => isFalse id
  | _, .writes .err _ | _, .inherits _ | _, .closes _ | _, .childCloses _ | _, .stops | _, .exits _
  | _, .starts _ | _, .blocks | _, .createsSignalfd _ | _, .registers | _, .polls _
  | _, .readsSignal | _, .waits | _, .reads _ | _, .hears | _, .checks | _, .drains _
  | _, .collects | _, .ends => isTrue trivial

instance (s : Line) : ∀ e : LineEvent, Decidable (KeepsAll s e)
  | .daemon e => inferInstanceAs (Decidable (KeepsOutput s.watched e ∧ KeepsExit s.session e))
  | .fails => isFalse id
  | .types sent => inferInstanceAs (Decidable (sent = true))
  | .arrives _ | .closes | .polls _ | .reads _ | .cut | .probes | .serves => isTrue trivial

theorem terminal_told_exitsWhileRead :
    ∃ s, lineSystem.run (.init true true) exitsWhileRead = some s ∧
      s.watched.written <+: s.client.shown .out ∧ (s.session.child = .none ∨
        ∃ status, s.session.child = .reaped status ∧ s.client.exitCode = status.code) := by
  have hends : (lineSystem.run (.init true true) exitsWhileRead).any
      (fun s => s.client.phase = .ended) = true := by decide +kernel
  obtain ⟨s, hs, hended⟩ := (Option.any_eq_true _ _).1 hends
  exact ⟨s, hs, terminal_told (by decide +kernel) hs (of_decide_eq_true hended)⟩

end Droidspaces.ClientRelay
