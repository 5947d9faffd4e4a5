import Droidspaces.Transition.System
import Mathlib.Data.Nat.Notation
import Mathlib.Tactic.SplitIfs

/-!
# The console in the foreground

`ds_terminal_proxy` copies what the container writes to its PTY to the terminal.  When the slave has
been closed, `epoll` reports the hang-up together with what is still to be read.

The proxy looks at the hang-up first.  So the output is complete exactly if nothing was left to be
read whenever a hang-up was served (`relayed_iff`).
-/

namespace Droidspaces.TerminalProxy

open Transition

abbrev Bytes := List UInt8

/-! ## The code -/

/-- The size of `buf` -/
def bufSize : ℕ := 8192

/-- An entry of `events` -/
inductive Ready where
  | stdin
  | master (pollin hup : Bool)
  deriving DecidableEq

inductive Phase where
  /-- At `epoll_wait` -/
  | waiting
  | serving (batch : List Ready)
  /-- The loop has been left because the slave was closed. -/
  | slaveClosed
  /-- The loop has been left for something else. -/
  | left
  deriving DecidableEq

structure Proxy where
  phase : Phase
  /-- How many have the slave open -/
  holders : ℕ
  /-- What the master has for a reader -/
  unread : Bytes
  /-- All that was written to the slave -/
  written : Bytes
  /-- All that was written to the terminal -/
  out : Bytes

inductive Event where
  | writes (bytes : Bytes)
  | inherits
  | closes
  /-- `epoll_wait` returns, with nothing when a signal interrupts it. -/
  | polls (ready : List Ready)
  /-- `epoll_wait` fails. -/
  | fails
  /-- What is typed is read and passed on, or it cannot be. -/
  | servesStdin (passed : Bool)
  /-- One `read` of the master, if there is one -/
  | servesMaster (size : ℕ)
  deriving DecidableEq

namespace Proxy

variable (s : Proxy)

/-- Each descriptor is reported once.  The master has hung up exactly if the slave is closed, and
then what is left to be read is reported with it. -/
def canReport (ready : List Ready) : Bool :=
  decide ready.Nodup && ready.all fun
    | .stdin => true
    | .master pollin hup =>
      hup == decide (s.holders = 0) && (pollin || hup) && (!pollin || s.unread ≠ []) &&
        (!hup || pollin || s.unread = [])

/-- The rest of the round -/
def nextPhase : List Ready → Phase
  | [] => .waiting
  | batch => .serving batch

def servesMaster (size : ℕ) : Option Proxy :=
  match s.phase with
  | .serving (.master _ hup :: rest) =>
    if hup then some { s with phase := .slaveClosed }
    else if s.unread = [] then
      -- the read waits as long as somebody may write
      if s.holders = 0 then some { s with phase := .slaveClosed } else none
    else if 0 < size ∧ size ≤ bufSize ∧ size ≤ s.unread.length then
      some { s with
        phase := nextPhase rest
        unread := s.unread.drop size
        out := s.out ++ s.unread.take size }
    else none
  | _ => none

/-- `ds_terminal_proxy`, and what goes on beside it -/
def step : Event → Option Proxy
  | .writes bytes =>
    if 0 < s.holders then
      some { s with unread := s.unread ++ bytes, written := s.written ++ bytes }
    else none
  | .inherits => if 0 < s.holders then some { s with holders := s.holders + 1 } else none
  | .closes => if 0 < s.holders then some { s with holders := s.holders - 1 } else none
  | .polls ready =>
    if s.phase = .waiting ∧ s.canReport ready then some { s with phase := nextPhase ready }
    else none
  | .fails => if s.phase = .waiting then some { s with phase := .left } else none
  | .servesStdin passed =>
    match s.phase with
    | .serving (.stdin :: rest) => some { s with phase := if passed then nextPhase rest else .left }
    | _ => none
  | .servesMaster size => s.servesMaster size

end Proxy

def system : System Proxy Event where
  step := Proxy.step

def init : Proxy where
  phase := .waiting
  holders := 1
  unread := []
  written := []
  out := []

/-! ## What should hold -/

/-- When the slave was closed, all that was written has been passed on. -/
def Relayed (s : Proxy) : Prop := s.phase = .slaveClosed → s.out = s.written

/-- There is nothing left to be read when a hang-up is served. -/
def Keeps (s : Proxy) : Event → Prop
  | .servesMaster _ => ∀ pollin rest, s.phase = .serving (.master pollin true :: rest) →
    s.unread = []
  | _ => True

/-! ## What holds in every state -/

/-- What is left of `events` -/
def Proxy.batch (s : Proxy) : List Ready :=
  match s.phase with
  | .serving batch => batch
  | _ => []

structure Inv (s : Proxy) : Prop where
  whole : s.written = s.out ++ s.unread
  closed : s.phase = .slaveClosed → s.holders = 0
  /-- A slave that was closed stays closed. -/
  hup : ∀ pollin, .master pollin true ∈ s.batch → s.holders = 0

section Steps

variable {s t : Proxy}

theorem batch_nextPhase (s : Proxy) (batch : List Ready) :
    Proxy.batch { s with phase := Proxy.nextPhase batch } = batch := by
  cases batch <;> rfl

theorem nextPhase_ne (batch : List Ready) : Proxy.nextPhase batch ≠ .slaveClosed := by
  cases batch <;> nofun

/-- The loop goes on. -/
theorem relayed_of_ne (h : s.phase ≠ .slaveClosed) : Relayed s := fun hclosed => absurd hclosed h

/-- While somebody may write, the slave was not closed. -/
theorem Inv.ne_of_holders (hs : Inv s) (h : 0 < s.holders) : s.phase ≠ .slaveClosed :=
  fun hclosed => Nat.ne_of_gt h (hs.closed hclosed)

theorem Inv.writes (hs : Inv s) (h : 0 < s.holders) (bytes : Bytes) :
    Inv { s with unread := s.unread ++ bytes, written := s.written ++ bytes } where
  whole := by rw [hs.whole, List.append_assoc]
  closed hclosed := absurd hclosed (hs.ne_of_holders h)
  hup := hs.hup

theorem Inv.setHolders (hs : Inv s) (h : 0 < s.holders) (n : ℕ) : Inv { s with holders := n } where
  whole := hs.whole
  closed hclosed := absurd hclosed (hs.ne_of_holders h)
  hup pollin hmem := absurd (hs.hup pollin hmem) (Nat.ne_of_gt h)

theorem Inv.leaves (hs : Inv s) : Inv { s with phase := .left } where
  whole := hs.whole
  closed := nofun
  hup _ hmem := by cases hmem

/-- The round goes on. -/
theorem Inv.rest (hs : Inv s) {batch : List Ready}
    (hbatch : ∀ pollin, .master pollin true ∈ batch → s.holders = 0) :
    Inv { s with phase := Proxy.nextPhase batch } where
  whole := hs.whole
  closed hclosed := absurd hclosed (nextPhase_ne batch)
  hup pollin hmem := hbatch pollin (batch_nextPhase s batch ▸ hmem)

theorem holders_of_canReport {ready : List Ready} (h : s.canReport ready = true) {pollin : Bool}
    (hmem : .master pollin true ∈ ready) : s.holders = 0 := by
  have hentry := List.all_eq_true.1 (Bool.and_eq_true_iff.1 h).2 _ hmem
  simp only [Bool.and_eq_true, beq_iff_eq] at hentry
  exact of_decide_eq_true hentry.1.1.1.symm

/-- The slave is closed, and the loop is left. -/
theorem Inv.slaveClosed (hs : Inv s) (h : s.holders = 0) :
    Inv { s with phase := .slaveClosed } where
  whole := hs.whole
  closed _ := h
  hup _ hmem := by cases hmem

/-- The output is complete if there is nothing left to be read. -/
theorem Inv.relayed_slaveClosed (hs : Inv s) :
    Relayed { s with phase := .slaveClosed } ↔ s.unread = [] := by
  have hclosed : Relayed { s with phase := .slaveClosed } ↔ s.out = s.written :=
    ⟨fun h => h rfl, fun h _ => h⟩
  rw [hclosed, hs.whole, List.self_eq_append_right]

theorem Inv.servesMaster (hs : Inv s) {size : ℕ} (h : s.servesMaster size = some t) :
    Inv t ∧ (Relayed t ↔ Relayed s ∧ Keeps s (.servesMaster size)) := by
  rw [Proxy.servesMaster] at h
  split at h
  case h_1 pollin hup rest hphase =>
    have hopen : Relayed s := relayed_of_ne (by rw [hphase]; nofun)
    have hbatch : s.batch = .master pollin hup :: rest := by rw [Proxy.batch, hphase]
    split_ifs at h with hhup hempty hclosed hsize
    · cases h
      subst hhup
      have hkeeps : Keeps s (.servesMaster size) ↔ s.unread = [] :=
        ⟨fun h => h pollin rest hphase, fun h _ _ _ => h⟩
      refine ⟨hs.slaveClosed (hs.hup pollin (hbatch ▸ List.mem_cons_self)), ?_⟩
      rw [hs.relayed_slaveClosed, hkeeps, and_iff_right hopen]
    · cases h
      refine ⟨hs.slaveClosed hclosed, ?_⟩
      exact iff_of_true (hs.relayed_slaveClosed.2 hempty) ⟨hopen, fun _ _ _ => hempty⟩
    · cases h
      have hkeeps : Keeps s (.servesMaster size) := by
        intro pollin' rest' hphase'
        rw [hphase] at hphase'
        cases hphase'
        exact absurd rfl hhup
      have hrest : Inv { s with phase := Proxy.nextPhase rest } := hs.rest fun pollin' hmem =>
        hs.hup pollin' (hbatch ▸ List.mem_cons_of_mem _ hmem)
      refine ⟨⟨?_, hrest.closed, hrest.hup⟩, iff_of_true (relayed_of_ne (nextPhase_ne rest))
        ⟨hopen, hkeeps⟩⟩
      show s.written = s.out ++ s.unread.take size ++ s.unread.drop size
      rw [List.append_assoc, List.take_append_drop, hs.whole]
  case h_2 => cases h

theorem inv_step {e : Event} (hs : Inv s) (h : s.step e = some t) :
    Inv t ∧ (Relayed t ↔ Relayed s ∧ Keeps s e) := by
  cases e with
  | writes bytes =>
    obtain ⟨hholders, ⟨⟩⟩ := Option.ite_none_right_eq_some.1 h
    have hopen := hs.ne_of_holders hholders
    exact ⟨hs.writes hholders bytes,
      iff_of_true (relayed_of_ne hopen) ⟨relayed_of_ne hopen, trivial⟩⟩
  | inherits =>
    obtain ⟨hholders, ⟨⟩⟩ := Option.ite_none_right_eq_some.1 h
    have hopen := hs.ne_of_holders hholders
    exact ⟨hs.setHolders hholders _,
      iff_of_true (relayed_of_ne hopen) ⟨relayed_of_ne hopen, trivial⟩⟩
  | closes =>
    obtain ⟨hholders, ⟨⟩⟩ := Option.ite_none_right_eq_some.1 h
    have hopen := hs.ne_of_holders hholders
    exact ⟨hs.setHolders hholders _,
      iff_of_true (relayed_of_ne hopen) ⟨relayed_of_ne hopen, trivial⟩⟩
  | polls ready =>
    obtain ⟨⟨hphase, hready⟩, ⟨⟩⟩ := Option.ite_none_right_eq_some.1 h
    exact ⟨hs.rest fun pollin hmem => holders_of_canReport hready hmem,
      iff_of_true (relayed_of_ne (nextPhase_ne ready))
        ⟨relayed_of_ne (by rw [hphase]; nofun), trivial⟩⟩
  | fails =>
    obtain ⟨hphase, ⟨⟩⟩ := Option.ite_none_right_eq_some.1 h
    exact ⟨hs.leaves, iff_of_true (relayed_of_ne nofun)
      ⟨relayed_of_ne (by rw [hphase]; nofun), trivial⟩⟩
  | servesStdin passed =>
    simp only [Proxy.step] at h
    split at h
    case h_1 rest hphase =>
      have hopen : Relayed s := relayed_of_ne (by rw [hphase]; nofun)
      cases h
      cases passed with
      | true =>
        have hbatch : s.batch = .stdin :: rest := by rw [Proxy.batch, hphase]
        exact ⟨hs.rest fun pollin hmem => hs.hup pollin (hbatch ▸ List.mem_cons_of_mem _ hmem),
          iff_of_true (relayed_of_ne (nextPhase_ne rest)) ⟨hopen, trivial⟩⟩
      | false => exact ⟨hs.leaves, iff_of_true (relayed_of_ne nofun) ⟨hopen, trivial⟩⟩
    case h_2 => cases h
  | servesMaster size => exact hs.servesMaster h

end Steps

theorem inv_init : Inv init where
  whole := rfl
  closed := nofun
  hup _ hmem := by cases hmem

/-- **The output is complete exactly if nothing is left to be read when a hang-up is served.** -/
theorem relayed_iff {es : List Event} {s : Proxy} (hrun : system.run init es = some s) :
    Relayed s ↔ system.Guarded Keeps init es := by
  obtain ⟨-, hrelayed⟩ := system.iff_guarded (fun _ _ _ => inv_step) inv_init hrun
  exact hrelayed.trans (and_iff_right (relayed_of_ne nofun))

end Droidspaces.TerminalProxy
