import Droidspaces.Transition.System
import Mathlib.Data.Nat.Notation
import Mathlib.Data.List.Basic
import Mathlib.Algebra.Group.Nat.Even

/-!
# The terminal input of a session

What a client types goes to the master of the PTY at once, as far as the master takes it.  The rest
waits in a buffer that is flushed when the master can be written to again, and a client that is too
far ahead is not read from until the buffer has drained.

The buffer never comes to its limit, because of the limit on a frame and of the high-water mark; so
that nothing is dropped (`input_kept`).
-/

namespace Droidspaces.PtyInput

open Transition

/-! ## Constants -/

/-- `DS_IOBUF`, and the size of `buf` -/
def ioBuf : ℕ := 8192

def ptyWbufMax : ℕ := 256 * 1024

def ptyWbufHigh : ℕ := 192 * 1024

def ptyWbufLow : ℕ := 64 * 1024

def msgOut : ℕ := 1

def msgWinch : ℕ := 3

/-! ## The buffer -/

abbrev Bytes := List UInt8

/-- The loop that doubles the capacity. -/
def growCap : ℕ → ℕ → ℕ → ℕ
  | 0, _, ncap => ncap
  | rounds + 1, need, ncap =>
    if ncap < need then
      if ptyWbufMax / 2 < ncap then ptyWbufMax else growCap rounds need (ncap * 2)
    else ncap

/-- The capacity after `realloc`, from `pty_wbuf_cap`. -/
def newCap (cap need : ℕ) : ℕ :=
  min (growCap 64 need (if cap = 0 then ioBuf else cap)) ptyWbufMax

/-- The loop that writes the buffer to the master: what is written, and what stays.  Each `write`
takes some bytes, or none. -/
def flush : List ℕ → Bytes → Bytes × Bytes
  | _, [] => ([], [])
  | [], buf => ([], buf)
  | taken :: takes, buf =>
    if taken = 0 then ([], buf)
    else ((buf.take taken) ++ (flush takes (buf.drop taken)).1, (flush takes (buf.drop taken)).2)

/-! ## The session -/

/-- What `epoll_wait` has for a descriptor. -/
inductive Ready where
  | conn (hup pollin : Bool)
  | master (pollin hup pollout : Bool)
  | signal
  deriving DecidableEq

/-- The descriptor. -/
def Ready.fd : Ready → Fin 3
  | .conn _ _ => 0
  | .master _ _ _ => 1
  | .signal => 2

structure Session where
  /-- `pty_wbuf`, up to `pty_wbuf_len` -/
  wbuf : Bytes
  cap : ℕ
  /-- `conn_suspended` -/
  suspended : Bool
  /-- Whether `EPOLLOUT` is armed on the master, until that is closed. -/
  master : Option Bool
  /-- `EPOLLIN` is armed on the connection. -/
  reading : Bool
  /-- What is left of `events`. -/
  batch : List Ready
  childDone : Bool
  /-- The loop has been left. -/
  ended : Bool
  /-- The bytes that the master has taken. -/
  written : Bytes
  /-- The payloads of `MSG_OUT`, up to now. -/
  received : Bytes
  deriving DecidableEq

def started : Session where
  wbuf := []
  cap := 0
  suspended := false
  master := some false
  reading := true
  batch := []
  childDone := false
  ended := false
  written := []
  received := []

/-- How a loop that reads the master ends. -/
inductive Drain where
  /-- With `EAGAIN` -/
  | empty
  /-- With another error, or the end of the file -/
  | hangup
  /-- The client does not take a frame. -/
  | clientGone
  deriving DecidableEq

inductive Event where
  /-- `epoll_wait` returns; with nothing when a signal interrupts it. -/
  | polls (ready : List Ready)
  /-- `epoll_wait` fails for another reason. -/
  | fails
  /-- The client is gone, or sends no header. -/
  | hangsUp
  /-- A frame, and what the master takes of it at once. -/
  | frame (type : ℕ) (payload : Bytes) (taken : ℕ)
  /-- A frame whose payload is cut off. -/
  | cut (type : ℕ) (size : ℕ)
  /-- `EPOLLOUT` on the master, and what it takes. -/
  | flushes (takes : List ℕ) (drain : Drain)
  /-- Anything else on the master -/
  | reads (drain : Drain)
  /-- `SIGCHLD`, and whether the child could be waited for. -/
  | reaps (exited : Bool)
  /-- The check at the end of a round. -/
  | leaves
  deriving DecidableEq

namespace Session

variable (s : Session)

/-- `epoll_wait` reports what is armed, and each descriptor once. -/
def canReport (ready : List Ready) : Bool :=
  decide (ready.map Ready.fd).Nodup && ready.all fun
    | .conn hup pollin => (hup || pollin) && (!pollin || s.reading)
    | .master _ _ pollout => s.master.isSome && (!pollout || s.master == some true)
    | .signal => true

/-- What was not written is put into the buffer. -/
def enqueue (rem : Bytes) : Session :=
  let need := s.wbuf.length + rem.length
  if need ≤ ptyWbufMax then
    let cap := if s.cap < need then newCap s.cap need else s.cap
    if need ≤ cap then
      let armed := { s with
        cap := cap
        wbuf := s.wbuf ++ rem
        master := s.master.map fun _ => true }
      if !s.suspended && ptyWbufHigh ≤ need then
        { armed with reading := false, suspended := true }
      else armed
    else { s with cap := cap }
  else s

/-- The part of a payload that is written at once. -/
def direct (payload : Bytes) (taken : ℕ) : ℕ :=
  if s.wbuf = [] && s.master.isSome then min taken payload.length else 0

def onOut (payload : Bytes) (taken : ℕ) : Session :=
  let written := s.direct payload taken
  let rem := payload.drop written
  let s := { s with written := s.written ++ payload.take written }
  if rem = [] then s else s.enqueue rem

def isOutFrame (type size : ℕ) : Bool := type = msgOut && 0 < size && size ≤ ioBuf

/-- A change of size is passed on, and a frame of another kind is dropped. -/
def onFrame (type : ℕ) (payload : Bytes) (taken : ℕ) : Session :=
  let s := if type = msgOut then { s with received := s.received ++ payload } else s
  if isOutFrame type payload.length then s.onOut payload taken else s

/-- The payload of a frame of another kind has to be there. -/
def onCut (type size : ℕ) : Session :=
  if isOutFrame type size || type = msgWinch && size = 4 then s else { s with ended := true }

def onFlush (takes : List ℕ) : Session :=
  let (out, rest) := flush (if s.master.isSome then takes else []) s.wbuf
  let s := { s with
    wbuf := rest
    written := s.written ++ out
    master := if rest = [] then s.master.map fun _ => false else s.master }
  if s.suspended && rest.length < ptyWbufLow then { s with reading := true, suspended := false }
  else s

def onRead : Drain → Session
  | .empty => s
  | .hangup => { s with master := none, childDone := true }
  | .clientGone => { s with ended := true }

end Session

/-- `handle_session`, for a PTY. -/
def system : System Session Event where
  step s e :=
    if s.ended then none
    else
      match e, s.batch with
      | .polls ready, [] =>
        if s.childDone || !s.canReport ready then none else some { s with batch := ready }
      | .fails, [] => if s.childDone then none else some { s with ended := true }
      | .leaves, [] => if s.childDone then some { s with ended := true } else none
      | .hangsUp, .conn _ _ :: rest => some { s with batch := rest, ended := true }
      | .frame type payload taken, .conn false true :: rest =>
        some ({ s with batch := rest }.onFrame type payload taken)
      | .cut type size, .conn false true :: rest => some ({ s with batch := rest }.onCut type size)
      | .flushes takes drain, .master pollin _ true :: rest =>
        let s := { s with batch := rest }.onFlush takes
        some (if pollin && drain == .clientGone then { s with ended := true } else s)
      | .reads drain, .master pollin hup false :: rest =>
        let s := { s with batch := rest }
        some (if pollin || hup then s.onRead drain else s)
      | .reaps exited, .signal :: rest =>
        some { s with batch := rest, childDone := s.childDone || exited }
      | _, _ => none

/-- A client sends at least a byte and at most a buffer of input in one frame. -/
def Fits (_ : Session) : Event → Prop
  | .frame type payload _ => type = msgOut → 0 < payload.length ∧ payload.length ≤ ioBuf
  | _ => True

instance : ∀ (s : Session) (e : Event), Decidable (Fits s e)
  | _, .frame _ _ _ => inferInstanceAs (Decidable (_ → _))
  | _, .polls _ | _, .fails | _, .hangsUp | _, .cut _ _ | _, .flushes _ _ | _, .reads _
  | _, .reaps _ | _, .leaves => isTrue trivial

/-! ## What holds of the buffer -/

/-- Nothing is lost or out of order, and the client is heard again. -/
structure Kept (s : Session) : Prop where
  flow : s.written ++ s.wbuf = s.received
  le_max : s.wbuf.length ≤ ptyWbufMax
  armed : s.wbuf ≠ [] → ∀ out, s.master = some out → out = true
  low_le : s.suspended = true → ptyWbufLow ≤ s.wbuf.length
  reading_eq : s.reading = !s.suspended
  /-- A master that is closed is not waited for. -/
  closed : s.master = none → s.childDone = true

structure Inv (s : Session) : Prop extends Kept s where
  lt_high : s.suspended = false → s.wbuf.length < ptyWbufHigh
  cap_grown : s.cap = 0 ∨ ioBuf ≤ s.cap
  once : (s.batch.map Ready.fd).Nodup
  /-- Nobody is reported readable who is suspended. -/
  heard : ∀ hup, .conn hup true ∈ s.batch → s.suspended = false

/-! ### The buffer grows and drains -/

theorem flush_append (takes : List ℕ) (buf : Bytes) :
    (flush takes buf).1 ++ (flush takes buf).2 = buf := by
  induction takes generalizing buf with
  | nil => cases buf <;> rfl
  | cons taken takes ih =>
    cases buf with
    | nil => rfl
    | cons b buf =>
      rw [flush]
      split
      · rfl
      · rw [List.append_assoc, ih, List.take_append_drop]
      · exact nofun

/-- What stays after a flush was there before. -/
theorem length_flush_le (takes : List ℕ) (buf : Bytes) :
    (flush takes buf).2.length ≤ buf.length := by
  have happend := congrArg List.length (flush_append takes buf)
  rw [List.length_append] at happend
  omega

/-- The capacity doubles until there is room. -/
theorem le_growCap {need : ℕ} (hneed : need ≤ ptyWbufMax) (rounds ncap : ℕ)
    (hrounds : ptyWbufMax < ncap * 2 ^ rounds) : need ≤ growCap rounds need ncap := by
  induction rounds generalizing ncap with
  | zero =>
    rw [growCap]
    omega
  | succ rounds ih =>
    rw [growCap]
    split_ifs
    · exact hneed
    · apply ih
      rwa [Nat.mul_assoc, ← Nat.pow_succ']
    · omega

theorem le_growCap_self (rounds need ncap : ℕ) (hncap : ncap ≤ ptyWbufMax) :
    ncap ≤ growCap rounds need ncap := by
  induction rounds generalizing ncap with
  | zero => exact Nat.le_refl _
  | succ rounds ih =>
    rw [growCap]
    split_ifs
    · exact hncap
    · have hdouble := ih (ncap * 2) (by omega)
      omega
    · exact Nat.le_refl _

/-- There is room for what has to fit below the limit. -/
theorem le_newCap {cap need : ℕ} (hcap : cap = 0 ∨ ioBuf ≤ cap) (hneed : need ≤ ptyWbufMax) :
    need ≤ newCap cap need := by
  refine Nat.le_min_of_le_of_le (le_growCap hneed _ _ ?_) hneed
  have hstart : ioBuf ≤ if cap = 0 then ioBuf else cap := by split_ifs <;> omega
  calc ptyWbufMax < ioBuf * 2 ^ 64 := by decide
    _ ≤ _ := Nat.mul_le_mul_right _ hstart

theorem ioBuf_le_newCap {cap need : ℕ} (hcap : cap = 0 ∨ ioBuf ≤ cap) (hlt : cap < need)
    (hneed : need ≤ ptyWbufMax) : ioBuf ≤ newCap cap need := by
  have hstart : ioBuf ≤ if cap = 0 then ioBuf else cap := by split_ifs <;> omega
  have hmax : (if cap = 0 then ioBuf else cap) ≤ ptyWbufMax := by
    split_ifs
    · decide
    · omega
  refine Nat.le_min_of_le_of_le ?_ (Nat.le_trans hstart hmax)
  exact Nat.le_trans hstart (le_growCap_self _ _ _ hmax)

namespace Session

variable {s : Session}

/-- What fits below the limit is taken into the buffer, and at the high-water mark the client is
suspended. -/
theorem enqueue_eq {rem : Bytes} (hcap : s.cap = 0 ∨ ioBuf ≤ s.cap)
    (hneed : s.wbuf.length + rem.length ≤ ptyWbufMax) (hfree : s.suspended = false)
    (hreading : s.reading = true) :
    ∃ cap, (cap = 0 ∨ ioBuf ≤ cap) ∧ s.enqueue rem = { s with
      cap := cap
      wbuf := s.wbuf ++ rem
      master := s.master.map fun _ => true
      suspended := decide (ptyWbufHigh ≤ s.wbuf.length + rem.length)
      reading := !decide (ptyWbufHigh ≤ s.wbuf.length + rem.length) } := by
  let need := s.wbuf.length + rem.length
  let cap := if s.cap < need then newCap s.cap need else s.cap
  have hroom : need ≤ cap := by
    unfold cap
    split_ifs
    · exact le_newCap hcap hneed
    · omega
  have hgrown : cap = 0 ∨ ioBuf ≤ cap := by
    unfold cap
    split_ifs with hlt
    · exact .inr (ioBuf_le_newCap hcap hlt hneed)
    · exact hcap
  refine ⟨cap, hgrown, ?_⟩
  have henqueue : s.enqueue rem = if !s.suspended && decide (ptyWbufHigh ≤ need) then
      { s with
        cap := cap
        wbuf := s.wbuf ++ rem
        master := s.master.map fun _ => true
        reading := false
        suspended := true }
      else { s with
        cap := cap
        wbuf := s.wbuf ++ rem
        master := s.master.map fun _ => true } := by
    rw [enqueue, if_pos hneed, if_pos hroom]
  rw [henqueue]
  by_cases hhigh : ptyWbufHigh ≤ need
  · simp [need, hfree, show ptyWbufHigh ≤ s.wbuf.length + rem.length from hhigh]
  · simp [need, hfree, hreading, show ¬ ptyWbufHigh ≤ s.wbuf.length + rem.length from hhigh]

/-- Only when nothing waits is something written at once, so that the order is kept. -/
theorem direct_append (payload : Bytes) (taken : ℕ) :
    payload.take (s.direct payload taken) ++ (s.wbuf ++ payload.drop (s.direct payload taken)) =
      s.wbuf ++ payload := by
  by_cases hempty : s.wbuf = []
  · rw [hempty, List.nil_append, List.nil_append, List.take_append_drop]
  · have hdirect : s.direct payload taken = 0 := by simp [direct, hempty]
    rw [hdirect, List.take_zero, List.drop_zero, List.nil_append]

end Session

/-! ### Every step keeps the input -/

section Steps

variable {s t : Session}

theorem Inv.rest (hs : Inv s) {r : Ready} {rest : List Ready} (hbatch : s.batch = r :: rest) :
    Inv { s with batch := rest } where
  toKept := ⟨hs.flow, hs.le_max, hs.armed, hs.low_le, hs.reading_eq, hs.closed⟩
  lt_high := hs.lt_high
  cap_grown := hs.cap_grown
  once := by
    have honce := hs.once
    rw [hbatch, List.map_cons, List.nodup_cons] at honce
    exact honce.2
  heard hup hmem := hs.heard hup (hbatch ▸ List.mem_cons_of_mem _ hmem)

theorem Inv.ended (hs : Inv s) : Inv { s with ended := true } where
  toKept := ⟨hs.flow, hs.le_max, hs.armed, hs.low_le, hs.reading_eq, hs.closed⟩
  lt_high := hs.lt_high
  cap_grown := hs.cap_grown
  once := hs.once
  heard := hs.heard

theorem Inv.polls (hs : Inv s) {ready : List Ready} (hready : s.canReport ready = true) :
    Inv { s with batch := ready } where
  toKept := ⟨hs.flow, hs.le_max, hs.armed, hs.low_le, hs.reading_eq, hs.closed⟩
  lt_high := hs.lt_high
  cap_grown := hs.cap_grown
  once := by
    rw [Session.canReport, Bool.and_eq_true] at hready
    exact of_decide_eq_true hready.1
  heard hup hmem := by
    rw [Session.canReport, Bool.and_eq_true, List.all_eq_true] at hready
    have hconn := hready.2 _ hmem
    have hreading : s.reading = true := by simpa using hconn
    simpa [hs.reading_eq] using hreading

/-- A frame of input is written at once, or put behind what waits. -/
theorem Inv.onOut (hs : Inv s) (hfree : s.suspended = false)
    (hlast : ∀ hup pollin, .conn hup pollin ∉ s.batch) {payload : Bytes} (taken : ℕ)
    (hle : payload.length ≤ ioBuf) :
    Inv ({ s with received := s.received ++ payload }.onOut payload taken) := by
  have hlt := hs.lt_high hfree
  let d := s.direct payload taken
  have hflow : (s.written ++ payload.take d) ++ (s.wbuf ++ payload.drop d) =
      s.received ++ payload := by
    rw [List.append_assoc, Session.direct_append, ← List.append_assoc, hs.flow]
  have hout : { s with received := s.received ++ payload }.onOut payload taken =
      if payload.drop d = [] then
        { s with received := s.received ++ payload, written := s.written ++ payload.take d }
      else
        { s with
          received := s.received ++ payload
          written := s.written ++ payload.take d }.enqueue (payload.drop d) := rfl
  rw [hout]
  split_ifs with hrem
  · rw [hrem, List.append_nil] at hflow
    exact ⟨⟨hflow, hs.le_max, hs.armed, hs.low_le, hs.reading_eq, hs.closed⟩, hs.lt_high,
      hs.cap_grown, hs.once, hs.heard⟩
  · have hroom : s.wbuf.length + (payload.drop d).length ≤ ptyWbufMax := by
      have hdrop : (payload.drop d).length ≤ payload.length := by simp
      have hmargin : ptyWbufHigh + ioBuf ≤ ptyWbufMax := by decide
      omega
    obtain ⟨cap, hcap, heq⟩ := Session.enqueue_eq (s := { s with
      received := s.received ++ payload
      written := s.written ++ payload.take d }) hs.cap_grown hroom hfree
        (by simpa [hfree] using hs.reading_eq)
    rw [heq]
    exact {
      flow := hflow
      le_max := by simpa using hroom
      armed := fun _ out hout => by
        obtain ⟨_, -, hmaster⟩ := Option.map_eq_some_iff.1 hout
        exact hmaster.symm
      low_le := fun hhigh => by
        have hlen : ptyWbufHigh ≤ s.wbuf.length + (payload.drop d).length :=
          of_decide_eq_true hhigh
        have hmarks : ptyWbufLow ≤ ptyWbufHigh := by decide
        simp only [List.length_append]
        omega
      reading_eq := rfl
      closed := fun hclosed => hs.closed (by simpa using hclosed)
      lt_high := fun hhigh => by
        have hlen : ¬ ptyWbufHigh ≤ s.wbuf.length + (payload.drop d).length :=
          of_decide_eq_false hhigh
        simp only [List.length_append]
        omega
      cap_grown := hcap
      once := hs.once
      heard := fun hup hmem => (hlast hup true hmem).elim }

/-- Once the connection has been served, it is not in the rest of the round. -/
theorem conn_not_mem (hs : Inv s) {hup pollin : Bool} {rest : List Ready}
    (hbatch : s.batch = .conn hup pollin :: rest) (hup' pollin' : Bool) :
    .conn hup' pollin' ∉ rest := by
  intro hmem
  have honce := hs.once
  rw [hbatch, List.map_cons, List.nodup_cons] at honce
  exact honce.1 (List.mem_map.2 ⟨_, hmem, rfl⟩)

theorem Inv.onFrame (hs : Inv s) {rest : List Ready} (hbatch : s.batch = .conn false true :: rest)
    {type : ℕ} {payload : Bytes} (taken : ℕ)
    (hfits : type = msgOut → 0 < payload.length ∧ payload.length ≤ ioBuf) :
    Inv ({ s with batch := rest }.onFrame type payload taken) := by
  have hfree := hs.heard false (hbatch ▸ List.mem_cons_self)
  rw [Session.onFrame]
  by_cases hout : type = msgOut
  · obtain ⟨hpos, hle⟩ := hfits hout
    have hframe : Session.isOutFrame type payload.length = true := by
      simp [Session.isOutFrame, hout, hpos, hle]
    rw [if_pos hout, if_pos hframe]
    exact (hs.rest hbatch).onOut hfree (conn_not_mem hs hbatch) taken hle
  · have hframe : ¬ Session.isOutFrame type payload.length = true := by
      simp [Session.isOutFrame, hout]
    rw [if_neg hout, if_neg hframe]
    exact hs.rest hbatch

theorem Inv.onCut (hs : Inv s) (type size : ℕ) : Inv (s.onCut type size) := by
  rw [Session.onCut]
  split_ifs
  · exact hs
  · exact hs.ended

/-- A flush takes from the front, and lets the client go on below the low-water mark. -/
theorem Inv.onFlush (hs : Inv s) (takes : List ℕ) : Inv (s.onFlush takes) := by
  let takes' := if s.master.isSome then takes else []
  have happend := flush_append takes' s.wbuf
  have hshort := length_flush_le takes' s.wbuf
  let base := { s with
    wbuf := (flush takes' s.wbuf).2
    written := s.written ++ (flush takes' s.wbuf).1
    master := if (flush takes' s.wbuf).2 = [] then s.master.map fun _ => false else s.master }
  have heq : s.onFlush takes =
      if s.suspended && decide ((flush takes' s.wbuf).2.length < ptyWbufLow) then
        { base with reading := true, suspended := false }
      else base := rfl
  have hflow : base.written ++ base.wbuf = base.received := by
    show s.written ++ _ ++ _ = s.received
    rw [List.append_assoc, happend, hs.flow]
  have harmed : base.wbuf ≠ [] → ∀ out, base.master = some out → out = true := by
    intro hne out hout
    have hrest : (flush takes' s.wbuf).2 ≠ [] := hne
    have hwbuf : s.wbuf ≠ [] := by
      intro hnil
      have hlen : s.wbuf.length = 0 := by rw [hnil, List.length_nil]
      exact hrest (List.eq_nil_of_length_eq_zero (by omega))
    exact hs.armed hwbuf out (by simpa [base, hrest] using hout)
  have hclosed : base.master = none → s.childDone = true := by
    intro hnone
    apply hs.closed
    by_cases hrest : (flush takes' s.wbuf).2 = []
    · simpa [base, hrest] using hnone
    · simpa [base, hrest] using hnone
  rw [heq]
  split_ifs with hlow
  · rw [Bool.and_eq_true, decide_eq_true_iff] at hlow
    have hmarks : ptyWbufLow ≤ ptyWbufHigh := by decide
    exact ⟨⟨hflow, Nat.le_trans hshort hs.le_max, harmed, nofun, rfl, hclosed⟩,
      fun _ => Nat.lt_of_lt_of_le hlow.2 hmarks, hs.cap_grown, hs.once, fun _ _ => rfl⟩
  · rw [Bool.and_eq_true, decide_eq_true_iff, not_and, Nat.not_lt] at hlow
    exact ⟨⟨hflow, Nat.le_trans hshort hs.le_max, harmed, hlow, hs.reading_eq, hclosed⟩,
      fun hfree => Nat.lt_of_le_of_lt hshort (hs.lt_high hfree), hs.cap_grown, hs.once,
      hs.heard⟩

theorem Inv.onRead (hs : Inv s) (drain : Drain) : Inv (s.onRead drain) := by
  cases drain with
  | empty => exact hs
  | hangup =>
    exact ⟨⟨hs.flow, hs.le_max, fun _ _ => nofun, hs.low_le, hs.reading_eq, fun _ => rfl⟩,
      hs.lt_high, hs.cap_grown, hs.once, hs.heard⟩
  | clientGone => exact hs.ended

end Steps

theorem inv_started : Inv started :=
  ⟨⟨rfl, by decide, nofun, nofun, rfl, nofun⟩, fun _ => by decide, .inl rfl, by decide, nofun⟩

theorem inv_step (s : Session) (e : Event) (t : Session) (hs : Inv s) (hfits : Fits s e)
    (hstep : system.step s e = some t) : Inv t := by
  simp only [system] at hstep
  split at hstep
  · cases hstep
  split at hstep
  case h_1 ready hbatch =>
    split at hstep
    next => cases hstep
    next hready =>
      cases hstep
      rw [Bool.not_eq_true, Bool.or_eq_false_iff, Bool.not_eq_false'] at hready
      exact hs.polls hready.2
  case h_2 hbatch =>
    split at hstep
    · cases hstep
    · cases hstep
      exact hs.ended
  case h_3 hbatch =>
    split at hstep
    · cases hstep
      exact hs.ended
    · cases hstep
  case h_4 hbatch =>
    cases hstep
    exact (hs.rest hbatch).ended
  case h_5 type payload taken rest hbatch =>
    cases hstep
    exact hs.onFrame hbatch taken hfits
  case h_6 type size rest hbatch =>
    cases hstep
    exact (hs.rest hbatch).onCut type size
  case h_7 takes drain pollin hup rest hbatch =>
    cases hstep
    split
    · exact ((hs.rest hbatch).onFlush takes).ended
    · exact (hs.rest hbatch).onFlush takes
  case h_8 drain pollin hup rest hbatch =>
    cases hstep
    split
    · exact (hs.rest hbatch).onRead drain
    · exact hs.rest hbatch
  case h_9 exited rest hbatch =>
    cases hstep
    have hrest := hs.rest hbatch
    exact ⟨⟨hrest.flow, hrest.le_max, hrest.armed, hrest.low_le, hrest.reading_eq,
      fun hnone => by rw [hrest.closed hnone, Bool.true_or]⟩, hrest.lt_high, hrest.cap_grown,
      hrest.once, hrest.heard⟩
  case h_10 => cases hstep

/-- In every state of a session, what the master has taken and what waits for it is what the client
has sent.  As long as the master is open, what waits is waited for, and a client that was suspended
is heard again as soon as the buffer has drained below the low-water mark. -/
theorem input_kept {es : List Event} {t : Session} (hfits : system.Guarded Fits started es)
    (hrun : system.run started es = some t) :
    Kept t ∧ ∀ takes, t.master.isSome = true → (flush takes t.wbuf).2.length < ptyWbufLow →
      (t.onFlush takes).reading = true := by
  have ht : Inv t := system.invariant_of_guarded inv_step inv_started hfits hrun
  refine ⟨ht.toKept, fun takes hopen hlow => ?_⟩
  have hflushed := (ht.onFlush takes).toKept
  rw [hflushed.reading_eq, Bool.not_eq_true', ← Bool.not_eq_true]
  intro hsuspended
  have hle := hflushed.low_le hsuspended
  have hrest : (t.onFlush takes).wbuf = (flush takes t.wbuf).2 := by
    simp only [Session.onFlush, hopen, if_true]
    split_ifs <;> rfl
  rw [hrest] at hle
  omega

/-- A line of which the master takes a part -/
def typed : List Event :=
  [.polls [.conn false true], .frame msgOut [108, 115, 10] 1,
    .polls [.master false false true, .conn false true], .flushes [1, 0] .empty,
    .frame msgOut [100] 1]

def typedState : Session :=
  { started with
    wbuf := [10, 100]
    cap := ioBuf
    master := some true
    written := [108, 115]
    received := [108, 115, 10, 100] }

theorem input_kept_typed : Kept typedState ∧ ∀ takes, typedState.master.isSome = true →
    (flush takes typedState.wbuf).2.length < ptyWbufLow →
      (typedState.onFlush takes).reading = true :=
  @input_kept typed typedState (by decide) (by decide)

/-- The child exits while its terminal takes nothing: the master reports no room, and it is closed
over what waits. -/
def hungUp : List Event :=
  [.polls [.conn false true], .frame msgOut [108, 115, 10] 0, .polls [.master true true false],
    .reads .hangup]

theorem not_armed_hungUp : ¬ ∀ es t, system.Guarded Fits started es →
    system.run started es = some t →
      t.written ++ t.wbuf = t.received ∧ t.wbuf.length ≤ ptyWbufMax ∧
        (t.wbuf ≠ [] → t.master = some true) ∧
          (t.suspended = true → ptyWbufLow ≤ t.wbuf.length) := by
  intro h
  let closed : Session :=
    { started with
      wbuf := [108, 115, 10]
      cap := ioBuf
      master := none
      childDone := true
      received := [108, 115, 10] }
  obtain ⟨-, -, harmed, -⟩ := h hungUp closed (by decide) (by decide)
  exact absurd (harmed (by decide)) (by decide)

end Droidspaces.PtyInput
