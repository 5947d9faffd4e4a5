import Droidspaces.Memory.RingBuffer
import Droidspaces.Transition.System

/-!
# The queue of input events

Threads of the app put input events into a ring, under a lock, and then write to an eventfd.  The
event loop reads the eventfd when it is readable and then dispatches what is in the ring, up to 32
events for each time that it holds the lock, until it has found the ring empty.

What the threads do comes in any order: a step is what a thread does under the lock, a write to the
eventfd or a read of it, or one event that is dispatched.
-/

namespace Droidspaces.InputQueue

open Memory Transition

/-! ## The code -/

/-- Where the event loop is. -/
inductive Dispatcher (α : Type)
  /-- It waits for the eventfd. -/
  | idle
  /-- It is about to take the lock. -/
  | draining
  /-- It has these events in `batch`. -/
  | dispatching (batch : List α)

/-- The events in `batch`. -/
def Dispatcher.batch {α : Type} : Dispatcher α → List α
  | .idle => []
  | .draining => []
  | .dispatching batch => batch

structure Server (Thread α : Type) where
  inputQueue : RingBuffer α 256
  /-- The counter of the eventfd, which is readable unless this is 0. -/
  inputEventfd : ℕ
  /-- The threads that have left the lock and not yet written to the eventfd. -/
  signalling : Thread → Bool
  dispatcher : Dispatcher α
  /-- The events that were put into the queue, in order. -/
  accepted : List α
  /-- The events that were dispatched, in order. -/
  dispatched : List α

inductive Step (Thread α : Type)
  /-- `enqueue_input_event` under the lock -/
  | enqueue (t : Thread) (ev : α)
  /-- The write with which it ends. -/
  | signal (t : Thread)
  /-- The read in `on_input_eventfd`. -/
  | wake
  /-- `ds_seat_dispatch_queue` under the lock -/
  | takeBatch
  /-- It dispatches an event. -/
  | dispatch

/-- A write of 1, which does nothing when the counter is at its maximum. -/
def writeEventfd (counter : ℕ) : ℕ :=
  if counter + 1 ≤ 18446744073709551614 then counter + 1 else counter

variable {Thread α : Type}

section Steps

variable [DecidableEq Thread]

/-- What a step does, if it can be taken. -/
def step (s : Server Thread α) : Step Thread α → Option (Server Thread α)
  | .enqueue t ev =>
    if s.signalling t = true then none
    else
      let signalling := Function.update s.signalling t true
      match s.inputQueue.push ev with
      | none => some { s with signalling := signalling }
      | some queue =>
        some
          { s with
            inputQueue := queue
            signalling := signalling
            accepted := s.accepted ++ [ev] }
  | .signal t =>
    if s.signalling t = true then
      some
        { s with
          inputEventfd := writeEventfd s.inputEventfd
          signalling := Function.update s.signalling t false }
    else none
  | .wake =>
    match s.dispatcher with
    | .idle =>
      if s.inputEventfd = 0 then none
      else some { s with inputEventfd := 0, dispatcher := .draining }
    | _ => none
  | .takeBatch =>
    match s.dispatcher with
    | .draining =>
      let (batch, queue) := s.inputQueue.take 32
      some
        { s with
          inputQueue := queue
          dispatcher := if batch.isEmpty then .idle else .dispatching batch }
    | _ => none
  | .dispatch =>
    match s.dispatcher with
    | .dispatching (ev :: batch) =>
      some
        { s with
          dispatcher := if batch.isEmpty then .draining else .dispatching batch
          dispatched := s.dispatched ++ [ev] }
    | _ => none

def system : System (Server Thread α) (Step Thread α) where
  step := step

end Steps

theorem slots_pos : 0 < 256 := by decide

/-- The server as it is created. -/
def init (slots : Fin 256 → α) : Server Thread α where
  inputQueue := ⟨slots, ⟨0, slots_pos⟩, ⟨0, slots_pos⟩⟩
  inputEventfd := 0
  signalling _ := false
  dispatcher := .idle
  accepted := []
  dispatched := []

/-! ## What holds in every state -/

structure Sound (s : Server Thread α) : Prop where
  /-- Every event that was accepted is somewhere, in order. -/
  fifo : s.accepted = s.dispatched ++ (s.dispatcher.batch ++ s.inputQueue.pending)
  /-- While there are events in the queue, there is or comes something to wake up for. -/
  awake : s.dispatcher = .idle → s.inputQueue.pending ≠ [] →
    s.inputEventfd ≠ 0 ∨ ∃ t, s.signalling t = true

theorem sound_init (slots : Fin 256 → α) : Sound (init slots : Server Thread α) := by
  have hempty : (init slots : Server Thread α).inputQueue.pending = [] :=
    (RingBuffer.pending_eq_nil_iff _).2 rfl
  exact ⟨by rw [hempty]; rfl, fun _ hne => absurd hempty hne⟩

variable [DecidableEq Thread]

/-- What is put into the queue comes last, and nothing is while 255 events are in it. -/
theorem enqueue_cases {s s' : Server Thread α} {t : Thread} {ev : α}
    (h : step s (.enqueue t ev) = some s') :
    s'.signalling t = true ∧ s'.dispatcher = s.dispatcher ∧ s'.dispatched = s.dispatched ∧
      if s.inputQueue.pending.length = 255 then
        s'.accepted = s.accepted ∧ s'.inputQueue = s.inputQueue
      else
        s'.accepted = s.accepted ++ [ev] ∧
          s'.inputQueue.pending = s.inputQueue.pending ++ [ev] := by
  rw [step] at h
  split at h
  · cases h
  · have hfull : s.inputQueue.push ev = none ↔ s.inputQueue.pending.length = 255 := by
      rw [RingBuffer.push_eq_none_iff]
      omega
    cases hpush : s.inputQueue.push ev with
    | none =>
      simp only [hpush, Option.some.injEq] at h
      subst h
      rw [if_pos (hfull.1 hpush)]
      exact ⟨Function.update_self _ _ _, rfl, rfl, rfl, rfl⟩
    | some queue =>
      simp only [hpush, Option.some.injEq] at h
      subst h
      rw [if_neg fun hlen => by rw [hfull.2 hlen] at hpush; cases hpush]
      exact ⟨Function.update_self _ _ _, rfl, rfl, rfl, RingBuffer.pending_push hpush⟩

/-- What comes first is taken, and where there is nothing the dispatcher waits again. -/
theorem takeBatch_cases {s s' : Server Thread α} (h : step s .takeBatch = some s') :
    s.dispatcher = .draining ∧ s'.accepted = s.accepted ∧ s'.dispatched = s.dispatched ∧
      s.inputQueue.pending = s'.dispatcher.batch ++ s'.inputQueue.pending ∧
        (s'.dispatcher = .idle → s'.inputQueue.pending = []) := by
  rw [step] at h
  cases hdraining : s.dispatcher with
  | idle => simp only [hdraining, reduceCtorEq] at h
  | draining =>
    simp only [hdraining, Option.some.injEq] at h
    subst h
    have htake := RingBuffer.pending_take 32 s.inputQueue
    refine ⟨rfl, rfl, rfl, ?_⟩
    split
    · next hbatch =>
      rw [List.isEmpty_iff] at hbatch
      refine ⟨by rw [htake, hbatch]; rfl, fun _ => ?_⟩
      rw [← (RingBuffer.take_eq_nil_iff (Nat.succ_pos 31) _).1 hbatch, htake, hbatch]
      rfl
    · exact ⟨htake, nofun⟩
  | dispatching batch => simp only [hdraining, reduceCtorEq] at h

/-- The first event of the batch is dispatched, and after the last one the queue is looked at
again. -/
theorem dispatch_cases {s s' : Server Thread α} (h : step s .dispatch = some s') :
    ∃ ev, s.dispatcher.batch = ev :: s'.dispatcher.batch ∧ s'.accepted = s.accepted ∧
      s'.dispatched = s.dispatched ++ [ev] ∧ s'.inputQueue = s.inputQueue ∧
        s'.dispatcher ≠ .idle := by
  rw [step] at h
  cases hdispatching : s.dispatcher with
  | idle => simp only [hdispatching, reduceCtorEq] at h
  | draining => simp only [hdispatching, reduceCtorEq] at h
  | dispatching batch =>
    cases batch with
    | nil => simp only [hdispatching, reduceCtorEq] at h
    | cons ev batch =>
      simp only [hdispatching, Option.some.injEq] at h
      subst h
      cases batch with
      | nil => exact ⟨ev, rfl, rfl, rfl, rfl, nofun⟩
      | cons next batch => exact ⟨ev, rfl, rfl, rfl, rfl, nofun⟩

theorem writeEventfd_ne_zero (counter : ℕ) : writeEventfd counter ≠ 0 := by
  unfold writeEventfd
  split <;> omega

theorem sound_step (s : Server Thread α) (e : Step Thread α) (s' : Server Thread α) (hs : Sound s)
    (_ : True) (h : step s e = some s') : Sound s' := by
  cases e with
  | enqueue t ev =>
    obtain ⟨hsignal, hdispatcher, hdispatched, hqueue⟩ := enqueue_cases h
    refine ⟨?_, fun _ _ => Or.inr ⟨t, hsignal⟩⟩
    rw [hdispatched, hdispatcher]
    split at hqueue
    · rw [hqueue.1, hqueue.2]
      exact hs.fifo
    · rw [hqueue.1, hqueue.2, hs.fifo]
      simp only [List.append_assoc]
  | signal t =>
    rw [step] at h
    split at h
    · rw [Option.some.injEq] at h
      subst h
      exact ⟨hs.fifo, fun _ _ => Or.inl (writeEventfd_ne_zero _)⟩
    · cases h
  | wake =>
    rw [step] at h
    cases hidle : s.dispatcher with
    | idle =>
      simp only [hidle] at h
      split at h
      · cases h
      · rw [Option.some.injEq] at h
        subst h
        refine ⟨?_, fun hnot => by cases hnot⟩
        rw [hs.fifo, hidle]
        rfl
    | draining => simp only [hidle, reduceCtorEq] at h
    | dispatching batch => simp only [hidle, reduceCtorEq] at h
  | takeBatch =>
    obtain ⟨hdraining, haccepted, hdispatched, hpending, hidle⟩ := takeBatch_cases h
    refine ⟨?_, fun hnow hne => absurd (hidle hnow) hne⟩
    rw [haccepted, hdispatched, ← hpending, hs.fifo, hdraining]
    rfl
  | dispatch =>
    obtain ⟨ev, hbatch, haccepted, hdispatched, hqueue, hawake⟩ := dispatch_cases h
    refine ⟨?_, fun hnow => absurd hnow hawake⟩
    rw [haccepted, hdispatched, hqueue, hs.fifo, hbatch, List.append_assoc]
    rfl

end Droidspaces.InputQueue
