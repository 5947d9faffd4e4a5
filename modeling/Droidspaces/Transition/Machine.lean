import Droidspaces.Transition.Program
import Droidspaces.Transition.System
import Mathlib.Data.Nat.Notation

/-!
# Many programs in one world

A `Machine` runs one program per process in a shared world.  One step performs the next operation
of one process; everything the environment decides (which process moves, how a wait ends, the pid
of a fork) is part of the event, so a run is a list of events of a `Transition.System`.

A process whose program has returned goes on at the entry point that it returned, which is how
unbounded loops of the source are written; an operation may start a new process at an entry point.

`withGhost` adds history variables.  They see every step and influence none: a property stated
with them is a property of the plain machine's runs.
-/

namespace Transition

/-- Programs, their operations and the world they run in.  `Pid` names processes, `Entry` the
places where a process can start or go on, `Env` what happens without any process moving. -/
structure Machine (Pid σ Op Entry Env : Type) (Res : Op → Type) where
  code : Entry → Prog Op Res Entry
  /-- One operation of one process; the number is the environment's choice. -/
  exec : σ → Pid → (op : Op) → ℕ → Option (σ × Res op)
  /-- The process that the operation started. -/
  child : (op : Op) → Res op → Option (Pid × Entry)
  runnable : σ → Pid → Bool
  env : σ → Env → Option (σ × Option (Pid × Entry))

/-- What happens next. -/
inductive Machine.Event (Pid Env : Type) where
  | step (p : Pid) (choice : ℕ)
  | env (e : Env)

/-- `p` performs `n` operations, with nothing out of the ordinary. -/
def Machine.turns {Pid Env : Type} (p : Pid) (n : ℕ) : List (Machine.Event Pid Env) :=
  List.replicate n (.step p 0)

theorem Machine.eq_of_mem_turns {Pid Env : Type} {p q : Pid} {n choice : ℕ}
    (h : (.step p choice : Machine.Event Pid Env) ∈ Machine.turns q n) : p = q :=
  (Machine.Event.step.inj (List.eq_of_mem_replicate h)).1

/-- The world and what remains of each program. -/
structure Machine.State (Pid σ Op Entry : Type) (Res : Op → Type) where
  world : σ
  prog : Pid → Prog Op Res Entry

namespace Machine

variable {Pid σ Op Entry Env : Type} {Res : Op → Type} [DecidableEq Pid]
variable (M : Machine Pid σ Op Entry Env Res)

/-- Load the program of a new process. -/
def load (prog : Pid → Prog Op Res Entry) : Option (Pid × Entry) → Pid → Prog Op Res Entry
  | none => prog
  | some (p, e) => Function.update prog p (M.code e)

/-- The machine as a transition system. -/
def toSystem : System (State Pid σ Op Entry Res) (Event Pid Env) where
  step s
    | .step p choice =>
      if M.runnable s.world p then
        match s.prog p with
        | .ret e => some { s with prog := Function.update s.prog p (M.code e) }
        | .call op k =>
          (M.exec s.world p op choice).map fun a =>
            ⟨a.1, M.load (Function.update s.prog p (k a.2)) (M.child op a.2)⟩
      else none
    | .env e => (M.env s.world e).map fun a => ⟨a.1, M.load s.prog a.2⟩

/-- The operation or the environment event is scheduled under the guards. -/
def admits (guard : σ → Pid → Op → Prop) (guardEnv : σ → Env → Prop)
    (s : State Pid σ Op Entry Res) : Event Pid Env → Prop
  | .step p _ =>
    match s.prog p with
    | .ret _ => True
    | .call op _ => guard s.world p op
  | .env e => guardEnv s.world e

omit [DecidableEq Pid] in
theorem admits_mono {guard guard' : σ → Pid → Op → Prop} {guardEnv : σ → Env → Prop}
    (hguard : ∀ w p op, guard w p op → guard' w p op) {s : State Pid σ Op Entry Res}
    {e : Event Pid Env} (h : admits guard guardEnv s e) : admits guard' guardEnv s e := by
  cases e with
  | env e => exact h
  | step p choice =>
    cases hprog : s.prog p with
    | ret a => simp [admits, hprog]
    | call op k =>
      simp only [admits, hprog] at h ⊢
      exact hguard s.world p op h

/-- A run in which everything is scheduled under the guards. -/
def GuardedBy (guard : σ → Pid → Op → Prop) (guardEnv : σ → Env → Prop)
    (s : State Pid σ Op Entry Res) (es : List (Event Pid Env)) : Prop :=
  M.toSystem.Guarded (admits guard guardEnv) s es

/-- Guards that admit everything. -/
theorem guardedBy_of_forall {guard : σ → Pid → Op → Prop} {guardEnv : σ → Env → Prop}
    (hguard : ∀ w p op, guard w p op) (henv : ∀ w e, guardEnv w e)
    (s : State Pid σ Op Entry Res) (es : List (Event Pid Env)) :
    M.GuardedBy guard guardEnv s es := by
  refine M.toSystem.guarded_of_forall (fun s e => ?_) s es
  cases e with
  | env e => exact henv s.world e
  | step p choice =>
    cases hprog : s.prog p with
    | ret e => simp [admits, hprog]
    | call op k =>
      simp only [admits, hprog]
      exact hguard s.world p op

instance decidableAdmits (guard : σ → Pid → Op → Prop) (guardEnv : σ → Env → Prop)
    [∀ w p op, Decidable (guard w p op)] [∀ w e, Decidable (guardEnv w e)]
    (s : State Pid σ Op Entry Res) :
    ∀ e : Event Pid Env, Decidable (admits guard guardEnv s e)
  | .step p _ =>
    match h : s.prog p with
    | .ret _ => isTrue (by simp [admits, h])
    | .call op _ => decidable_of_iff (guard s.world p op) (by simp [admits, h])
  | .env e => inferInstanceAs (Decidable (guardEnv s.world e))

instance decidableGuardedBy (guard : σ → Pid → Op → Prop) (guardEnv : σ → Env → Prop)
    [∀ w p op, Decidable (guard w p op)] [∀ w e, Decidable (guardEnv w e)]
    (s : State Pid σ Op Entry Res) (es : List (Event Pid Env)) :
    Decidable (M.GuardedBy guard guardEnv s es) :=
  inferInstanceAs (Decidable (M.toSystem.Guarded (admits guard guardEnv) s es))

/-- No condition on what the environment does. -/
def anyEnv : σ → Env → Prop := fun _ _ => True

instance decidableAnyEnv (w : σ) (e : Env) : Decidable (anyEnv w e) := isTrue trivial

theorem load_of_ne {prog : Pid → Prog Op Res Entry} {ch : Option (Pid × Entry)} {q : Pid}
    (h : ∀ e, ch ≠ some (q, e)) : M.load prog ch q = prog q := by
  cases ch with
  | none => rfl
  | some c =>
    obtain ⟨p, e⟩ := c
    have hqp : q ≠ p := fun heq => h e (by rw [heq])
    simp [load, hqp]

@[simp] theorem load_self (prog : Pid → Prog Op Res Entry) (p : Pid) (e : Entry) :
    M.load prog (some (p, e)) p = M.code e := by
  simp [load]

/-- A process that does not move stays where it is, where nothing starts processes. -/
theorem run_prog_of_not_mem (hchild : ∀ op r, M.child op r = none)
    (henv : ∀ w e a, M.env w e = some a → a.2 = none) {s t : State Pid σ Op Entry Res}
    {es : List (Event Pid Env)} {p : Pid} (hp : ∀ choice, .step p choice ∉ es)
    (hrun : M.toSystem.run s es = some t) : t.prog p = s.prog p := by
  induction es generalizing s with
  | nil =>
    obtain rfl : s = t := by simpa using hrun
    rfl
  | cons e es ih =>
    obtain ⟨u, hu, hrest⟩ := M.toSystem.run_cons_eq_some.1 hrun
    rw [ih (fun choice hmem => hp choice (List.mem_cons_of_mem e hmem)) hrest]
    cases e with
    | step q choice =>
      have hqp : p ≠ q := by
        rintro rfl
        exact hp choice List.mem_cons_self
      simp only [toSystem, Option.ite_none_right_eq_some] at hu
      obtain ⟨-, hu⟩ := hu
      cases hprog : s.prog q with
      | ret e =>
        simp only [hprog, Option.some.injEq] at hu
        rw [← hu]
        exact Function.update_of_ne hqp _ _
      | call op k =>
        simp only [hprog, Option.map_eq_some_iff] at hu
        obtain ⟨a, -, rfl⟩ := hu
        simp only [hchild, load]
        exact Function.update_of_ne hqp _ _
    | env e =>
      simp only [toSystem, Option.map_eq_some_iff] at hu
      obtain ⟨a, ha, rfl⟩ := hu
      simp only [henv s.world e a ha, load]

/-- Only a start makes a process runnable. -/
structure Spawns : Prop where
  exec : ∀ w p op choice w' r q, M.runnable w p = true →
    M.exec w p op choice = some (w', r) → M.runnable w' q = true →
      M.runnable w q = true ∨ ∃ e, M.child op r = some (q, e)
  env : ∀ w e w' ch q, M.env w e = some (w', ch) → M.runnable w' q = true →
    M.runnable w q = true ∨ ∃ e', ch = some (q, e')

/-- The machine with history variables `γ`, updated by every operation and every environment
event. -/
def withGhost {γ : Type} (note : γ → σ → Pid → (op : Op) → Res op → σ → γ)
    (noteEnv : γ → σ → Env → σ → γ) : Machine Pid (σ × γ) Op Entry Env Res where
  code := M.code
  exec s p op choice :=
    (M.exec s.1 p op choice).map fun a => ((a.1, note s.2 s.1 p op a.2 a.1), a.2)
  child := M.child
  runnable s := M.runnable s.1
  env s e := (M.env s.1 e).map fun a => ((a.1, noteEnv s.2 s.1 e a.1), a.2)

section Ghost

omit [DecidableEq Pid]

variable {M} {γ : Type} {note : γ → σ → Pid → (op : Op) → Res op → σ → γ}
  {noteEnv : γ → σ → Env → σ → γ} {s t : σ × γ}

/-- The history sees the step and does not influence it. -/
theorem withGhost_exec {p : Pid} {op : Op} {choice : ℕ} {r : Res op}
    (h : (M.withGhost note noteEnv).exec s p op choice = some (t, r)) :
    M.exec s.1 p op choice = some (t.1, r) ∧ t.2 = note s.2 s.1 p op r t.1 := by
  obtain ⟨⟨w', r'⟩, hw, heq⟩ := Option.map_eq_some_iff.1 h
  obtain ⟨rfl, rfl⟩ := Prod.mk.inj heq
  exact ⟨hw, rfl⟩

theorem withGhost_env {e : Env} {ch : Option (Pid × Entry)}
    (h : (M.withGhost note noteEnv).env s e = some (t, ch)) :
    M.env s.1 e = some (t.1, ch) ∧ t.2 = noteEnv s.2 s.1 e t.1 := by
  obtain ⟨⟨w', ch'⟩, hw, heq⟩ := Option.map_eq_some_iff.1 h
  obtain ⟨rfl, rfl⟩ := Prod.mk.inj heq
  exact ⟨hw, rfl⟩

end Ghost

/-- A run of the plain machine is a run with history. -/
theorem withGhost_run {γ : Type} (note : γ → σ → Pid → (op : Op) → Res op → σ → γ)
    (noteEnv : γ → σ → Env → σ → γ) {s t : State Pid σ Op Entry Res} {es : List (Event Pid Env)}
    (hrun : M.toSystem.run s es = some t) (g : γ) :
    ∃ g', (M.withGhost note noteEnv).toSystem.run ⟨(s.world, g), s.prog⟩ es =
      some ⟨(t.world, g'), t.prog⟩ := by
  induction es generalizing s g with
  | nil =>
    obtain rfl : s = t := by simpa using hrun
    exact ⟨g, rfl⟩
  | cons e es ih =>
    obtain ⟨u, hu, hrest⟩ := M.toSystem.run_cons_eq_some.1 hrun
    suffices hstep : ∃ g₁, (M.withGhost note noteEnv).toSystem.step ⟨(s.world, g), s.prog⟩ e =
        some ⟨(u.world, g₁), u.prog⟩ by
      obtain ⟨g₁, hg₁⟩ := hstep
      obtain ⟨g', hg'⟩ := ih hrest g₁
      exact ⟨g', (System.run_cons_eq_some _).2 ⟨_, hg₁, hg'⟩⟩
    cases e with
    | step p choice =>
      simp only [toSystem, Option.ite_none_right_eq_some] at hu
      obtain ⟨hp, hu⟩ := hu
      cases hprog : s.prog p with
      | ret e =>
        simp only [hprog, Option.some.injEq] at hu
        subst hu
        exact ⟨g, by simp [toSystem, withGhost, hp, hprog]⟩
      | call op k =>
        simp only [hprog, Option.map_eq_some_iff] at hu
        obtain ⟨⟨w', r⟩, hexec, rfl⟩ := hu
        refine ⟨note g s.world p op r w', ?_⟩
        simp only [toSystem, withGhost, hp, if_true, hprog, hexec, Option.map_some]
        rfl
    | env e =>
      simp only [toSystem, Option.map_eq_some_iff] at hu
      obtain ⟨⟨w', ch⟩, henv, rfl⟩ := hu
      refine ⟨noteEnv g s.world e w', ?_⟩
      simp only [toSystem, withGhost, henv, Option.map_some]
      rfl

omit [DecidableEq Pid] in
theorem Spawns.withGhost {M : Machine Pid σ Op Entry Env Res} (hM : M.Spawns) {γ : Type}
    (note : γ → σ → Pid → (op : Op) → Res op → σ → γ) (noteEnv : γ → σ → Env → σ → γ) :
    (M.withGhost note noteEnv).Spawns where
  exec := by
    intro w p op choice w' r q hp hexec hrun
    exact hM.exec w.1 p op choice w'.1 r q hp (withGhost_exec hexec).1 hrun
  env := by
    intro w e w' ch q henv hrun
    exact hM.env w.1 e w'.1 ch q (withGhost_env henv).1 hrun

end Machine

end Transition
