import Mathlib.Logic.Function.Basic

/-!
# Guarded runs of a labelled transition system

A `System` is a deterministic step function on labelled events; what the environment chooses is
part of the event.  `run` executes a list of events and fails at the first one that is not
enabled.

Properties of a run come in two kinds.  `Along P` says that every step of the run satisfies `P`,
which sees the state before, the event and the state after.  `Guarded C` is the special case in
which only the state before and the event are inspected: it is how a condition on the scheduler is
stated.  The rules proved here are the inductions over runs that the rest of the development
performs: `invariant_of_guarded` carries an invariant to the final state, `along_of_guarded` carries
a one-step fact to every step, and `iff_guarded` finds the run in which nothing was lost.
-/

namespace Transition

/-- A labelled transition system whose step is a partial function of the event. -/
structure System (σ ε : Type*) where
  step : σ → ε → Option σ

namespace System

variable {σ ε : Type*} (M : System σ ε)

/-- Execute a list of events from `s`; `none` as soon as one of them is not enabled. -/
def run (s : σ) : List ε → Option σ
  | [] => some s
  | e :: es => (M.step s e).bind fun t => run t es

/-- Every step of the run of `es` from `s` satisfies `P`. -/
def Along (P : σ → ε → σ → Prop) (s : σ) : List ε → Prop
  | [] => True
  | e :: es => ∀ t, M.step s e = some t → P s e t ∧ Along P t es

/-- Every event of the run is taken from a state in which `C` admits it. -/
def Guarded (C : σ → ε → Prop) (s : σ) (es : List ε) : Prop :=
  M.Along (fun s e _ => C s e) s es

instance decidableAlong (P : σ → ε → σ → Prop) [∀ s e t, Decidable (P s e t)] :
    ∀ (es : List ε) (s : σ), Decidable (M.Along P s es)
  | [], _ => isTrue trivial
  | e :: es, s =>
    match h : M.step s e with
    | none => isTrue fun t ht => by simp [h] at ht
    | some t =>
      have := decidableAlong P es t
      decidable_of_iff (P s e t ∧ M.Along P t es)
        ⟨fun hP u hu => by obtain rfl : t = u := by simpa [h] using hu
                           exact hP,
         fun hP => hP t h⟩

instance decidableGuarded (C : σ → ε → Prop) [∀ s e, Decidable (C s e)] (s : σ) (es : List ε) :
    Decidable (M.Guarded C s es) :=
  M.decidableAlong _ es s

@[simp] theorem run_nil (s : σ) : M.run s [] = some s := rfl

theorem run_cons (s : σ) (e : ε) (es : List ε) :
    M.run s (e :: es) = (M.step s e).bind fun t => M.run t es := rfl

/-- A run of `e :: es` is a step of `e` followed by a run of `es`. -/
theorem run_cons_eq_some {s u : σ} {e : ε} {es : List ε} :
    M.run s (e :: es) = some u ↔ ∃ t, M.step s e = some t ∧ M.run t es = some u := by
  simp [run_cons, Option.bind_eq_some_iff]

@[simp] theorem along_nil (P : σ → ε → σ → Prop) (s : σ) : M.Along P s [] := trivial

theorem along_mono {P P' : σ → ε → σ → Prop} (hPP : ∀ s e t, P s e t → P' s e t) {s : σ}
    {es : List ε} (h : M.Along P s es) : M.Along P' s es := by
  induction es generalizing s with
  | nil => trivial
  | cons e es ih => exact fun t ht => ⟨hPP s e t (h t ht).1, ih (h t ht).2⟩

theorem guarded_of_forall {C : σ → ε → Prop} (h : ∀ s e, C s e) (s : σ) (es : List ε) :
    M.Guarded C s es := by
  induction es generalizing s with
  | nil => trivial
  | cons e es ih => exact fun t _ => ⟨h s e, ih t⟩

theorem guarded_of_forall_mem {C : σ → ε → Prop} {es : List ε} (h : ∀ e ∈ es, ∀ s, C s e) (s : σ) :
    M.Guarded C s es := by
  induction es generalizing s with
  | nil => trivial
  | cons e es ih =>
    have hrest := ih fun e he => h e (List.mem_cons_of_mem _ he)
    exact fun t _ => ⟨h e List.mem_cons_self s, hrest t⟩

theorem guarded_and {C D : σ → ε → Prop} {s : σ} {es : List ε} (hC : M.Guarded C s es)
    (hD : M.Guarded D s es) : M.Guarded (fun s e => C s e ∧ D s e) s es := by
  induction es generalizing s with
  | nil => trivial
  | cons e es ih =>
    intro t ht
    obtain ⟨hCe, hCes⟩ := hC t ht
    obtain ⟨hDe, hDes⟩ := hD t ht
    exact ⟨⟨hCe, hDe⟩, ih hCes hDes⟩

/-- **The run rule.** An invariant that every guarded step preserves holds at the end of every
guarded run. -/
theorem invariant_of_guarded {I : σ → Prop} {C : σ → ε → Prop}
    (hstep : ∀ s e t, I s → C s e → M.step s e = some t → I t) {s t : σ} {es : List ε}
    (hs : I s) (hC : M.Guarded C s es) (hrun : M.run s es = some t) : I t := by
  induction es generalizing s with
  | nil =>
    obtain rfl : s = t := by simpa using hrun
    exact hs
  | cons e es ih =>
    obtain ⟨u, hu, hrest⟩ := M.run_cons_eq_some.1 hrun
    obtain ⟨hCe, hCes⟩ := hC u hu
    exact ih (hstep s e u hs hCe hu) hCes hrest

/-- **The step rule.** A fact about single steps that follows from an invariant and the guard
holds of every step of a guarded run. -/
theorem along_of_guarded {I : σ → Prop} {C : σ → ε → Prop} {P : σ → ε → σ → Prop}
    (hstep : ∀ s e t, I s → C s e → M.step s e = some t → I t)
    (hP : ∀ s e t, I s → C s e → M.step s e = some t → P s e t) {s : σ} {es : List ε}
    (hs : I s) (hC : M.Guarded C s es) : M.Along P s es := by
  induction es generalizing s with
  | nil => trivial
  | cons e es ih =>
    intro t ht
    obtain ⟨hCe, hCes⟩ := hC t ht
    exact ⟨hP s e t hs hCe ht, ih (hstep s e t hs hCe ht) hCes⟩

/-- **The exact rule.** A fact about single steps that, under the invariant, is the guard itself
holds of every step of a run exactly if every step is guarded. -/
theorem along_iff_guarded {I : σ → Prop} {C : σ → ε → Prop} {P : σ → ε → σ → Prop}
    (hstep : ∀ s e t, I s → C s e → M.step s e = some t → I t)
    (hP : ∀ s e t, I s → M.step s e = some t → (P s e t ↔ C s e)) {s : σ} {es : List ε}
    (hs : I s) : M.Along P s es ↔ M.Guarded C s es := by
  constructor
  · intro h
    induction es generalizing s with
    | nil => trivial
    | cons e es ih =>
      intro t ht
      obtain ⟨hPe, hrest⟩ := h t ht
      have hC := (hP s e t hs ht).1 hPe
      exact ⟨hC, ih (hstep s e t hs hC ht) hrest⟩
  · exact M.along_of_guarded hstep (fun s e t hs hC ht => (hP s e t hs ht).2 hC) hs

/-- **The loss rule.** If a step leaves `L` true exactly when `L` was true and the guard admits the
step, a run leaves `L` true exactly when `L` was true and the run is guarded. -/
theorem iff_guarded {I L : σ → Prop} {C : σ → ε → Prop}
    (hstep : ∀ s e t, I s → M.step s e = some t → I t ∧ (L t ↔ L s ∧ C s e)) {s t : σ}
    {es : List ε} (hs : I s) (hrun : M.run s es = some t) :
    I t ∧ (L t ↔ L s ∧ M.Guarded C s es) := by
  induction es generalizing s with
  | nil =>
    obtain rfl : s = t := by simpa using hrun
    exact ⟨hs, (and_iff_left trivial).symm⟩
  | cons e es ih =>
    obtain ⟨u, hu, hrest⟩ := M.run_cons_eq_some.1 hrun
    obtain ⟨hI, hL⟩ := hstep s e u hs hu
    obtain ⟨hI', hL'⟩ := ih hI hrest
    refine ⟨hI', hL'.trans ?_⟩
    rw [hL, and_assoc]
    refine and_congr_right fun _ => ⟨fun ⟨hC, hes⟩ v hv => ?_, fun h => h u hu⟩
    obtain rfl : u = v := Option.some.inj (hu.symm.trans hv)
    exact ⟨hC, hes⟩

end System

end Transition
