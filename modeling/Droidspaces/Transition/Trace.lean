import Droidspaces.Transition.Program

/-!
# What a program has done

A program talks to an environment that may give any answers.  `note` collects what matters of the
operations and their answers so far; `Traced` says that each operation is in order by what was noted
before it, and that what was noted in the end is what was meant.  It is a triple over traces: the
rules are those of sequencing, of a choice and of one operation.
-/

namespace Transition.Prog

variable {Op : Type} {Res : Op → Type} {α β γ : Type}
variable (note : γ → (op : Op) → Res op → γ) (A : γ → Op → Prop)

def Traced (E : γ → α → Prop) : γ → Prog Op Res α → Prop
  | g, ret a => E g a
  | g, call op k => A g op ∧ ∀ r, Traced E (note g op r) (k r)

variable {note A} {E F : γ → α → Prop} {g : γ} {m : Prog Op Res α}

theorem traced_ret {a : α} (h : E g a) : Traced note A E g (ret a) := h

theorem Traced.mono (h : m.Traced note A E g) (hEF : ∀ g a, E g a → F g a) :
    m.Traced note A F g := by
  induction m generalizing g with
  | ret a => exact hEF g a h
  | call op k ih => exact ⟨h.1, fun r => ih r (h.2 r)⟩

theorem traced_bind {f : α → Prog Op Res β} {E : γ → β → Prop}
    (h : m.Traced note A (fun g a => (f a).Traced note A E g) g) :
    (m >>= f).Traced note A E g := by
  induction m generalizing g with
  | ret a => exact h
  | call op k ih => exact ⟨h.1, fun r => ih r (h.2 r)⟩

/-- One operation, and what comes behind it. -/
theorem traced_perform {op : Op} {k : Res op → Prog Op Res β} {E : γ → β → Prop} (hop : A g op)
    (h : ∀ r, (k r).Traced note A E (note g op r)) :
    (perform op >>= k).Traced note A E g := ⟨hop, h⟩

/-- A program of operations that keep `I`, and are in order by it. -/
theorem Only.traced {B : Op → Prop} {I : γ → Prop} (hop : ∀ g op, I g → B op → A g op)
    (hnote : ∀ g op r, I g → B op → I (note g op r)) (hm : m.Only B) (hg : I g) :
    m.Traced note A (fun g _ => I g) g := by
  induction m generalizing g with
  | ret a => exact hg
  | call op k ih => exact ⟨hop g op hg hm.1, fun r => ih r (hm.2 r) (hnote g op r hg hm.1)⟩

/-- What was noted in a run. -/
def noted {σ : Type} (perform : σ → (op : Op) → σ × Res op) (note : γ → (op : Op) → Res op → γ) :
    Prog Op Res α → σ → γ → γ
  | ret _, _, g => g
  | call op k, w, g =>
    noted perform note (k (perform w op).2) (perform w op).1 (note g op (perform w op).2)

/-- A run ends with what was meant. -/
theorem Traced.runIn {σ : Type} {perform : σ → (op : Op) → σ × Res op} {w : σ}
    (h : m.Traced note A E g) : E (m.noted perform note w g) (m.runIn perform w).2 := by
  induction m generalizing w g with
  | ret a => exact h
  | call op k ih => exact ih _ (h.2 _)

end Transition.Prog
