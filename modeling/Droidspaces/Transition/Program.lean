import Mathlib.Logic.Function.Basic

/-!
# Sequential programs over a set of operations

A `Prog Op Res α` is a sequential program whose atomic actions are the operations `Op`: it either
returns, or performs one operation and goes on with the answer.  What an operation does is not
said here; `Transition/Machine.lean` runs many programs in one world.

Source functions are written as `do` blocks over `perform`, so a definition can be compared with
the code line by line, while the tree behind it gives one step for every operation.
-/

namespace Transition

/-- A program: a tree of operations, branching on their answers. -/
inductive Prog (Op : Type) (Res : Op → Type) (α : Type) where
  | ret (a : α)
  | call (op : Op) (k : Res op → Prog Op Res α)

namespace Prog

variable {Op : Type} {Res : Op → Type} {α β γ : Type}

def bind : Prog Op Res α → (α → Prog Op Res β) → Prog Op Res β
  | ret a, f => f a
  | call op k, f => call op fun r => (k r).bind f

instance : Monad (Prog Op Res) where
  pure := ret
  bind := bind

/-- The program that performs one operation and returns its answer. -/
def perform (op : Op) : Prog Op Res (Res op) := call op ret

@[simp] theorem pure_eq (a : α) : (Pure.pure a : Prog Op Res α) = ret a := rfl

@[simp] theorem ret_bind (a : α) (f : α → Prog Op Res β) : ret a >>= f = f a := rfl

@[simp] theorem call_bind (op : Op) (k : Res op → Prog Op Res α) (f : α → Prog Op Res β) :
    call op k >>= f = call op fun r => k r >>= f := rfl

@[simp] theorem perform_bind (op : Op) (f : Res op → Prog Op Res α) :
    perform op >>= f = call op f := rfl

@[simp] theorem bind_assoc (m : Prog Op Res α) (f : α → Prog Op Res β)
    (g : β → Prog Op Res γ) : m >>= f >>= g = m >>= fun a => f a >>= g := by
  induction m with
  | ret a => rfl
  | call op k ih =>
    simp only [call_bind]
    congr 1
    funext r
    exact ih r

/-! ## One program by itself -/

/-- What the program returns when every operation has a fixed answer. -/
def eval (answer : (op : Op) → Res op) : Prog Op Res α → α
  | ret a => a
  | call op k => (k (answer op)).eval answer

@[simp] theorem eval_ret (answer : (op : Op) → Res op) (a : α) :
    (ret a : Prog Op Res α).eval answer = a := rfl

@[simp] theorem eval_call (answer : (op : Op) → Res op) (op : Op) (k : Res op → Prog Op Res α) :
    (call op k).eval answer = (k (answer op)).eval answer := rfl

@[simp] theorem eval_bind (answer : (op : Op) → Res op) (m : Prog Op Res α)
    (f : α → Prog Op Res β) :
    (m >>= f).eval answer = (f (m.eval answer)).eval answer := by
  induction m with
  | ret a => rfl
  | call op k ih => exact ih (answer op)

/-- Run the program to its end with nobody in between. -/
def runIn {σ : Type} (perform : σ → (op : Op) → σ × Res op) : Prog Op Res α → σ → σ × α
  | ret a, w => (w, a)
  | call op k, w => (k (perform w op).2).runIn perform (perform w op).1

theorem runIn_bind {σ : Type} (perform : σ → (op : Op) → σ × Res op) (m : Prog Op Res α)
    (f : α → Prog Op Res β) (w : σ) :
    (m >>= f).runIn perform w = (f (m.runIn perform w).2).runIn perform (m.runIn perform w).1 := by
  induction m generalizing w with
  | ret a => rfl
  | call op k ih => exact ih (perform w op).2 (perform w op).1

/-- Whatever the answers, the program performs only operations with the property `A`. -/
def Only (A : Op → Prop) : Prog Op Res α → Prop
  | ret _ => True
  | call op k => A op ∧ ∀ r, (k r).Only A

theorem only_bind {A : Op → Prop} {m : Prog Op Res α} {f : α → Prog Op Res β} (hm : m.Only A)
    (hf : ∀ a, (f a).Only A) : (m >>= f).Only A := by
  induction m with
  | ret a => exact hf a
  | call op k ih => exact ⟨hm.1, fun r => ih r (hm.2 r)⟩

theorem only_ite {A : Op → Prop} {c : Prop} [Decidable c] {m m' : Prog Op Res α} (hm : m.Only A)
    (hm' : m'.Only A) : (if c then m else m').Only A := by
  split
  · exact hm
  · exact hm'

theorem Only.mono {A B : Op → Prop} (hAB : ∀ op, A op → B op) {m : Prog Op Res α}
    (hm : m.Only A) : m.Only B := by
  induction m with
  | ret a => trivial
  | call op k ih => exact ⟨hAB op hm.1, fun r => ih r (hm.2 r)⟩

theorem only_true (m : Prog Op Res α) : m.Only fun _ => True := by
  induction m with
  | ret a => trivial
  | call op k ih => exact ⟨trivial, ih⟩

theorem only_perform {A : Op → Prop} {op : Op} (h : A op) :
    (perform op : Prog Op Res (Res op)).Only A :=
  ⟨h, fun _ => trivial⟩

/-- What all operations of a program preserve, the program preserves. -/
theorem Only.runIn {σ : Type} {perform : σ → (op : Op) → σ × Res op} {A : Op → Prop} {I : σ → Prop}
    (hop : ∀ w op, I w → A op → I (perform w op).1) {m : Prog Op Res α} (hm : m.Only A) {w : σ}
    (hw : I w) : I (m.runIn perform w).1 := by
  induction m generalizing w with
  | ret a => exact hw
  | call op k ih => exact ih _ (hm.2 _) (hop w op hw hm.1)

/-- Whatever the answers, every operation has a property that may depend on what was noted of the
operations before it. -/
def Follows {γ : Type} (note : γ → (op : Op) → Res op → γ) (A : γ → Op → Prop) :
    γ → Prog Op Res α → Prop
  | _, ret _ => True
  | g, call op k => A g op ∧ ∀ r, (k r).Follows note A (note g op r)

/-- Where it does not matter what was noted. -/
theorem follows_bind {γ : Type} {note : γ → (op : Op) → Res op → γ} {A : γ → Op → Prop}
    {m : Prog Op Res α} {f : α → Prog Op Res β} {g : γ} (hm : m.Follows note A g)
    (hf : ∀ a g, (f a).Follows note A g) : (m >>= f).Follows note A g := by
  induction m generalizing g with
  | ret a => exact hf a g
  | call op k ih => exact ⟨hm.1, fun r => ih r (hm.2 r)⟩

theorem follows_forM {ι γ : Type} {note : γ → (op : Op) → Res op → γ} {A : γ → Op → Prop}
    {xs : List ι} {f : ι → Prog Op Res PUnit} (hf : ∀ x ∈ xs, ∀ g, (f x).Follows note A g) (g : γ) :
    (xs.forM f).Follows note A g := by
  induction xs generalizing g with
  | nil => trivial
  | cons x xs ih =>
    obtain ⟨hx, hxs⟩ := List.forall_mem_cons.1 hf
    exact follows_bind (hx g) fun _ => ih hxs

/-- The same program over a larger set of operations. -/
def embed {Op' : Type} {Res' : Op' → Type} (f : Op → Op') (g : (op : Op) → Res' (f op) → Res op) :
    Prog Op Res α → Prog Op' Res' α
  | ret a => ret a
  | call op k => call (f op) fun r => (k (g op r)).embed f g

theorem only_embed {Op' : Type} {Res' : Op' → Type} {f : Op → Op'}
    {g : (op : Op) → Res' (f op) → Res op} {A : Op' → Prop} (h : ∀ op, A (f op))
    (m : Prog Op Res α) : (m.embed f g).Only A := by
  induction m with
  | ret a => trivial
  | call op k ih => exact ⟨h op, fun r => ih (g op r)⟩

/-- A property of programs that a sequence has when its parts have it. -/
structure Compositional (R : (α : Type) → Prog Op Res α → Prop) : Prop where
  ret : ∀ {α : Type} (a : α), R α (.ret a)
  bind : ∀ {α β : Type} (m : Prog Op Res α) (f : α → Prog Op Res β),
    R α m → (∀ a, R β (f a)) → R β (m >>= f)

end Prog

end Transition
