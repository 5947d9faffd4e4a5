import Mathlib.Control.Basic

/-!
# Sequential code that can give up

An `Attempt ε σ α` runs in a state `σ` and either returns or gives up with an `ε`; giving up keeps
the state as it is, so that whoever catches it sees what was done so far.  Source functions with
early returns, exceptions or a cleanup label are written as `do` blocks in it.

`wp m Q E` is the weakest precondition: `Q` for a return, `E` for giving up.  The rules follow the
syntax of the program.
-/

namespace Sequential

/-- Code over the state `σ` that may give up with an `ε`. -/
def Attempt (ε σ α : Type) := σ → Except ε α × σ

namespace Attempt

variable {ε σ α β : Type}

instance : Monad (Attempt ε σ) where
  pure a s := (.ok a, s)
  bind m f s :=
    match m s with
    | (.ok a, t) => f a t
    | (.error e, t) => (.error e, t)

instance : MonadStateOf σ (Attempt ε σ) where
  get s := (.ok s, s)
  set t _ := (.ok ⟨⟩, t)
  modifyGet f s := (.ok (f s).1, (f s).2)

instance : MonadExceptOf ε (Attempt ε σ) where
  throw e s := (.error e, s)
  tryCatch m h s :=
    match m s with
    | (.ok a, t) => (.ok a, t)
    | (.error e, t) => h e t

/-- Run `fin` after `m` either way; giving up there wins. -/
def andFinally (m : Attempt ε σ α) (fin : Attempt ε σ β) : Attempt ε σ α := fun s =>
  match m s with
  | (r, t) =>
    match fin t with
    | (.ok _, u) => (r, u)
    | (.error e, u) => (.error e, u)

/-- Give up if `c`. -/
def failIf (c : Prop) [Decidable c] (e : ε) : Attempt ε σ Unit := if c then throw e else pure ()

def wp (m : Attempt ε σ α) (Q : α → σ → Prop) (E : ε → σ → Prop) (s : σ) : Prop :=
  match m s with
  | (.ok a, t) => Q a t
  | (.error e, t) => E e t

variable {m n : Attempt ε σ α} {f : α → Attempt ε σ β} {Q R : α → σ → Prop} {E F : ε → σ → Prop}
  {s t : σ}

/-- What the precondition says of code that gave up. -/
theorem wp_error {e : ε} (h : m.wp Q E s) (hrun : m s = (.error e, t)) : E e t := by
  simpa [wp, hrun] using h

@[simp] theorem wp_pure (a : α) : wp (pure a : Attempt ε σ α) Q E s ↔ Q a s := Iff.rfl

@[simp] theorem wp_throw (e : ε) : wp (throw e : Attempt ε σ α) Q E s ↔ E e s := Iff.rfl

@[simp] theorem wp_get {Q : σ → σ → Prop} : wp (get : Attempt ε σ σ) Q E s ↔ Q s s := Iff.rfl

@[simp] theorem wp_modify {Q : PUnit → σ → Prop} (g : σ → σ) :
    wp (modify g : Attempt ε σ PUnit) Q E s ↔ Q ⟨⟩ (g s) := Iff.rfl

/-- **Sequencing.** -/
@[simp] theorem wp_bind {Q : β → σ → Prop} :
    wp (m >>= f) Q E s ↔ m.wp (fun a t => (f a).wp Q E t) E s := by
  have hrun : (m >>= f) s = match m s with
      | (.ok a, t) => f a t
      | (.error e, t) => (.error e, t) := rfl
  unfold wp
  rw [hrun]
  rcases m s with ⟨r, t⟩
  cases r <;> rfl

theorem wp_ite {c : Prop} [Decidable c] (hm : c → m.wp Q E s) (hn : ¬ c → n.wp Q E s) :
    wp (if c then m else n) Q E s := by
  split
  · next h => exact hm h
  · next h => exact hn h

theorem wp_failIf {c : Prop} [Decidable c] {Q : Unit → σ → Prop} {e : ε} (hE : c → E e s)
    (hQ : ¬ c → Q () s) : wp (failIf c e) Q E s :=
  wp_ite hE hQ

@[simp] theorem wp_tryCatch {h : ε → Attempt ε σ α} :
    wp (tryCatch m h) Q E s ↔ m.wp Q (fun e t => (h e).wp Q E t) s := by
  have hrun : (tryCatch m h) s = match m s with
      | (.ok a, t) => (.ok a, t)
      | (.error e, t) => h e t := rfl
  unfold wp
  rw [hrun]
  rcases m s with ⟨r, t⟩
  cases r <;> rfl

@[simp] theorem wp_andFinally {fin : Attempt ε σ β} : wp (m.andFinally fin) Q E s ↔
    m.wp (fun a t => fin.wp (fun _ => Q a) E t) (fun e t => fin.wp (fun _ => E e) E t) s := by
  unfold wp andFinally
  rcases m s with ⟨r, t⟩
  rcases hfin : fin t with ⟨r', u⟩
  cases r <;> cases r' <;> simp [hfin]

end Attempt

end Sequential
