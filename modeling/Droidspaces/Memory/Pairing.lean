import Mathlib.Logic.Function.Basic

/-!
# Pointers that point at each other

Two kinds of objects hold a pointer to one another, or none.  `Paired f g` says that the pointers
`f` of the one and `g` of the other agree; an object that is gone points at nothing, so that no
pointer dangles either.

Setting both pointers keeps this exactly when the one that is set first was free (`link_iff`), and
clearing both always does (`Paired.unlink`).  Whoever goes away without clearing what points at it
leaves a dangling pointer, unless nothing did (`forget_iff`).
-/

namespace Memory

open Function

variable {α β : Type*} {f : α → Option β} {g : β → Option α} {a : α} {b : β}

/-- Each points at the other. -/
def Paired (f : α → Option β) (g : β → Option α) : Prop := ∀ a b, f a = some b ↔ g b = some a

theorem Paired.symm (h : Paired f g) : Paired g f := fun b a => (h a b).symm

theorem paired_none : Paired (fun _ : α => (none : Option β)) fun _ => none := by
  simp [Paired]

/-- Nobody points at an object that points at nothing. -/
theorem Paired.ne_some (h : Paired f g) (hb : g b = none) (a : α) : f a ≠ some b := by
  intro hab
  have hba := (h a b).1 hab
  simp [hb] at hba

variable [DecidableEq α]

/-- Nothing may point at an object that does not point back. -/
theorem not_paired_update (hb : g b = none) : ¬ Paired (update f a (some b)) g := by
  intro h
  have hback := (h a b).1 (update_self a (some b) f)
  simp [hb] at hback

/-- An object may go without notice exactly when it has no partner. -/
theorem Paired.forget_iff (h : Paired f g) : Paired (update f a none) g ↔ f a = none := by
  constructor
  · intro hforget
    by_contra hne
    obtain ⟨b, hb⟩ := Option.ne_none_iff_exists'.1 hne
    have hfwd := (hforget a b).2 ((h a b).1 hb)
    simp at hfwd
  · intro ha
    rwa [← ha, update_eq_self]

variable [DecidableEq β]

/-- Two objects without a partner may be linked. -/
theorem Paired.link (h : Paired f g) (ha : f a = none) (hb : g b = none) :
    Paired (update f a (some b)) (update g b (some a)) := by
  intro a' b'
  have hb' := h.ne_some hb a'
  have ha' := h.symm.ne_some ha b'
  by_cases haa : a' = a
  · subst haa
    by_cases hbb : b' = b
    · simp [hbb]
    · simp [hbb, Ne.symm hbb, ha']
  · by_cases hbb : b' = b
    · subst hbb
      simp [haa, Ne.symm haa, hb']
    · simp [haa, hbb, h a' b']

/-- A new object may be linked to exactly those that have no partner. -/
theorem Paired.link_iff (h : Paired f g) (hb : g b = none) :
    Paired (update f a (some b)) (update g b (some a)) ↔ f a = none := by
  refine ⟨fun hlink => ?_, fun ha => h.link ha hb⟩
  by_contra hne
  obtain ⟨b₀, hb₀⟩ := Option.ne_none_iff_exists'.1 hne
  have hne₀ : b₀ ≠ b := by
    rintro rfl
    exact h.ne_some hb a hb₀
  -- The former partner still points here.
  have hback : update g b (some a) b₀ = some a := by
    rw [update_of_ne hne₀]
    exact (h a b₀).1 hb₀
  have hfwd := (hlink a b₀).2 hback
  rw [update_self] at hfwd
  exact hne₀ (Option.some.inj hfwd).symm

/-- An object takes its pointers with it, in both directions. -/
theorem Paired.unlink (h : Paired f g) (hab : f a = some b) :
    Paired (update f a none) (update g b none) := by
  intro a' b'
  by_cases haa : a' = a
  · subst haa
    by_cases hbb : b' = b
    · simp [hbb]
    · have hne : g b' ≠ some a' := fun hba =>
        hbb (Option.some.inj ((hab.symm.trans ((h a' b').2 hba)).symm))
      simp [hbb, hne]
  · by_cases hbb : b' = b
    · subst hbb
      have hne : f a' ≠ some b' := fun hab' => by
        have hba := ((h a' b').1 hab').symm.trans ((h a b').1 hab)
        exact haa (Option.some.inj hba)
      simp [haa, hne]
    · simp [haa, hbb, h a' b']

/-- What an object points at is cleared, and the pointer back, whether or not there is one. -/
theorem Paired.clear (h : Paired f g) (a : α) :
    Paired (update f a none) fun b => if f a = some b then none else g b := by
  cases hab : f a with
  | none =>
    simp only [reduceCtorEq, if_false]
    exact h.forget_iff.2 hab
  | some b =>
    have hback : (fun b' => if some b = some b' then none else g b') = update g b none := by
      funext b'
      by_cases hb : b' = b
      · simp [hb]
      · simp [hb, Ne.symm hb]
    rw [hback]
    exact h.unlink hab

end Memory
