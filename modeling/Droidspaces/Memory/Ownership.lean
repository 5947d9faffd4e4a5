import Mathlib.Logic.Basic

/-!
# Objects with one holder

`Owns holds live` says that every live object is held exactly once, and that nothing else is held.
Whoever frees what it holds then frees it once, and as long as the last holder does so nothing
leaks.

An object that is new is given to a holder, a holder lets go of what it holds, or passes it on;
each keeps this (`give`, `clear`, `pass`), so that what a program does to its pointers is put
together from these.
-/

namespace Memory

variable {σ α : Type*} {holds holds' : σ → α → Prop} {live live' : α → Prop}

/-- Each live object has one holder, and there are no other objects to hold. -/
structure Owns (holds : σ → α → Prop) (live : α → Prop) : Prop where
  unique : ∀ {x y v}, holds x v → holds y v → x = y
  live_iff : ∀ v, live v ↔ ∃ x, holds x v

namespace Owns

theorem live_of (h : Owns holds live) {x : σ} {v : α} (hx : holds x v) : live v :=
  (h.live_iff v).2 ⟨x, hx⟩

theorem congr (h : Owns holds live) (hholds : ∀ x v, holds' x v ↔ holds x v)
    (hlive : ∀ v, live' v ↔ live v) : Owns holds' live' where
  unique hx hy := h.unique ((hholds _ _).1 hx) ((hholds _ _).1 hy)
  live_iff v := by
    rw [hlive v, h.live_iff v]
    exact exists_congr fun x => (hholds x v).symm

/-- A new object is given to one holder. -/
theorem give (h : Owns holds live) {w : α} (hw : ¬ live w) (x : σ) :
    Owns (fun y v => holds y v ∨ y = x ∧ v = w) fun v => live v ∨ v = w where
  unique := by
    rintro y z v (hy | ⟨rfl, rfl⟩) (hz | ⟨rfl, hv⟩)
    · exact h.unique hy hz
    · exact absurd (h.live_of hy) (hv ▸ hw)
    · exact absurd (h.live_of hz) hw
    · rfl
  live_iff v := by
    rw [h.live_iff v]
    constructor
    · rintro (⟨y, hy⟩ | hv)
      · exact ⟨y, .inl hy⟩
      · exact ⟨x, .inr ⟨rfl, hv⟩⟩
    · rintro ⟨y, hy | ⟨-, hv⟩⟩
      · exact .inl ⟨y, hy⟩
      · exact .inr hv

/-- What one holder had is gone. -/
theorem clear (h : Owns holds live) (x : σ) :
    Owns (fun y v => y ≠ x ∧ holds y v) fun v => live v ∧ ¬ holds x v where
  unique hy hz := h.unique hy.2 hz.2
  live_iff v := by
    rw [h.live_iff v]
    constructor
    · rintro ⟨⟨y, hy⟩, hx⟩
      refine ⟨y, ?_, hy⟩
      rintro rfl
      exact hx hy
    · rintro ⟨y, hne, hy⟩
      exact ⟨⟨y, hy⟩, fun hx => hne (h.unique hy hx)⟩

/-- What one holder had passes to another that had nothing. -/
theorem pass (h : Owns holds live) {x y : σ} (hne : x ≠ y) (hy : ∀ v, ¬ holds y v) :
    Owns (fun z v => z ≠ x ∧ holds z v ∨ z = y ∧ holds x v) live where
  unique := by
    rintro z z' v (⟨hz, hold⟩ | ⟨rfl, hold⟩) (⟨hz', hold'⟩ | ⟨rfl, hold'⟩)
    · exact h.unique hold hold'
    · exact absurd (h.unique hold hold') hz
    · exact absurd (h.unique hold' hold) hz'
    · rfl
  live_iff v := by
    rw [h.live_iff v]
    constructor
    · rintro ⟨z, hz⟩
      by_cases hzx : z = x
      · subst hzx
        exact ⟨y, .inr ⟨rfl, hz⟩⟩
      · exact ⟨z, .inl ⟨hzx, hz⟩⟩
    · rintro ⟨z, ⟨-, hz⟩ | ⟨-, hx⟩⟩
      · exact ⟨z, hz⟩
      · exact ⟨x, hx⟩

end Owns

theorem owns_nothing : Owns (fun (_ : σ) (_ : α) => False) fun _ => False where
  unique hx := hx.elim
  live_iff v := by simp

end Memory
