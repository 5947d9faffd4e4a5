import Droidspaces.Memory.Pairing
import Droidspaces.Wayland.Surfaces
import Mathlib.Tactic.Cases
import Mathlib.Tactic.SplitIfs

/-!
# The role objects of a surface

A surface and its `ds_xdg_surface` point at each other, and so do that and its `ds_xdg_toplevel`.
Of the three destructors two clear the pointer of the partner they know of; nobody tells a partner
that is destroyed later.  So the pointers are good in every state of a run exactly if the client
destroys from the outside in, asks for each role once and the resources can be made
(`linked_iff`).  A client that just ends destroys in the order of its ids, the surface first.
-/

namespace Droidspaces.Wayland

open Function Memory Transition

namespace Server

variable (s : Server)

/-! ## The pointers -/

/-- `ds_surface.xdg_surf` -/
def xdgSurfOf (a : ℕ) : Option ℕ := (s.surface a).bind Surface.xdgSurf

/-- `ds_xdg_surface.surface` -/
def surfaceOf (x : ℕ) : Option ℕ := (s.xdgSurface x).map XdgSurface.surface

/-- `ds_xdg_surface.toplevel` -/
def toplevelOf (x : ℕ) : Option ℕ := (s.xdgSurface x).bind XdgSurface.toplevel

/-- `ds_xdg_toplevel.xdg_surf` -/
def xdgSurfaceOf (t : ℕ) : Option ℕ := (s.toplevel t).map Toplevel.xdgSurf

end Server

/-- The pointers of live objects point at live objects, which point back; and nothing else has
been followed. -/
structure Linked (s : Server) : Prop where
  roles : Paired s.xdgSurfOf s.surfaceOf
  toplevels : Paired s.toplevelOf s.xdgSurfaceOf
  /-- What `get_target_surface` and `ds_xdg_shell_resize_all` go through -/
  listed : ∀ a ∈ s.surfaces, (s.surface a).isSome
  active : ∀ a ∈ s.active, (s.surface a).isSome
  unfaulted : s.faulted = false

/-- Nothing lives where nothing has been allocated. -/
structure Fresh (s : Server) : Prop where
  surface : ∀ a, s.next ≤ a → s.surface a = none
  xdgSurface : ∀ a, s.next ≤ a → s.xdgSurface a = none
  toplevel : ∀ a, s.next ≤ a → s.toplevel a = none

structure RolesInv (s : Server) : Prop extends Linked s, Fresh s

/-- The requests after which the pointers are still good -/
def KeepsRoles (s : Server) : Request → Prop
  | .getXdgSurface a _ alloc => alloc ≠ .noMemory → s.xdgSurfOf a = none ∧ alloc = .created
  | .getToplevel x _ alloc => alloc ≠ .noMemory → s.toplevelOf x = none ∧ alloc = .created
  | .destroySurface a => s.xdgSurfOf a = none
  | .destroyXdgSurface x => s.toplevelOf x = none
  | _ => True

/-! ## Pointers of changed objects -/

section Pointers

variable {α : Type*} (heap : ℕ → Option α) (f : α → Option ℕ) (g : α → ℕ) (a : ℕ) (o : Option α)

theorem bind_update :
    (fun i => (update heap a o i).bind f) = update (fun i => (heap i).bind f) a (o.bind f) :=
  funext (apply_update (fun _ o => Option.bind o f) heap a o)

theorem map_update :
    (fun i => (update heap a o i).map g) = update (fun i => (heap i).map g) a (o.map g) :=
  funext (apply_update (fun _ o => Option.map g o) heap a o)

end Pointers

/-! ## What each handler does to the pointers -/

namespace Server

variable {s t : Server} {a x d : ℕ} {surf : Surface} {xdgSurf : XdgSurface} {toplevel : Toplevel}

theorem xdgSurfOf_eq (hsurf : s.surface a = some surf) : s.xdgSurfOf a = surf.xdgSurf := by
  simp [xdgSurfOf, hsurf]

theorem surfaceOf_eq (hxdg : s.xdgSurface x = some xdgSurf) :
    s.surfaceOf x = some xdgSurf.surface := by
  simp [surfaceOf, hxdg]

theorem toplevelOf_eq (hxdg : s.xdgSurface x = some xdgSurf) :
    s.toplevelOf x = xdgSurf.toplevel := by
  simp [toplevelOf, hxdg]

theorem xdgSurfaceOf_eq (htop : s.toplevel d = some toplevel) :
    s.xdgSurfaceOf d = some toplevel.xdgSurf := by
  simp [xdgSurfaceOf, htop]

/-- Only the fields of a surface that is there have changed. -/
theorem isSome_update (surf' : Surface) {b : ℕ} (hb : (s.surface b).isSome) :
    (update s.surface a (some surf') b).isSome := by
  by_cases hba : b = a
  · simp [hba]
  · simpa [hba] using hb

/-- The lists stay good as long as no surface goes away. -/
theorem linked_of_paired (hs : Linked s) (hroles : Paired t.xdgSurfOf t.surfaceOf)
    (htoplevels : Paired t.toplevelOf t.xdgSurfaceOf)
    (hlive : ∀ b, (s.surface b).isSome → (t.surface b).isSome)
    (hlisted : ∀ b ∈ t.surfaces, b ∈ s.surfaces) (hactive : ∀ b ∈ t.active, b ∈ s.active)
    (hfaulted : t.faulted = s.faulted) : Linked t where
  roles := hroles
  toplevels := htoplevels
  listed b hb := hlive b (hs.listed b (hlisted b hb))
  active b hb := hlive b (hs.active b (hactive b hb))
  unfaulted := hfaulted.trans hs.unfaulted

theorem linked_leaving (hs : Linked s) (leaving : Option ℕ) :
    Linked { s with leaving := leaving } :=
  ⟨hs.roles, hs.toplevels, hs.listed, hs.active, hs.unfaulted⟩

/-- What a handler sets beside the role leaves the pointers alone. -/
theorem xdgSurfOf_setSurface (hsurf : s.surface a = some surf) (surf' : Surface)
    (hsame : surf'.xdgSurf = surf.xdgSurf) :
    (fun b => (update s.surface a (some surf') b).bind Surface.xdgSurf) = s.xdgSurfOf := by
  rw [bind_update, Option.bind_some, hsame, ← xdgSurfOf_eq hsurf]
  exact update_eq_self a _

theorem linked_commit (hs : Linked s) (hsurf : s.surface a = some surf)
    (buffer : Option (ℤ × ℤ)) : Linked (s.commit a surf buffer) := by
  cases buffer with
  | none => exact hs
  | some size =>
    have hlive (b : ℕ) := @isSome_update s a { surf with isMapped := true } b
    constructor
    case roles =>
      have hfwd : (s.commit a surf (some size)).xdgSurfOf = s.xdgSurfOf :=
        xdgSurfOf_setSurface hsurf { surf with isMapped := true } rfl
      rw [hfwd]
      exact hs.roles
    case toplevels => exact hs.toplevels
    case listed => exact fun b hb => hlive b (hs.listed b hb)
    case active =>
      intro b hb
      apply hlive
      simp only [commit] at hb
      split_ifs at hb
      · obtain rfl := Option.some.inj hb
        rw [hsurf, Option.isSome_some]
      · exact hs.active b hb
    case unfaulted => exact hs.unfaulted

theorem linked_setRole (hs : Linked s) (hsurf : s.surface a = some surf) (role : Role) :
    Linked (s.setRole a surf role) := by
  have hfwd : (s.setRole a surf role).xdgSurfOf = s.xdgSurfOf :=
    xdgSurfOf_setSurface hsurf { surf with role := role } rfl
  apply linked_of_paired hs
  · rw [hfwd]
    exact hs.roles
  · exact hs.toplevels
  · exact fun b => isSome_update _
  · exact fun _ => id
  · exact fun _ => id
  · rfl

theorem linked_unmap (hs : Linked s) (hsurf : s.surface a = some surf) :
    Linked { s with surface := update s.surface a (some { surf with isMapped := false }) } := by
  have hfwd := xdgSurfOf_setSurface hsurf { surf with isMapped := false } rfl
  apply linked_of_paired hs
  · have hroles := hs.roles
    rw [← hfwd] at hroles
    exact hroles
  · exact hs.toplevels
  · exact fun b => isSome_update _
  · exact fun _ => id
  · exact fun _ => id
  · rfl

theorem linked_ackConfigure (hs : Linked s) (hxdg : s.xdgSurface x = some xdgSurf) :
    Linked { s with
      xdgSurface := update s.xdgSurface x (some { xdgSurf with configured := true }) } := by
  have hsurface : (fun y => (update s.xdgSurface x
      (some { xdgSurf with configured := true }) y).map XdgSurface.surface) = s.surfaceOf := by
    rw [map_update, Option.map_some, ← surfaceOf_eq hxdg]
    exact update_eq_self x _
  have htoplevel : (fun y => (update s.xdgSurface x
      (some { xdgSurf with configured := true }) y).bind XdgSurface.toplevel) = s.toplevelOf := by
    rw [bind_update, Option.bind_some, ← toplevelOf_eq hxdg]
    exact update_eq_self x _
  apply linked_of_paired hs
  · have hroles := hs.roles
    rw [← hsurface] at hroles
    exact hroles
  · have htoplevels := hs.toplevels
    rw [← htoplevel] at htoplevels
    exact htoplevels
  · exact fun _ => id
  · exact fun _ => id
  · exact fun _ => id
  · rfl

/-! ### New objects -/

theorem linked_createSurface (hs : RolesInv s) (client id : ℕ) (alloc : Alloc) :
    Linked (s.createSurface client id alloc) := by
  cases alloc with
  | noMemory => exact linked_leaving hs.toLinked _
  | noResource => exact linked_leaving hs.toLinked _
  | created =>
    have hlive (b : ℕ) (hb : (s.surface b).isSome) :
        (update s.surface s.next (some ⟨client, id, .none, none, false⟩) b).isSome := by
      by_cases hbn : b = s.next
      · simp [hbn]
      · simpa [hbn] using hb
    constructor
    case roles =>
      have hfwd : (s.createSurface client id .created).xdgSurfOf = s.xdgSurfOf := by
        have hnone : s.xdgSurfOf s.next = none := by
          rw [xdgSurfOf, hs.surface _ (Nat.le_refl _), Option.bind_none]
        refine (bind_update _ _ _ _).trans ?_
        rw [Option.bind_some, ← hnone]
        exact update_eq_self s.next _
      rw [hfwd]
      exact hs.roles
    case toplevels => exact hs.toplevels
    case listed =>
      intro b hb
      rcases List.mem_cons.1 hb with rfl | hb
      · simp [createSurface]
      · exact hlive b (hs.listed b hb)
    case active => exact fun b hb => hlive b (hs.active b hb)
    case unfaulted => exact hs.unfaulted

/-- A role may be asked for where there is none; and its resource has to be made, since the pointer
to it is not taken back. -/
theorem linked_getXdgSurface_iff (hs : RolesInv s) (surf : Surface) (id : ℕ) (alloc : Alloc) :
    Linked (s.getXdgSurface a surf id alloc) ↔
      (alloc ≠ .noMemory → s.xdgSurfOf a = none ∧ alloc = .created) := by
  have hnext : s.surfaceOf s.next = none := by rw [surfaceOf, hs.xdgSurface _ (Nat.le_refl _)]; rfl
  cases alloc with
  | noMemory => exact iff_of_true (linked_leaving hs.toLinked _) (by simp)
  | noResource =>
    refine iff_of_false (fun hlinked => ?_) (by simp)
    have hroles := hlinked.roles
    have hfwd : (s.getXdgSurface a surf id .noResource).xdgSurfOf =
        update s.xdgSurfOf a (some s.next) := bind_update _ _ _ _
    have hback : (s.getXdgSurface a surf id .noResource).surfaceOf s.next = none := by
      simp [surfaceOf, getXdgSurface, postNoMemory]
    rw [hfwd] at hroles
    exact not_paired_update hback hroles
  | created =>
    have hfwd : (s.getXdgSurface a surf id .created).xdgSurfOf =
        update s.xdgSurfOf a (some s.next) := bind_update _ _ _ _
    have hback : (s.getXdgSurface a surf id .created).surfaceOf =
        update s.surfaceOf s.next (some a) := map_update _ _ _ _
    have htop : (s.getXdgSurface a surf id .created).toplevelOf = s.toplevelOf := by
      have hnone : s.toplevelOf s.next = none := by
        rw [toplevelOf, hs.xdgSurface _ (Nat.le_refl _), Option.bind_none]
      refine (bind_update _ _ _ _).trans ?_
      rw [if_pos rfl, Option.bind_some, ← hnone]
      exact update_eq_self s.next _
    have hroles := hs.roles.link_iff hnext (a := a)
    rw [← hfwd, ← hback] at hroles
    constructor
    · exact fun hlinked _ => ⟨hroles.1 hlinked.roles, rfl⟩
    · intro hfree
      apply linked_of_paired hs.toLinked (hroles.2 (hfree (by decide)).1)
      · rw [htop]
        exact hs.toplevels
      · exact fun b => isSome_update _
      · exact fun _ hb => hb
      · exact fun _ hb => hb
      · rfl

/-- The same for a window. -/
theorem linked_getToplevel_iff (hs : RolesInv s) (hxdg : s.xdgSurface x = some xdgSurf) (id : ℕ)
    (alloc : Alloc) : Linked (s.getToplevel x xdgSurf id alloc) ↔
      (alloc ≠ .noMemory → s.toplevelOf x = none ∧ alloc = .created) := by
  have hnext : s.xdgSurfaceOf s.next = none := by
    rw [xdgSurfaceOf, hs.toplevel _ (Nat.le_refl _), Option.map_none]
  cases alloc with
  | noMemory => exact iff_of_true (linked_leaving hs.toLinked _) (by simp)
  | noResource =>
    refine iff_of_false (fun hlinked => ?_) (by simp)
    have htoplevels := hlinked.toplevels
    have hfwd : (s.getToplevel x xdgSurf id .noResource).toplevelOf =
        update s.toplevelOf x (some s.next) := bind_update _ _ _ _
    have hback : (s.getToplevel x xdgSurf id .noResource).xdgSurfaceOf s.next = none := by
      simp [xdgSurfaceOf, getToplevel, postNoMemory]
    rw [hfwd] at htoplevels
    exact not_paired_update hback htoplevels
  | created =>
    -- The surface is there, since it points back.
    have hlives : (s.surface xdgSurf.surface).isSome = true := by
      have hpoints := (hs.roles _ _).2 (surfaceOf_eq hxdg)
      rw [xdgSurfOf, Option.bind_eq_some_iff] at hpoints
      obtain ⟨surf, hsurf, -⟩ := hpoints
      rw [hsurf, Option.isSome_some]
    let made : Server := { s with
      next := s.next + 1
      xdgSurface := update s.xdgSurface x (some { xdgSurf with toplevel := some s.next })
      toplevel := update s.toplevel s.next (some ⟨xdgSurf.client, id, x⟩) }
    have hmade : s.getToplevel x xdgSurf id .created = made := if_pos hlives
    have hfwd : made.toplevelOf = update s.toplevelOf x (some s.next) := bind_update _ _ _ _
    have hback : made.xdgSurfaceOf = update s.xdgSurfaceOf s.next (some x) := map_update _ _ _ _
    have hsurface : made.surfaceOf = s.surfaceOf := by
      refine (map_update _ _ _ _).trans ?_
      rw [Option.map_some, ← surfaceOf_eq hxdg]
      exact update_eq_self x _
    have htoplevels := hs.toplevels.link_iff hnext (a := x)
    rw [← hfwd, ← hback] at htoplevels
    rw [hmade]
    constructor
    · exact fun hlinked _ => ⟨htoplevels.1 hlinked.toplevels, rfl⟩
    · intro hfree
      refine linked_of_paired hs.toLinked ?_ (htoplevels.2 (hfree (by decide)).1)
        (fun _ hb => hb) (fun _ hb => hb) (fun _ hb => hb) rfl
      rw [hsurface]
      exact hs.roles

/-! ### Objects that go -/

/-- A surface does not tell its role object that it goes. -/
theorem linked_freeSurface_iff (hs : Linked s) :
    Linked ((s.dropActive a).freeSurface a) ↔ s.xdgSurfOf a = none := by
  have hfwd : ((s.dropActive a).freeSurface a).xdgSurfOf = update s.xdgSurfOf a none :=
    bind_update _ _ _ _
  have hroles := hs.roles.forget_iff (a := a)
  rw [← hfwd] at hroles
  have hlive {b : ℕ} (hne : b ≠ a) (hb : (s.surface b).isSome) :
      (update s.surface a none b).isSome := by
    simpa [hne] using hb
  constructor
  · exact fun hlinked => hroles.1 hlinked.roles
  · intro hfree
    constructor
    case roles => exact hroles.2 hfree
    case toplevels => exact hs.toplevels
    case listed =>
      intro b hb
      obtain ⟨hmem, hne⟩ := List.mem_filter.1 hb
      exact hlive (of_decide_eq_true hne) (hs.listed b hmem)
    case active =>
      intro b hb
      have hdrop : b ∈ if s.active = some a then none else s.active := hb
      split_ifs at hdrop with hactive
      · cases hdrop
      · refine hlive ?_ (hs.active b hdrop)
        rintro rfl
        exact hactive hdrop
    case unfaulted => exact hs.unfaulted

/-- It clears the pointer of the surface, but not that of the window. -/
theorem linked_freeXdgSurface_iff (hs : Linked s) (hxdg : s.xdgSurface x = some xdgSurf) :
    Linked (s.freeXdgSurface x xdgSurf) ↔ s.toplevelOf x = none := by
  have hpoints := (hs.roles _ _).2 (surfaceOf_eq hxdg)
  obtain ⟨surf, hsurf, -⟩ := Option.bind_eq_some_iff.1 hpoints
  let freed : Server := { s with
    surface := update s.surface xdgSurf.surface (some { surf with xdgSurf := none })
    xdgSurface := update s.xdgSurface x none }
  have hfreed : s.freeXdgSurface x xdgSurf = freed := by rw [freeXdgSurface, hsurf]
  have hfwd : freed.xdgSurfOf = update s.xdgSurfOf xdgSurf.surface none := bind_update _ _ _ _
  have hback : freed.surfaceOf = update s.surfaceOf x none := map_update _ _ _ _
  have htop : freed.toplevelOf = update s.toplevelOf x none := bind_update _ _ _ _
  have htoplevels := hs.toplevels.forget_iff (a := x)
  rw [← htop] at htoplevels
  rw [hfreed]
  constructor
  · exact fun hlinked => htoplevels.1 hlinked.toplevels
  · intro hfree
    refine linked_of_paired hs ?_ (htoplevels.2 hfree) (fun b => isSome_update _)
      (fun _ hb => hb) (fun _ hb => hb) rfl
    rw [hfwd, hback]
    exact hs.roles.unlink hpoints

theorem linked_freeToplevel (hs : Linked s) (htop : s.toplevel d = some toplevel) :
    Linked (s.freeToplevel d toplevel) := by
  have hpoints := (hs.toplevels _ _).2 (xdgSurfaceOf_eq htop)
  obtain ⟨xdgSurf, hxdg, -⟩ := Option.bind_eq_some_iff.1 hpoints
  let freed : Server := { s with
    xdgSurface := update s.xdgSurface toplevel.xdgSurf (some { xdgSurf with toplevel := none })
    toplevel := update s.toplevel d none }
  have hfreed : s.freeToplevel d toplevel = freed := by rw [freeToplevel, hxdg]
  have hfwd : freed.toplevelOf = update s.toplevelOf toplevel.xdgSurf none :=
    bind_update _ _ _ _
  have hback : freed.xdgSurfaceOf = update s.xdgSurfaceOf d none := map_update _ _ _ _
  have hsurface : freed.surfaceOf = s.surfaceOf := by
    refine (map_update _ _ _ _).trans ?_
    rw [Option.map_some, ← surfaceOf_eq hxdg]
    exact update_eq_self _ _
  rw [hfreed]
  refine linked_of_paired hs ?_ ?_ (fun _ hb => hb) (fun _ hb => hb) (fun _ hb => hb) rfl
  · rw [hsurface]
    exact hs.roles
  · rw [hfwd, hback]
    exact hs.toplevels.unlink hpoints

/-! ### Going through the list -/

theorem targetLives_of_linked (hs : Linked s) : s.targetLives = true := by
  simp only [targetLives, Bool.and_eq_true, List.all_eq_true, Option.all_eq_true]
  exact ⟨hs.active, hs.listed⟩

theorem targetLives_dropActive (hs : Linked s) : (s.dropActive a).targetLives = true := by
  simp only [targetLives, Bool.and_eq_true, List.all_eq_true, Option.all_eq_true]
  refine ⟨fun b hb => ?_, hs.listed⟩
  have hdrop : b ∈ if s.active = some a then none else s.active := hb
  split_ifs at hdrop
  · cases hdrop
  · exact hs.active b hdrop

/-- Every pointer that `ds_xdg_shell_resize_all` follows is good. -/
theorem resize_of_linked (hs : Linked s) (ha : a ∈ s.surfaces) : (s.resize a).isSome = true := by
  obtain ⟨surf, hsurf⟩ := Option.isSome_iff_exists.1 (hs.listed a ha)
  rw [resize, hsurf, Option.bind_some]
  cases hx : surf.xdgSurf with
  | none => rfl
  | some x =>
    have hback := (hs.roles a x).1 ((xdgSurfOf_eq hsurf).trans hx)
    obtain ⟨xdgSurf, hxdg, -⟩ := Option.map_eq_some_iff.1 hback
    simp only [hxdg, Option.bind_some]
    cases hd : xdgSurf.toplevel with
    | none => rfl
    | some d =>
      have hback := (hs.toplevels x d).1 ((toplevelOf_eq hxdg).trans hd)
      obtain ⟨toplevel, htop, -⟩ := Option.map_eq_some_iff.1 hback
      simp [htop]

end Server

/-! ## Every request -/

section Fresh

variable {α : Type*} {heap : ℕ → Option α} {n a : ℕ}

/-- What changes a live object makes none beyond the others. -/
theorem fresh_update (hfresh : ∀ b, n ≤ b → heap b = none) {v : α} (ha : heap a = some v)
    (o : Option α) (b : ℕ) (hb : n ≤ b) : update heap a o b = none := by
  have hne : b ≠ a := by
    rintro rfl
    rw [hfresh b hb] at ha
    cases ha
  rw [update_of_ne hne]
  exact hfresh b hb

theorem fresh_update_next (hfresh : ∀ b, n ≤ b → heap b = none) (o : Option α) (b : ℕ)
    (hb : n + 1 ≤ b) : update heap n o b = none := by
  rw [update_of_ne (by omega)]
  exact hfresh b (by omega)

end Fresh

namespace Server

variable {s t : Server} {a x d : ℕ} {surf : Surface} {xdgSurf : XdgSurface} {toplevel : Toplevel}

theorem fresh_createSurface (hs : Fresh s) (client id : ℕ) (alloc : Alloc) :
    Fresh (s.createSurface client id alloc) := by
  cases alloc with
  | noMemory => exact ⟨hs.surface, hs.xdgSurface, hs.toplevel⟩
  | noResource => exact ⟨hs.surface, hs.xdgSurface, hs.toplevel⟩
  | created =>
    exact ⟨fresh_update_next hs.surface _, fun b hb => hs.xdgSurface b (Nat.le_of_succ_le hb),
      fun b hb => hs.toplevel b (Nat.le_of_succ_le hb)⟩

theorem fresh_getXdgSurface (hs : Fresh s) (hsurf : s.surface a = some surf) (id : ℕ)
    (alloc : Alloc) : Fresh (s.getXdgSurface a surf id alloc) := by
  have hmade (o : Option Surface) (b : ℕ) (hb : s.next + 1 ≤ b) : update s.surface a o b = none :=
    fresh_update hs.surface hsurf o b (Nat.le_of_succ_le hb)
  have hrest (b : ℕ) (hb : s.next + 1 ≤ b) := hs.toplevel b (Nat.le_of_succ_le hb)
  cases alloc with
  | noMemory => exact ⟨hs.surface, hs.xdgSurface, hs.toplevel⟩
  | noResource => exact ⟨hmade _, fresh_update_next hs.xdgSurface _, hrest⟩
  | created => exact ⟨hmade _, fresh_update_next hs.xdgSurface _, hrest⟩

theorem fresh_getToplevel (hs : Fresh s) (hxdg : s.xdgSurface x = some xdgSurf) (id : ℕ)
    (alloc : Alloc) : Fresh (s.getToplevel x xdgSurf id alloc) := by
  have hrest (b : ℕ) (hb : s.next + 1 ≤ b) := hs.surface b (Nat.le_of_succ_le hb)
  have hmade (o : Option XdgSurface) (b : ℕ) (hb : s.next + 1 ≤ b) :
      update s.xdgSurface x o b = none :=
    fresh_update hs.xdgSurface hxdg o b (Nat.le_of_succ_le hb)
  cases alloc with
  | noMemory => exact ⟨hs.surface, hs.xdgSurface, hs.toplevel⟩
  | noResource => exact ⟨hrest, hmade _, fresh_update_next hs.toplevel _⟩
  | created =>
    simp only [getToplevel, if_true]
    split_ifs
    · exact ⟨hrest, hmade _, fresh_update_next hs.toplevel _⟩
    · exact ⟨hrest, hmade _, fresh_update_next hs.toplevel _⟩

theorem fresh_commit (hs : Fresh s) (hsurf : s.surface a = some surf) (buffer : Option (ℤ × ℤ)) :
    Fresh (s.commit a surf buffer) := by
  cases buffer with
  | none => exact hs
  | some size => exact ⟨fresh_update hs.surface hsurf _, hs.xdgSurface, hs.toplevel⟩

theorem fresh_freeXdgSurface (hs : Fresh s) (hxdg : s.xdgSurface x = some xdgSurf) :
    Fresh (s.freeXdgSurface x xdgSurf) := by
  rw [freeXdgSurface]
  split
  · exact ⟨hs.surface, hs.xdgSurface, hs.toplevel⟩
  case _ surf hsurf =>
    exact ⟨fresh_update hs.surface hsurf _, fresh_update hs.xdgSurface hxdg _, hs.toplevel⟩

theorem fresh_freeToplevel (hs : Fresh s) (htop : s.toplevel d = some toplevel) :
    Fresh (s.freeToplevel d toplevel) := by
  rw [freeToplevel]
  split
  · exact ⟨hs.surface, hs.xdgSurface, hs.toplevel⟩
  case _ xdgSurf hxdg =>
    exact ⟨hs.surface, fresh_update hs.xdgSurface hxdg _, fresh_update hs.toplevel htop _⟩

theorem fresh_handle {e : Request} (hs : Fresh s) (h : s.handle e = some t) : Fresh t := by
  cases handled_of_handle h with
  | createSurface client id alloc => exact fresh_createSurface hs client id alloc
  | getXdgSurface hsurf id alloc => exact fresh_getXdgSurface hs hsurf id alloc
  | getToplevel hxdg id alloc => exact fresh_getToplevel hs hxdg id alloc
  | ackConfigure hxdg => exact ⟨hs.surface, fresh_update hs.xdgSurface hxdg _, hs.toplevel⟩
  | commit hsurf buffer => exact fresh_commit hs hsurf buffer
  | bufferDestroyed hsurf => exact ⟨fresh_update hs.surface hsurf _, hs.xdgSurface, hs.toplevel⟩
  | setCursor hsurf => exact ⟨fresh_update hs.surface hsurf _, hs.xdgSurface, hs.toplevel⟩
  | getSubsurface hsurf => exact ⟨fresh_update hs.surface hsurf _, hs.xdgSurface, hs.toplevel⟩
  | destroySurface hsurf =>
    split_ifs
    · exact ⟨fresh_update hs.surface hsurf _, hs.xdgSurface, hs.toplevel⟩
    · exact ⟨hs.surface, hs.xdgSurface, hs.toplevel⟩
  | destroyXdgSurface hxdg => exact fresh_freeXdgSurface hs hxdg
  | destroyToplevel htop => exact fresh_freeToplevel hs htop
  | resizeAll => split_ifs <;> exact ⟨hs.surface, hs.xdgSurface, hs.toplevel⟩
  | input => split_ifs <;> exact ⟨hs.surface, hs.xdgSurface, hs.toplevel⟩
  | disconnect client => exact ⟨hs.surface, hs.xdgSurface, hs.toplevel⟩
  | gone => exact ⟨hs.surface, hs.xdgSurface, hs.toplevel⟩

/-- Exactly the requests in `KeepsRoles` leave the pointers good. -/
theorem linked_handle_iff {e : Request} (hs : RolesInv s) (h : s.handle e = some t) :
    Linked t ↔ KeepsRoles s e := by
  have hlinked := hs.toLinked
  cases handled_of_handle h with
  | createSurface client id alloc =>
    exact iff_of_true (linked_createSurface hs client id alloc) trivial
  | getXdgSurface hsurf id alloc => exact linked_getXdgSurface_iff hs _ id alloc
  | getToplevel hxdg id alloc => exact linked_getToplevel_iff hs hxdg id alloc
  | ackConfigure hxdg => exact iff_of_true (linked_ackConfigure hlinked hxdg) trivial
  | commit hsurf buffer => exact iff_of_true (linked_commit hlinked hsurf buffer) trivial
  | bufferDestroyed hsurf => exact iff_of_true (linked_unmap hlinked hsurf) trivial
  | setCursor hsurf => exact iff_of_true (linked_setRole hlinked hsurf .cursor) trivial
  | getSubsurface hsurf => exact iff_of_true (linked_setRole hlinked hsurf .subsurface) trivial
  | destroySurface hsurf =>
    rw [if_pos (targetLives_dropActive hlinked)]
    exact linked_freeSurface_iff hlinked
  | destroyXdgSurface hxdg => exact linked_freeXdgSurface_iff hlinked hxdg
  | destroyToplevel htop => exact iff_of_true (linked_freeToplevel hlinked htop) trivial
  | resizeAll =>
    have hall : (s.surfaces.all fun a => (s.resize a).isSome) = true :=
      List.all_eq_true.2 fun a ha => resize_of_linked hlinked ha
    rw [if_pos hall]
    exact iff_of_true hlinked trivial
  | input =>
    rw [if_pos (targetLives_of_linked hlinked)]
    exact iff_of_true hlinked trivial
  | disconnect client => exact iff_of_true (linked_leaving hlinked _) trivial
  | gone => exact iff_of_true (linked_leaving hlinked _) trivial

end Server

theorem rolesInv_init : RolesInv Server.init where
  roles := paired_none
  toplevels := paired_none
  listed := nofun
  active := nofun
  unfaulted := rfl
  surface _ _ := rfl
  xdgSurface _ _ := rfl
  toplevel _ _ := rfl

/-- In every state of a run the pointers of live role objects are good, and only live objects have
been looked at, exactly if each role is asked for where there is none and can be made, and each
object is destroyed after those that it gave a role to. -/
theorem linked_iff (es : List Request) :
    surfaceSystem.Along (fun _ _ t => Linked t) Server.init es ↔
      surfaceSystem.Guarded KeepsRoles Server.init es := by
  apply surfaceSystem.along_iff_guarded _ _ rolesInv_init
  · exact fun s e t hs hkeeps hstep =>
      ⟨(Server.linked_handle_iff hs hstep).2 hkeeps, Server.fresh_handle hs.toFresh hstep⟩
  · exact fun s e t hs hstep => Server.linked_handle_iff hs hstep

/-- A client makes a window and ends. -/
def windowLeft : List Request :=
  [.createSurface 1 3 .created, .getXdgSurface 0 4 .created, .getToplevel 1 5 .created,
    .disconnect 1, .destroySurface 0, .destroyXdgSurface 1]

theorem not_linked_windowLeft :
    ¬ ∀ es t, surfaceSystem.run Server.init es = some t → Linked t := by
  intro h
  obtain ⟨t, ht⟩ := Option.isSome_iff_exists.1
    (show (surfaceSystem.run Server.init windowLeft).isSome from by decide)
  have hfaulted : ((surfaceSystem.run Server.init windowLeft).map Server.faulted) = some true := by
    decide
  rw [ht, Option.map_some, (h windowLeft t ht).unfaulted] at hfaulted
  cases hfaulted

end Droidspaces.Wayland
