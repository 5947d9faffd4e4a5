import Droidspaces.Memory.Ownership
import Droidspaces.Wayland.Buffers
import Droidspaces.Wayland.Roles

/-!
# Who owns a buffer

A wrapper belongs to the surface that points at it, and a frame callback to the surface in whose
list it is; each is freed by its owner.  A dma-buf belongs to its `wl_buffer`, and the surface that
shows it is told when that goes; nobody else is.

So everything is freed once, and no pointer dangles, as long as clients do not destroy a buffer
that is attached and not shown, or a wrapped one, and keep a dma-buf to one surface
(`buffers_kept`).
-/

namespace Droidspaces.Wayland

open Function Memory Transition

/-- `is_shm` -/
def Ref.isShm : Ref → Bool
  | .wrapper _ => true
  | .dmabuf _ => false

namespace Compositor

variable (s : Compositor)

/-! ## Pointers and lists -/

/-- What a slot of a surface points at -/
def slotOf (x : ℕ × Slot) : Option Ref := (s.content x.1).bind (·.slot x.2)

/-- The frame callbacks of a surface -/
def callbacksOf (a : ℕ) : List ℕ := (s.content a).elim [] Content.callbacks

/-- The pointer is to a `ds_buffer` that is there, and its `wl_buffer` is. -/
def Live : Ref → Prop
  | .wrapper w => ∃ r ∈ s.wrapper w, ∃ buffer ∈ s.wlBuffer r, buffer.isShm = true
  | .dmabuf r => ∃ buffer ∈ s.wlBuffer r, buffer.isShm = false

/-- The dma-buf that a surface shows -/
def shown (a : ℕ) : Option ℕ :=
  (s.slotOf (a, .current)).bind fun
    | .dmabuf r => some r
    | .wrapper _ => none

/-- The surface that is told when the buffer goes -/
def armedBy (r : ℕ) : Option ℕ := (s.wlBuffer r).bind WlBuffer.surface

/-- The same for a pointer; nobody is told of a wrapper. -/
def armedOn : Ref → Option ℕ
  | .wrapper _ => none
  | .dmabuf r => s.armedBy r

end Compositor

/-- Everything is there that is pointed at, and what has to be freed has one owner. -/
structure Owned (s : Compositor) : Prop where
  live : ∀ x b, s.slotOf x = some b → s.Live b
  wrappers : Owns (fun x w => s.slotOf x = some (.wrapper w)) fun w => (s.wrapper w).isSome
  callbacks : Owns (fun a k => k ∈ s.callbacksOf a) fun k => (s.callback k).isSome
  once : ∀ a, (s.callbacksOf a).Nodup
  /-- A buffer that has just been released is not shown. -/
  released : ∀ r ∈ s.released, ∀ a b, s.slotOf (a, .current) = some b → s.resourceOf b ≠ some r
  unfaulted : s.faulted = false

structure BuffersInv (s : Compositor) : Prop extends Owned s where
  armed : Paired s.shown s.armedBy
  previous : ∀ a, s.slotOf (a, .previous) = none
  listed : ∀ a, a ∈ s.surfaces ↔ (s.content a).isSome
  nodup : s.surfaces.Nodup
  fresh : ∀ a, s.next ≤ a → s.content a = none ∧ s.wlBuffer a = none ∧ s.wrapper a = none ∧
    s.callback a = none

/-- The requests after which the buffers are still owned -/
def KeepsBuffers (s : Compositor) : BufferRequest → Prop
  | .attach a (some r) allocated =>
    if (s.wlBuffer r).any WlBuffer.isShm then allocated = true
    else ∀ b ∈ s.slotOf (a, .pending), b.isShm = false
  | .frame _ _ alloc => alloc ≠ .noResource
  | .commit a => ∀ p ∈ s.slotOf (a, .pending),
    (∀ b ∈ s.armedOn p, b = a) ∧
      ∀ q ∈ s.slotOf (a, .current), q ≠ p → s.resourceOf q ≠ s.resourceOf p ∧
        ∀ a' ∈ s.surfaces, a' ≠ a → ∀ b ∈ s.slotOf (a', .current),
          s.resourceOf b ≠ s.resourceOf q
  | .destroyBuffer r => ∀ a ∈ s.surfaces, ∀ slot ∈ [Slot.pending, .current],
    ∀ b ∈ s.slotOf (a, slot), s.resourceOf b = some r → s.armedBy r = some a
  | .destroySurface a => ∀ b ∈ s.slotOf (a, .pending), b.isShm = false
  | .destroyCallback _ => False
  | _ => True

namespace Compositor

variable {s t : Compositor} {a : ℕ} {c c' : Content} {b p q : Ref} {r w : ℕ}

/-! ## What is left of the heap -/

/-- The wrappers without the one that is freed -/
def without (s : Compositor) (o : Option Ref) (w : ℕ) : Option ℕ :=
  if o = some (.wrapper w) then none else s.wrapper w

/-- The `wl_buffer`s when nobody is told of one dma-buf any more, or another surface is -/
def rearmed (s : Compositor) (o : Option Ref) (surface : Option ℕ) (r : ℕ) : Option WlBuffer :=
  if o = some (.dmabuf r) then (s.wlBuffer r).map fun buffer => { buffer with surface := surface }
  else s.wlBuffer r

theorem without_none : s.without none = s.wrapper := rfl

theorem rearmed_none (surface : Option ℕ) : s.rearmed none surface = s.wlBuffer := rfl

theorem isSome_without (o : Option Ref) (w : ℕ) :
    (s.without o w).isSome ↔ (s.wrapper w).isSome ∧ o ≠ some (.wrapper w) := by
  rw [without]
  split_ifs with h
  · simp [h]
  · simp [h]

theorem without_wrapper (w : ℕ) : s.without (some (.wrapper w)) = update s.wrapper w none := by
  funext w'
  by_cases hw : w = w'
  · subst hw
    simp [without]
  · simp [without, hw, Ne.symm hw]

/-- No wrapper is freed with a dma-buf. -/
theorem without_dmabuf (r : ℕ) : s.without (some (.dmabuf r)) = s.wrapper := by
  funext w
  simp [without]

/-- Nobody is told of a wrapper. -/
theorem rearmed_wrapper (w : ℕ) (surface : Option ℕ) :
    s.rearmed (some (.wrapper w)) surface = s.wlBuffer := by
  funext r
  simp [rearmed]

theorem rearmed_dmabuf {buffer : WlBuffer} (hbuffer : s.wlBuffer r = some buffer)
    (surface : Option ℕ) : s.rearmed (some (.dmabuf r)) surface =
      update s.wlBuffer r (some { buffer with surface := surface }) := by
  funext r'
  by_cases hr : r = r'
  · subst hr
    simp [rearmed, hbuffer]
  · simp [rearmed, hr, Ne.symm hr]

theorem dispose_eq (hlive : s.Live b) : s.dispose b =
    { s with wrapper := s.without (some b), wlBuffer := s.rearmed (some b) none } := by
  cases b with
  | wrapper w =>
    obtain ⟨r, hr, -⟩ := hlive
    rw [dispose, if_pos (by rw [Option.mem_def.1 hr, Option.isSome_some]), without_wrapper,
      rearmed_wrapper]
  | dmabuf r =>
    obtain ⟨buffer, hbuffer, -⟩ := hlive
    simp only [dispose, Option.mem_def.1 hbuffer, without_dmabuf, rearmed_dmabuf hbuffer]

theorem exists_resourceOf (hlive : s.Live b) :
    ∃ r, s.resourceOf b = some r ∧ (s.wlBuffer r).isSome := by
  cases b with
  | wrapper w =>
    obtain ⟨r, hr, buffer, hbuffer, -⟩ := hlive
    exact ⟨r, hr, by rw [Option.mem_def.1 hbuffer, Option.isSome_some]⟩
  | dmabuf r =>
    obtain ⟨buffer, hbuffer, -⟩ := hlive
    exact ⟨r, rfl, by rw [Option.mem_def.1 hbuffer, Option.isSome_some]⟩

theorem release_eq (hlive : s.Live b) :
    s.release b = { s with released := s.released ++ (s.resourceOf b).toList } := by
  obtain ⟨r, hr, hbuffer⟩ := exists_resourceOf hlive
  simp only [release, hr, hbuffer, if_true, Option.toList_some]

theorem freeIfShm_eq {o : Option Ref} (hlive : ∀ b, o = some b → s.Live b) :
    s.freeIfShm o = { s with wrapper := s.without o } := by
  cases o with
  | none => rfl
  | some b =>
    cases b with
    | wrapper w => rw [freeIfShm, dispose_eq (hlive _ rfl), rearmed_wrapper]
    | dmabuf r =>
      obtain ⟨buffer, hbuffer, -⟩ := hlive _ rfl
      rw [freeIfShm, Option.mem_def.1 hbuffer, without_dmabuf]
      rfl

theorem arm_eq (hlive : s.Live p) (harmed : ∀ b ∈ s.armedOn p, b = a) :
    s.arm a p = { s with wlBuffer := s.rearmed (some p) (some a) } := by
  cases p with
  | wrapper w =>
    obtain ⟨r, hr, -⟩ := hlive
    rw [arm, if_pos (by rw [Option.mem_def.1 hr, Option.isSome_some]), rearmed_wrapper]
  | dmabuf r =>
    obtain ⟨buffer, hbuffer, -⟩ := hlive
    rw [Option.mem_def] at hbuffer
    simp only [arm, hbuffer, rearmed_dmabuf hbuffer]
    by_cases hself : buffer.surface = some a
    · have hsame : update s.wlBuffer r (some { buffer with surface := some a }) = s.wlBuffer := by
        rw [← hself, ← hbuffer]
        exact update_eq_self r _
      rw [if_pos hself, hsame]
    · have hnone : buffer.surface = none := by
        by_contra hne
        obtain ⟨a', ha'⟩ := Option.ne_none_iff_exists'.1 hne
        have hmem : a' ∈ s.armedOn (.dmabuf r) := by
          rw [armedOn, armedBy, hbuffer]
          exact ha'
        exact hself (harmed a' hmem ▸ ha')
      rw [if_neg hself, hnone]
      rfl

/-- The callbacks of a list are ended one after the other. -/
theorem endCallbacks_eq {ks : List ℕ} (hnodup : ks.Nodup)
    (hlive : ∀ k ∈ ks, (s.callback k).isSome) :
    s.endCallbacks ks = { s with callback := fun k => if k ∈ ks then none else s.callback k } := by
  induction ks generalizing s with
  | nil => simp [endCallbacks]
  | cons k ks ih =>
    obtain ⟨hnot, hnodup⟩ := List.nodup_cons.1 hnodup
    have hend : s.endCallback k = { s with callback := update s.callback k none } :=
      if_pos (hlive k List.mem_cons_self)
    have hrest : ∀ k' ∈ ks, (update s.callback k none k').isSome := by
      intro k' hk'
      have hne : k' ≠ k := by
        rintro rfl
        exact hnot hk'
      rw [update_of_ne hne]
      exact hlive k' (List.mem_cons_of_mem _ hk')
    have hstep : s.endCallbacks (k :: ks) = (s.endCallback k).endCallbacks ks := rfl
    rw [hstep, hend, ih hnodup hrest]
    congr 1
    funext k'
    by_cases hk : k' = k
    · subst hk
      simp
    · simp [hk]

end Compositor

namespace Compositor

variable {s t : Compositor} {a : ℕ} {c c' : Content} {b p q : Ref} {r w : ℕ} {x y : ℕ × Slot}

/-! ## The pointers of one surface change -/

theorem slotOf_eq (hc : s.content a = some c) (slot : Slot) :
    s.slotOf (a, slot) = c.slot slot := by
  rw [slotOf, hc, Option.bind_some]

theorem callbacksOf_eq (hc : s.content a = some c) : s.callbacksOf a = c.callbacks := by
  rw [callbacksOf, hc]
  rfl

theorem slotOf_update (ht : t.content = update s.content a (some c')) (x : ℕ × Slot) :
    t.slotOf x = if x.1 = a then c'.slot x.2 else s.slotOf x := by
  rw [slotOf, ht]
  split_ifs with h
  · rw [h, update_self, Option.bind_some]
  · rw [update_of_ne h, slotOf]

theorem callbacksOf_update (ht : t.content = update s.content a (some c')) (a' : ℕ) :
    t.callbacksOf a' = if a' = a then c'.callbacks else s.callbacksOf a' := by
  rw [callbacksOf, ht]
  split_ifs with h
  · rw [h, update_self]
    rfl
  · rw [update_of_ne h, callbacksOf]

/-- What is there stays, as far as the pointer is concerned. -/
theorem live_of (hlive : s.Live b) (hwrapper : ∀ w, b = .wrapper w → t.wrapper w = s.wrapper w)
    (hbuffer : ∀ r, s.resourceOf b = some r →
      (t.wlBuffer r).map WlBuffer.isShm = (s.wlBuffer r).map WlBuffer.isShm) : t.Live b := by
  have hkind {r : ℕ} {isShm : Bool} (hr : s.resourceOf b = some r)
      (hold : ∃ buffer ∈ s.wlBuffer r, buffer.isShm = isShm) :
      ∃ buffer ∈ t.wlBuffer r, buffer.isShm = isShm := by
    obtain ⟨buffer, hmem, hshm⟩ := hold
    have hmap := hbuffer r hr
    rw [Option.mem_def.1 hmem, Option.map_some, hshm] at hmap
    exact Option.map_eq_some_iff.1 hmap
  cases b with
  | wrapper w =>
    obtain ⟨r, hr, hold⟩ := hlive
    exact ⟨r, by rwa [hwrapper w rfl], hkind hr hold⟩
  | dmabuf r => exact hkind rfl hlive

theorem map_isShm_rearmed (o : Option Ref) (surface : Option ℕ) (r : ℕ) :
    (s.rearmed o surface r).map WlBuffer.isShm = (s.wlBuffer r).map WlBuffer.isShm := by
  rw [rearmed]
  split_ifs
  · rw [Option.map_map]
    rfl
  · rfl

/-- Nobody else points at a wrapper that is freed. -/
theorem without_of_ne (hs : Owned s) (hx : s.slotOf x = some (.wrapper w)) (hne : x ≠ y) :
    s.without (s.slotOf y) w = s.wrapper w := by
  rw [without, if_neg]
  exact fun hy => hne (hs.wrappers.unique hx hy)

theorem shown_congr (h : ∀ a, t.slotOf (a, .current) = s.slotOf (a, .current)) :
    t.shown = s.shown := by
  funext a
  rw [shown, shown, h a]

/-- What remains to be shown when the pointers of one surface change -/
theorem inv_of_update (hs : BuffersInv s) (hc : s.content a = some c)
    (ht : t.content = update s.content a (some c')) (hprevious : c'.previous = none)
    (hsurfaces : t.surfaces = s.surfaces) (hnext : s.next ≤ t.next)
    (hfresh : ∀ a, t.next ≤ a → t.wlBuffer a = none ∧ t.wrapper a = none ∧ t.callback a = none)
    (hpaired : Paired t.shown t.armedBy) (howned : Owned t) : BuffersInv t where
  toOwned := howned
  armed := hpaired
  previous a' := by
    rw [slotOf_update ht]
    split_ifs
    · exact hprevious
    · exact hs.previous a'
  listed a' := by
    rw [hsurfaces, hs.listed a', ht]
    by_cases h : a' = a
    · rw [h, update_self, hc]
      rfl
    · rw [update_of_ne h]
  nodup := by
    rw [hsurfaces]
    exact hs.nodup
  fresh a' ha' := by
    refine ⟨?_, hfresh a' ha'⟩
    have hold := (hs.fresh a' (Nat.le_trans hnext ha')).1
    have hne : a' ≠ a := by
      rintro rfl
      rw [hc] at hold
      cases hold
    rw [ht, update_of_ne hne, hold]

end Compositor

/-! ## Attaching -/

namespace Compositor

variable {s t : Compositor} {a : ℕ} {c c' : Content} {b p q : Ref} {r w : ℕ} {x y : ℕ × Slot}

theorem slotOf_pending (hc : s.content a = some c) {o : Option Ref}
    (ht : t.content = update s.content a (some { c with pending := o })) (x : ℕ × Slot) :
    t.slotOf x = if x = (a, .pending) then o else s.slotOf x := by
  rw [slotOf_update ht]
  obtain ⟨a', slot⟩ := x
  by_cases ha : a' = a
  · subst ha
    rw [if_pos rfl]
    cases slot with
    | pending => exact (if_pos rfl).symm
    | current =>
      rw [if_neg (by simp)]
      exact (slotOf_eq hc .current).symm
    | previous =>
      rw [if_neg (by simp)]
      exact (slotOf_eq hc .previous).symm
  · have hne : (a', slot) ≠ (a, .pending) := fun h => ha (congrArg Prod.fst h)
    rw [if_neg ha, if_neg hne]

theorem callbacksOf_pending (hc : s.content a = some c) {o : Option Ref}
    (ht : t.content = update s.content a (some { c with pending := o })) (a' : ℕ) :
    t.callbacksOf a' = s.callbacksOf a' := by
  rw [callbacksOf_update ht]
  split_ifs with ha
  · rw [ha, callbacksOf_eq hc]
  · rfl

/-- What stays when something else is pending and what was is freed -/
theorem inv_of_pending (hs : BuffersInv s) (hreleased : s.released = [])
    (hc : s.content a = some c) {o : Option Ref}
    (hcontent : t.content = update s.content a (some { c with pending := o }))
    (hsurfaces : t.surfaces = s.surfaces) (hnext : s.next ≤ t.next)
    (hwlBuffer : t.wlBuffer = s.wlBuffer) (hcallback : t.callback = s.callback)
    (hreleased' : t.released = s.released) (hfaulted : t.faulted = s.faulted)
    (hwrapper : ∀ w, w < s.next → t.wrapper w = s.without c.pending w)
    (hfresh : ∀ a, t.next ≤ a → t.wrapper a = none) (hlive : ∀ b, o = some b → t.Live b)
    (howns : Owns (fun x w => t.slotOf x = some (.wrapper w)) fun w => (t.wrapper w).isSome) :
    BuffersInv t := by
  have hslot := slotOf_pending hc hcontent
  have hpending := slotOf_eq hc .pending
  apply inv_of_update hs hc hcontent ((slotOf_eq hc .previous).symm.trans (hs.previous a))
    hsurfaces hnext
  · intro a' ha'
    obtain ⟨-, hbuffer, -, hold⟩ := hs.fresh a' (Nat.le_trans hnext ha')
    rw [hwlBuffer, hcallback]
    exact ⟨hbuffer, hfresh a' ha', hold⟩
  · have hshown : t.shown = s.shown := shown_congr fun a' => by
      rw [hslot, if_neg (by simp)]
    have harmed : t.armedBy = s.armedBy := by
      funext r
      rw [armedBy, armedBy, hwlBuffer]
    rw [hshown, harmed]
    exact hs.armed
  · constructor
    case live =>
      intro x b hx
      rw [hslot] at hx
      split_ifs at hx with hself
      · exact hlive b hx
      · apply live_of (hs.live x b hx)
        · rintro w rfl
          have hlt : w < s.next := by
            by_contra hge
            have hnone := (hs.fresh w (Nat.le_of_not_lt hge)).2.2.1
            have hsome := hs.wrappers.live_of hx
            rw [hnone] at hsome
            cases hsome
          have hkept := without_of_ne hs.toOwned hx hself
          rw [hpending] at hkept
          rw [hwrapper w hlt]
          exact hkept
        · intro r hr
          rw [hwlBuffer]
    case wrappers => exact howns
    case callbacks =>
      refine hs.callbacks.congr (fun a' k => ?_) fun k => by rw [hcallback]
      rw [callbacksOf_pending hc hcontent]
    case once =>
      intro a'
      rw [callbacksOf_pending hc hcontent]
      exact hs.once a'
    case released =>
      rw [hreleased', hreleased]
      exact nofun
    case unfaulted => exact hfaulted.trans hs.unfaulted

/-- A slot that is emptied, with the wrapper that it held -/
theorem owns_without (hs : BuffersInv s) (hc : s.content a = some c) :
    Owns (fun x w => x ≠ (a, Slot.pending) ∧ s.slotOf x = some (.wrapper w))
      fun w => (s.without c.pending w).isSome := by
  refine (hs.wrappers.clear (a, .pending)).congr (fun _ _ => Iff.rfl) fun w => ?_
  rw [isSome_without, slotOf_eq hc .pending]
  rfl

theorem freeIfShm_pending (hs : BuffersInv s) (hc : s.content a = some c) :
    s.freeIfShm c.pending = { s with wrapper := s.without c.pending } :=
  freeIfShm_eq fun b hb => hs.live (a, .pending) b ((slotOf_eq hc .pending).trans hb)

theorem without_fresh (hs : BuffersInv s) (o : Option Ref) (ha : s.next ≤ a) :
    s.without o a = none := by
  rw [without, (hs.fresh a ha).2.2.1, ite_self]

theorem inv_attachNone (hs : BuffersInv s) (hreleased : s.released = [])
    (hc : s.content a = some c) (allocated : Bool) : BuffersInv (s.attach a c allocated none) := by
  have hfree := freeIfShm_pending hs hc
  have hcontent : (s.attach a c allocated none).content =
      update s.content a (some { c with pending := none }) := by
    rw [attach, hfree]
    rfl
  have hwrapper : (s.attach a c allocated none).wrapper = s.without c.pending := by
    rw [attach, hfree]
    rfl
  have hslot := slotOf_pending hc hcontent
  rw [attach, hfree] at hcontent hwrapper hslot ⊢
  apply inv_of_pending hs hreleased hc hcontent rfl (Nat.le_refl _) rfl rfl rfl rfl
    (fun _ _ => rfl) (fun _ => without_fresh hs _) nofun
  refine (owns_without hs hc).congr (fun x w => ?_) fun w => Iff.rfl
  rw [hslot]
  split_ifs with h
  · simp [h]
  · simp [h]

/-- A new wrapper takes the place of the one that was pending. -/
theorem inv_attachShm (hs : BuffersInv s) (hreleased : s.released = [])
    (hc : s.content a = some c) {buffer : WlBuffer} (hbuffer : s.wlBuffer r = some buffer)
    (hshm : buffer.isShm = true) : BuffersInv (s.attach a c true (some r)) := by
  let made : Compositor := { s with
    next := s.next + 1
    wrapper := update (s.without c.pending) s.next (some r)
    content := update s.content a (some { c with pending := some (.wrapper s.next) }) }
  have hmade : s.attach a c true (some r) = made := by
    have hfree : { s with next := s.next + 1 }.freeIfShm c.pending =
        { s with next := s.next + 1, wrapper := s.without c.pending } :=
      freeIfShm_eq fun b hb => hs.live (a, .pending) b ((slotOf_eq hc .pending).trans hb)
    simp only [attach, hbuffer, hshm, if_true, hfree]
    rfl
  rw [hmade]
  have hslot := slotOf_pending (t := made) hc rfl
  apply inv_of_pending (t := made) hs hreleased hc rfl rfl (Nat.le_succ _) rfl rfl rfl rfl
  · exact fun w hw => update_of_ne (Nat.ne_of_lt hw) _ _
  · intro a' ha'
    have hne : a' ≠ s.next := Nat.ne_of_gt ha'
    exact (update_of_ne hne _ _).trans (without_fresh hs _ (Nat.le_of_succ_le ha'))
  · rintro b ⟨⟩
    have hheld : made.wrapper s.next = some r := update_self _ _ _
    exact ⟨r, hheld, buffer, hbuffer, hshm⟩
  · have hfresh : ¬ (s.without c.pending s.next).isSome := by
      rw [without_fresh hs _ (Nat.le_refl _)]
      decide
    refine ((owns_without hs hc).give hfresh (a, .pending)).congr (fun x w => ?_) fun w => ?_
    · rw [hslot]
      split_ifs with h
      · simp [h, eq_comm]
      · simp [h]
    · show (update (s.without c.pending) s.next (some r) w).isSome ↔ _
      by_cases hw : w = s.next
      · simp [hw]
      · simp [hw]

/-- A wrapper that is pending would be lost. -/
theorem inv_attachDmabuf (hs : BuffersInv s) (hreleased : s.released = [])
    (hc : s.content a = some c) {buffer : WlBuffer} (hbuffer : s.wlBuffer r = some buffer)
    (hshm : buffer.isShm = false) (hpending : ∀ b ∈ s.slotOf (a, .pending), b.isShm = false)
    (allocated : Bool) : BuffersInv (s.attach a c allocated (some r)) := by
  let pointed : Compositor := s.setContent a { c with pending := some (.dmabuf r) }
  have hpointed : s.attach a c allocated (some r) = pointed := by
    simp [attach, hbuffer, hshm, pointed]
  rw [hpointed]
  have hslot := slotOf_pending (t := pointed) hc rfl
  have hkept (w : ℕ) : s.without c.pending w = s.wrapper w := by
    rw [without, if_neg]
    rw [← show s.slotOf (a, .pending) = c.pending from slotOf_eq hc .pending]
    exact fun hw => Bool.noConfusion (hpending _ hw)
  apply inv_of_pending (t := pointed) hs hreleased hc rfl rfl (Nat.le_refl _) rfl rfl rfl rfl
  · exact fun w _ => (hkept w).symm
  · exact fun a' ha' => (hs.fresh a' ha').2.2.1
  · rintro b ⟨⟩
    exact ⟨buffer, hbuffer, hshm⟩
  · refine (owns_without hs hc).congr (fun x w => ?_) fun w => ?_
    · rw [hslot]
      split_ifs with h
      · simp [h]
      · simp [h]
    · rw [hkept w]
      rfl

theorem inv_attach (hs : BuffersInv s) (hreleased : s.released = []) (hc : s.content a = some c)
    (buffer : Option ℕ) (allocated : Bool) (hbuffer : ∀ r, buffer = some r → (s.wlBuffer r).isSome)
    (hkeeps : KeepsBuffers s (.attach a buffer allocated)) :
    BuffersInv (s.attach a c allocated buffer) := by
  cases buffer with
  | none => exact inv_attachNone hs hreleased hc allocated
  | some r =>
    obtain ⟨buffer, hr⟩ := Option.isSome_iff_exists.1 (hbuffer r rfl)
    rw [KeepsBuffers, hr, Option.any_some] at hkeeps
    by_cases hshm : buffer.isShm = true
    · rw [if_pos hshm] at hkeeps
      subst hkeeps
      exact inv_attachShm hs hreleased hc hr hshm
    · rw [if_neg hshm] at hkeeps
      exact inv_attachDmabuf hs hreleased hc hr (Bool.eq_false_iff.2 hshm) hkeeps allocated

end Compositor

/-! ## Frame callbacks -/

namespace Compositor

variable {s t : Compositor} {a : ℕ} {c c' : Content} {b p q : Ref} {r w : ℕ} {x y : ℕ × Slot}

/-- The buffers do not see what happens to the callbacks. -/
theorem inv_of_callbacks (hs : BuffersInv s) (hc : s.content a = some c) {ks : List ℕ}
    (hcontent : t.content = update s.content a (some { c with callbacks := ks }))
    (hsurfaces : t.surfaces = s.surfaces) (hnext : s.next ≤ t.next)
    (hwlBuffer : t.wlBuffer = s.wlBuffer) (hwrapper : t.wrapper = s.wrapper)
    (hreleased : t.released = s.released) (hfaulted : t.faulted = s.faulted)
    (hfresh : ∀ a, t.next ≤ a → t.callback a = none) (hnodup : ks.Nodup)
    (howns : Owns (fun a' k => if a' = a then k ∈ ks else k ∈ s.callbacksOf a')
      fun k => (t.callback k).isSome) : BuffersInv t := by
  have hslot (x : ℕ × Slot) : t.slotOf x = s.slotOf x := by
    rw [slotOf_update hcontent]
    split_ifs with hx
    · obtain ⟨a', slot⟩ := x
      obtain rfl : a' = a := hx
      rw [slotOf_eq hc]
      cases slot <;> rfl
    · rfl
  have hcallbacks := callbacksOf_update hcontent
  apply inv_of_update hs hc hcontent ((slotOf_eq hc .previous).symm.trans (hs.previous a))
    hsurfaces hnext
  · intro a' ha'
    obtain ⟨-, hbuffer, hold, -⟩ := hs.fresh a' (Nat.le_trans hnext ha')
    rw [hwlBuffer, hwrapper]
    exact ⟨hbuffer, hold, hfresh a' ha'⟩
  · have hshown : t.shown = s.shown := shown_congr fun a' => hslot _
    have harmed : t.armedBy = s.armedBy := by
      funext r
      rw [armedBy, armedBy, hwlBuffer]
    rw [hshown, harmed]
    exact hs.armed
  · constructor
    case live =>
      intro x b hx
      rw [hslot] at hx
      exact live_of (hs.live x b hx) (fun w _ => by rw [hwrapper]) fun r _ => by rw [hwlBuffer]
    case wrappers =>
      exact hs.wrappers.congr (fun x w => by rw [hslot]) fun w => by rw [hwrapper]
    case callbacks =>
      refine howns.congr (fun a' k => ?_) fun k => Iff.rfl
      rw [hcallbacks]
      split_ifs <;> rfl
    case once =>
      intro a'
      rw [hcallbacks]
      split_ifs
      · exact hnodup
      · exact hs.once a'
    case released =>
      intro r hr a' b hb
      rw [hslot] at hb
      rw [hreleased] at hr
      have hresource : t.resourceOf b = s.resourceOf b := by
        cases b with
        | wrapper w => exact congrFun hwrapper w
        | dmabuf r => rfl
      rw [hresource]
      exact hs.released r hr a' b hb
    case unfaulted => exact hfaulted.trans hs.unfaulted

theorem inv_frame (hs : BuffersInv s) (hc : s.content a = some c) (id : ℕ) {alloc : Alloc}
    (hkeeps : alloc ≠ .noResource) : BuffersInv (s.frame a c id alloc) := by
  cases alloc with
  | noMemory => exact hs
  | noResource => exact absurd rfl hkeeps
  | created =>
    have hnew : s.callback s.next = none := (hs.fresh s.next (Nat.le_refl _)).2.2.2
    have hunheld (a' : ℕ) : s.next ∉ s.callbacksOf a' := by
      intro hk
      have hsome := hs.callbacks.live_of hk
      rw [hnew] at hsome
      cases hsome
    apply inv_of_callbacks (t := s.frame a c id .created) hs hc rfl rfl (Nat.le_succ _) rfl rfl rfl
      rfl
    · intro a' ha'
      have hne : a' ≠ s.next := Nat.ne_of_gt ha'
      exact (update_of_ne hne _ _).trans (hs.fresh a' (Nat.le_of_succ_le ha')).2.2.2
    · have hnot := hunheld a
      have hone := hs.once a
      rw [callbacksOf_eq hc] at hnot hone
      rw [List.nodup_append]
      refine ⟨hone, List.pairwise_singleton _ _, fun k hk k' hk' => ?_⟩
      rw [List.mem_singleton.1 hk']
      rintro rfl
      exact hnot hk
    · have hfresh : ¬ (s.callback s.next).isSome := by
        rw [hnew]
        decide
      refine (hs.callbacks.give hfresh a).congr (fun a' k => ?_) fun k => ?_
      · split_ifs with ha
        · rw [ha, callbacksOf_eq hc, List.mem_append, List.mem_singleton]
          simp
        · simp [ha]
      · show (update s.callback s.next _ k).isSome ↔ _
        by_cases hk : k = s.next
        · simp [hk]
        · simp [hk]

/-- The callbacks of a surface are done. -/
theorem inv_endCallbacks (hs : BuffersInv s) (hc : s.content a = some c) :
    BuffersInv ((s.endCallbacks c.callbacks).setContent a { c with callbacks := [] }) := by
  have hqueue := callbacksOf_eq hc
  have hlive : ∀ k ∈ c.callbacks, (s.callback k).isSome := fun k hk =>
    hs.callbacks.live_of (hqueue ▸ hk)
  let ended : Compositor := { s with
    callback := fun k => if k ∈ c.callbacks then none else s.callback k
    content := update s.content a (some { c with callbacks := [] }) }
  have hended : (s.endCallbacks c.callbacks).setContent a { c with callbacks := [] } = ended := by
    rw [endCallbacks_eq (hqueue ▸ hs.once a) hlive]
    rfl
  rw [hended]
  apply inv_of_callbacks (t := ended) hs hc rfl rfl (Nat.le_refl _) rfl rfl rfl rfl
  · intro a' ha'
    have hold := (hs.fresh a' ha').2.2.2
    simp [ended, hold]
  · exact List.nodup_nil
  · refine (hs.callbacks.clear a).congr (fun a' k => ?_) fun k => ?_
    · split_ifs with ha
      · simp [ha]
      · simp [ha]
    · rw [hqueue]
      simp only [ended]
      split_ifs with hk
      · simp [hk]
      · simp [hk]

theorem inv_flush (hs : BuffersInv s) (ha : a ∈ s.surfaces) :
    BuffersInv (s.flush a) ∧ (s.flush a).surfaces = s.surfaces := by
  obtain ⟨c, hc⟩ := Option.isSome_iff_exists.1 ((hs.listed a).1 ha)
  have hflush : s.flush a =
      (s.endCallbacks c.callbacks).setContent a { c with callbacks := [] } := by
    simp only [flush, hc]
  have hqueue := callbacksOf_eq hc
  have hlive : ∀ k ∈ c.callbacks, (s.callback k).isSome := fun k hk =>
    hs.callbacks.live_of (hqueue ▸ hk)
  rw [hflush]
  refine ⟨inv_endCallbacks hs hc, ?_⟩
  rw [endCallbacks_eq (hqueue ▸ hs.once a) hlive]
  rfl

theorem inv_tick (hs : BuffersInv s) : BuffersInv (s.surfaces.foldl flush s) := by
  suffices h : ∀ (as : List ℕ) (s : Compositor), BuffersInv s → as ⊆ s.surfaces →
      BuffersInv (as.foldl flush s) from h s.surfaces s hs (List.Subset.refl _)
  intro as
  induction as with
  | nil => exact fun s hs _ => hs
  | cons a as ih =>
    intro s hs hsub
    obtain ⟨hinv, hsurfaces⟩ := inv_flush hs (hsub List.mem_cons_self)
    apply ih (s.flush a) hinv
    rw [hsurfaces]
    exact fun a' ha' => hsub (List.mem_cons_of_mem _ ha')

end Compositor

/-! ## Committing a buffer -/

namespace Compositor

variable {s t : Compositor} {a : ℕ} {c c' : Content} {b p q : Ref} {r w : ℕ} {x y : ℕ × Slot}

/-- What is shown no longer when another buffer is committed -/
def replaced (c : Content) (p : Ref) : Option Ref := if c.current = some p then none else c.current

/-- The buffer that was pending is shown. -/
def committed (s : Compositor) (a : ℕ) (c : Content) (p : Ref) : Compositor :=
  let armed := { s with wlBuffer := s.rearmed (some p) (some a) }
  { s with
    wlBuffer := armed.rearmed (replaced c p) none
    wrapper := s.without (replaced c p)
    released := s.released ++ ((replaced c p).bind s.resourceOf).toList
    content := update s.content a
      (some { c with pending := none, current := some p, previous := none }) }

theorem shown_eq_some_iff : s.shown a = some r ↔ s.slotOf (a, .current) = some (.dmabuf r) := by
  rw [shown]
  cases s.slotOf (a, .current) with
  | none => simp
  | some b =>
    cases b with
    | wrapper w => simp
    | dmabuf r' => simp

theorem live_rearmed {o : Option Ref} {surface : Option ℕ} (hlive : s.Live b) :
    { s with wlBuffer := s.rearmed o surface }.Live b :=
  live_of hlive (fun _ _ => rfl) fun r _ => map_isShm_rearmed o surface r

theorem commitBuffer_eq (hs : BuffersInv s) (hc : s.content a = some c)
    (hp : c.pending = some p) (harmed : ∀ b ∈ s.armedOn p, b = a) :
    ((s.commitBuffer a c p).1.setContent a
      { (s.commitBuffer a c p).2 with pending := none }) = s.committed a c p ∧
      (s.commitBuffer a c p).2.callbacks = c.callbacks := by
  have hprevious : c.previous = none := (slotOf_eq hc .previous).symm.trans (hs.previous a)
  have hlive : s.Live p := hs.live (a, .pending) p ((slotOf_eq hc .pending).trans hp)
  have harm := arm_eq hlive harmed
  let armed : Compositor := { s with wlBuffer := s.rearmed (some p) (some a) }
  cases hq : c.current with
  | none =>
    have hreplaced : replaced c p = none := by rw [replaced, hq, ite_self]
    simp only [commitBuffer, hq, hprevious, harm, committed, hreplaced]
    exact ⟨by simp [setContent, rearmed_none, without_none], trivial⟩
  | some q =>
    by_cases hqp : q = p
    · have hreplaced : replaced c p = none := by rw [replaced, hq, hqp, if_pos rfl]
      simp only [commitBuffer, hq, hprevious, harm, committed, hreplaced, hqp, if_true]
      exact ⟨by simp [setContent, rearmed_none, without_none], trivial⟩
    · have hreplaced : replaced c p = some q := by
        rw [replaced, hq, if_neg fun h => hqp (Option.some.inj h)]
      have hliveq : armed.Live q :=
        live_rearmed (hs.live (a, .current) q ((slotOf_eq hc .current).trans hq))
      have hrelease : armed.release q =
          { armed with released := armed.released ++ (armed.resourceOf q).toList } :=
        release_eq hliveq
      have hdispose : (armed.release q).dispose q =
          { armed.release q with
            wrapper := armed.without (some q)
            wlBuffer := armed.rearmed (some q) none } := by
        rw [hrelease]
        exact dispose_eq (s := { armed with
          released := armed.released ++ (armed.resourceOf q).toList }) hliveq
      have hshow : ((armed.release q).dispose q).setContent a
          { c with pending := none, current := some p, previous := none } = s.committed a c p := by
        rw [hdispose, hrelease, committed, hreplaced]
        rfl
      rw [← hshow]
      simp only [commitBuffer, hq, hprevious, harm, hqp, if_false, ne_eq, not_false_eq_true,
        if_true]
      exact ⟨rfl, trivial⟩

theorem replaced_eq_some_iff : replaced c p = some q ↔ c.current = some q ∧ q ≠ p := by
  rw [replaced]
  split_ifs with h
  · simp [h, eq_comm]
  · refine ⟨fun hq => ⟨hq, ?_⟩, And.left⟩
    rintro rfl
    exact h hq

/-- A wrapper that is pending is not shown already. -/
theorem without_replaced (hs : BuffersInv s) (hc : s.content a = some c) (hp : c.pending = some p) :
    s.without (replaced c p) = s.without c.current := by
  funext w
  rw [without, without]
  refine if_congr ?_ rfl rfl
  rw [replaced_eq_some_iff]
  refine ⟨And.left, fun hw => ⟨hw, ?_⟩⟩
  rintro rfl
  have hslots : ((a, Slot.current) : ℕ × Slot) = (a, .pending) :=
    hs.wrappers.unique ((slotOf_eq hc .current).trans hw) ((slotOf_eq hc .pending).trans hp)
  cases hslots

theorem slotOf_committed (x : ℕ × Slot) : (s.committed a c p).slotOf x =
    if x = (a, .current) then some p else if x.1 = a then none else s.slotOf x := by
  rw [slotOf_update (s := s) rfl]
  obtain ⟨a', slot⟩ := x
  by_cases ha : a' = a
  · subst ha
    cases slot <;> simp [Content.slot]
  · simp [ha]

theorem callbacksOf_committed (hc : s.content a = some c) (a' : ℕ) :
    (s.committed a c p).callbacksOf a' = s.callbacksOf a' := by
  rw [callbacksOf_update (s := s) rfl]
  split_ifs with ha
  · rw [ha, callbacksOf_eq hc]
  · rfl

/-- What the surfaces point at then has not been freed. -/
theorem wrapper_committed (hs : BuffersInv s) (hc : s.content a = some c)
    (hp : c.pending = some p) (hx : (s.committed a c p).slotOf x = some (.wrapper w)) :
    (s.committed a c p).wrapper w = s.wrapper w := by
  show s.without (replaced c p) w = s.wrapper w
  rw [slotOf_committed] at hx
  split_ifs at hx with hself ha
  · rw [without, if_neg]
    rw [replaced_eq_some_iff]
    exact fun h => h.2 (Option.some.inj hx).symm
  · rw [without_replaced hs hc hp, ← show s.slotOf (a, .current) = c.current from slotOf_eq hc _]
    exact without_of_ne hs.toOwned hx hself

theorem armedBy_committed (hlive : s.Live p) (r : ℕ) : (s.committed a c p).armedBy r =
    if replaced c p = some (.dmabuf r) then none
    else if p = .dmabuf r then some a else s.armedBy r := by
  simp only [armedBy, committed, rearmed, Option.some.injEq]
  by_cases hp : p = .dmabuf r
  · subst hp
    obtain ⟨buffer, hbuffer, -⟩ := hlive
    rw [Option.mem_def.1 hbuffer]
    split_ifs <;> rfl
  · split_ifs
    · cases s.wlBuffer r <;> rfl
    · rfl

theorem paired_committed (hs : BuffersInv s) (hc : s.content a = some c) (hlive : s.Live p)
    (harmed : ∀ b ∈ s.armedOn p, b = a) :
    Paired (s.committed a c p).shown (s.committed a c p).armedBy := by
  intro a' r
  have hshown : s.shown a = some r ↔ c.current = some (.dmabuf r) := by
    rw [shown_eq_some_iff, slotOf_eq hc]
    rfl
  have hreplaced := @replaced_eq_some_iff c p (.dmabuf r)
  rw [shown_eq_some_iff, slotOf_committed, armedBy_committed hlive]
  by_cases ha : a' = a
  · subst ha
    rw [if_pos rfl, Option.some.injEq]
    by_cases hp : p = .dmabuf r
    · have hkept : replaced c p ≠ some (.dmabuf r) := fun h => (hreplaced.1 h).2 hp.symm
      rw [if_neg hkept, if_pos hp]
      exact iff_of_true hp rfl
    · rw [if_neg hp]
      split_ifs with h
      · exact iff_of_false hp nofun
      · -- The surface was told of another buffer only while it showed it.
        refine iff_of_false hp fun hr => h (hreplaced.2 ⟨?_, Ne.symm hp⟩)
        exact hshown.1 ((hs.armed a' r).2 hr)
  · rw [if_neg (fun h => ha (congrArg Prod.fst h)), if_neg ha, ← shown_eq_some_iff, hs.armed a' r]
    split_ifs with h hp
    · -- The buffer that is replaced was shown by this surface only.
      have hself := (hs.armed a r).1 (hshown.2 (hreplaced.1 h).1)
      simp [hself, Ne.symm ha]
    · subst hp
      refine ⟨fun hr => absurd (harmed a' hr) ha, fun h => absurd ?_ ha⟩
      exact (Option.some.inj h).symm
    · rfl

theorem owns_committed (hs : BuffersInv s) (hc : s.content a = some c) (hp : c.pending = some p) :
    Owns (fun x w => (s.committed a c p).slotOf x = some (.wrapper w))
      fun w => ((s.committed a c p).wrapper w).isSome := by
  have hslots : ((a, Slot.pending) : ℕ × Slot) ≠ (a, .current) := by simp
  -- The surface lets go of what it shows, and what is pending passes to the free slot.
  refine ((hs.wrappers.clear (a, .current)).pass hslots fun w h => h.1 rfl).congr
    (fun x w => ?_) fun w => ?_
  · rw [slotOf_committed, slotOf_eq hc .pending]
    show _ ↔ _ ∨ _ ∧ _ ∧ c.pending = _
    rw [hp]
    obtain ⟨a', slot⟩ := x
    by_cases ha : a' = a
    · subst ha
      cases slot with
      | pending => simp
      | current => simp
      | previous => simp [hs.previous a']
    · simp [ha]
  · show (s.without (replaced c p) w).isSome ↔ _
    rw [without_replaced hs hc hp, isSome_without, slotOf_eq hc .current]
    rfl

theorem inv_committed (hs : BuffersInv s) (hreleased : s.released = []) (hc : s.content a = some c)
    (hp : c.pending = some p) (hkeeps : KeepsBuffers s (.commit a)) :
    BuffersInv (s.committed a c p) := by
  have hpending : s.slotOf (a, .pending) = some p := (slotOf_eq hc .pending).trans hp
  have hcurrent : s.slotOf (a, .current) = c.current := slotOf_eq hc .current
  obtain ⟨harmed, hother⟩ := hkeeps p hpending
  have hlive := hs.live _ _ hpending
  have hresource {x b} (hx : (s.committed a c p).slotOf x = some b) :
      (s.committed a c p).resourceOf b = s.resourceOf b := by
    cases b with
    | wrapper w => exact wrapper_committed hs hc hp hx
    | dmabuf r => rfl
  apply inv_of_update (t := s.committed a c p) hs hc rfl rfl rfl (Nat.le_refl _)
  · intro a' ha'
    obtain ⟨-, hbuffer, hwrapper, hcallback⟩ := hs.fresh a' ha'
    refine ⟨?_, ?_, hcallback⟩
    · simp [committed, rearmed, hbuffer]
    · simp [committed, without, hwrapper]
  · exact paired_committed hs hc hlive harmed
  · constructor
    case live =>
      intro x b hx
      have hold : s.Live b := by
        rw [slotOf_committed] at hx
        split_ifs at hx
        · exact Option.some.inj hx ▸ hlive
        · exact hs.live x b hx
      apply live_of hold
      · rintro w rfl
        exact wrapper_committed hs hc hp hx
      · intro r _
        exact (map_isShm_rearmed _ _ r).trans (map_isShm_rearmed _ _ r)
    case wrappers => exact owns_committed hs hc hp
    case callbacks =>
      refine hs.callbacks.congr (fun a' k => ?_) fun k => Iff.rfl
      rw [callbacksOf_committed hc]
    case once =>
      intro a'
      rw [callbacksOf_committed hc]
      exact hs.once a'
    case released =>
      intro r hr a' b hb
      have hmem : r ∈ ((replaced c p).bind s.resourceOf).toList := by
        have hr' : r ∈ s.released ++ ((replaced c p).bind s.resourceOf).toList := hr
        rwa [hreleased, List.nil_append] at hr'
      obtain ⟨q, hq, hr⟩ := Option.bind_eq_some_iff.1 (Option.mem_toList.1 hmem)
      obtain ⟨hq, hne⟩ := replaced_eq_some_iff.1 hq
      obtain ⟨hp', hothers⟩ := hother q (hcurrent.trans hq) hne
      rw [hresource hb, ← hr]
      rw [slotOf_committed] at hb
      split_ifs at hb with hself ha
      · rw [← Option.some.inj hb]
        exact hp'.symm
      · have hsome : a' ∈ s.surfaces := by
          obtain ⟨c', hc', -⟩ := Option.bind_eq_some_iff.1 hb
          rw [hs.listed a', hc']
          rfl
        exact hothers a' hsome ha b hb
    case unfaulted => exact hs.unfaulted

theorem endCallbacks_setContent (ks : List ℕ) :
    (s.setContent a c).endCallbacks ks = (s.endCallbacks ks).setContent a c := by
  induction ks generalizing s with
  | nil => rfl
  | cons k ks ih =>
    have hend : (s.setContent a c).endCallback k = (s.endCallback k).setContent a c := by
      by_cases hk : (s.callback k).isSome
      · simp [endCallback, setContent, hk]
      · simp [endCallback, setContent, hk, fault]
    have hstep (s : Compositor) :
        s.endCallbacks (k :: ks) = (s.endCallback k).endCallbacks ks := rfl
    rw [hstep, hstep, hend, ih]

theorem inv_commit (hs : BuffersInv s) (hreleased : s.released = []) (hc : s.content a = some c)
    (hkeeps : KeepsBuffers s (.commit a)) : BuffersInv (s.commit a c) := by
  cases hp : c.pending with
  | none =>
    have hcommit : s.commit a c =
        (s.endCallbacks c.callbacks).setContent a { c with callbacks := [] } := by
      simp only [commit, hp]
    rw [hcommit]
    exact inv_endCallbacks hs hc
  | some p =>
    have harmed := (hkeeps p ((slotOf_eq hc .pending).trans hp)).1
    obtain ⟨hstate, hcallbacks⟩ := commitBuffer_eq hs hc hp harmed
    let shows : Content := { c with pending := none, current := some p, previous := none }
    have hcommit : s.commit a c = ((s.committed a c p).endCallbacks shows.callbacks).setContent a
        { shows with callbacks := [] } := by
      have hcontent := congrFun (congrArg content hstate) a
      have hshows : { (s.commitBuffer a c p).2 with pending := none } = shows :=
        Option.some.inj (((update_self _ _ _).symm.trans hcontent).trans (update_self _ _ _))
      rw [← hstate, endCallbacks_setContent, ← hshows]
      simp only [commit, hp, setContent, update_idem]
    rw [hcommit]
    exact inv_endCallbacks (inv_committed hs hreleased hc hp hkeeps) (update_self _ _ _)

end Compositor

/-! ## What is destroyed -/

namespace Compositor

variable {s t : Compositor} {a : ℕ} {c c' : Content} {b p q : Ref} {r w : ℕ} {x y : ℕ × Slot}

/-- A surface that has been told of a buffer that goes -/
def forgotten (r : ℕ) (c : Content) : Content :=
  let clear (b : Option Ref) := if b = some (.dmabuf r) then none else b
  { c with
    pending := clear c.pending
    current := clear c.current
    previous := clear c.previous }

theorem slot_forgotten (slot : Slot) :
    (forgotten r c).slot slot = if c.slot slot = some (.dmabuf r) then none else c.slot slot := by
  cases slot <;> rfl

theorem forgotten_eq_self (h : ∀ slot, c.slot slot ≠ some (.dmabuf r)) : forgotten r c = c := by
  have hpending : c.pending ≠ some (.dmabuf r) := h .pending
  have hcurrent : c.current ≠ some (.dmabuf r) := h .current
  have hprevious : c.previous ≠ some (.dmabuf r) := h .previous
  simp only [forgotten, hpending, hcurrent, hprevious, if_false]

/-- The buffer is gone, and the surfaces know. -/
def freed (s : Compositor) (r : ℕ) : Compositor :=
  { s with
    wlBuffer := update s.wlBuffer r none
    content := fun a => (s.content a).map (forgotten r) }

/-- A buffer that may go is not in use, except by the surface that is told. -/
theorem eq_armedBy_of_slot (hs : BuffersInv s) (hkeeps : KeepsBuffers s (.destroyBuffer r))
    (hx : s.slotOf x = some b) (hb : s.resourceOf b = some r) : s.armedBy r = some x.1 := by
  obtain ⟨a, slot⟩ := x
  have ha : a ∈ s.surfaces := by
    obtain ⟨c, hc, -⟩ := Option.bind_eq_some_iff.1 hx
    rw [hs.listed a, hc]
    rfl
  cases slot with
  | pending => exact hkeeps a ha .pending (by simp) b hx hb
  | current => exact hkeeps a ha .current (by simp) b hx hb
  | previous =>
    rw [hs.previous a] at hx
    cases hx

theorem freeBuffer_eq (hs : BuffersInv s) {buffer : WlBuffer} (hbuffer : s.wlBuffer r = some buffer)
    (hkeeps : KeepsBuffers s (.destroyBuffer r)) : s.freeBuffer r buffer = s.freed r := by
  have harmedBy : s.armedBy r = buffer.surface := by rw [armedBy, hbuffer, Option.bind_some]
  have hkept {a c} (hc : s.content a = some c) (ha : buffer.surface ≠ some a) :
      forgotten r c = c := by
    refine forgotten_eq_self fun slot hslot => ha ?_
    rw [← harmedBy]
    exact eq_armedBy_of_slot hs hkeeps ((slotOf_eq hc slot).trans hslot) rfl
  have hcontent {a : ℕ} (ha : buffer.surface ≠ some a) :
      s.content a = (s.content a).map (forgotten r) := by
    cases hc : s.content a with
    | none => rfl
    | some c => rw [Option.map_some, hkept hc ha]
  cases hsurface : buffer.surface with
  | none =>
    have hsame : s.content = fun a => (s.content a).map (forgotten r) := by
      funext a
      apply hcontent
      rw [hsurface]
      exact (Option.some_ne_none a).symm
    rw [freeBuffer, hsurface, freed, ← hsame]
    rfl
  | some a =>
    have hshown : s.shown a = some r := (hs.armed a r).2 (harmedBy.trans hsurface)
    obtain ⟨c, hc, -⟩ := Option.bind_eq_some_iff.1 (shown_eq_some_iff.1 hshown)
    have hsame : update s.content a (some (forgotten r c)) =
        fun a => (s.content a).map (forgotten r) := by
      funext a'
      by_cases ha : a' = a
      · rw [ha, update_self, hc, Option.map_some]
      · rw [update_of_ne ha]
        refine hcontent fun h => ha ?_
        exact Option.some.inj (h.symm.trans hsurface)
    rw [freed, ← hsame]
    simp only [freeBuffer, notify, hsurface, hc]
    rfl

theorem slotOf_freed (x : ℕ × Slot) : (s.freed r).slotOf x =
    if s.slotOf x = some (.dmabuf r) then none else s.slotOf x := by
  show ((s.content x.1).map (forgotten r)).bind (·.slot x.2) = _
  rw [slotOf]
  cases s.content x.1 with
  | none => simp
  | some c =>
    rw [Option.map_some, Option.bind_some, Option.bind_some]
    exact slot_forgotten x.2

theorem callbacksOf_freed (a : ℕ) : (s.freed r).callbacksOf a = s.callbacksOf a := by
  show ((s.content a).map (forgotten r)).elim [] Content.callbacks = _
  rw [callbacksOf]
  cases s.content a <;> rfl

theorem slotOf_freed_eq_some_iff : (s.freed r).slotOf x = some b ↔
    b ≠ .dmabuf r ∧ s.slotOf x = some b := by
  rw [slotOf_freed]
  split_ifs with h
  · simp [h, eq_comm]
  · refine ⟨fun hx => ⟨?_, hx⟩, And.right⟩
    rintro rfl
    exact h hx

theorem armedBy_freed_eq_some_iff {r' : ℕ} : (s.freed r).armedBy r' = some a ↔
    r' ≠ r ∧ s.armedBy r' = some a := by
  show (update s.wlBuffer r none r').bind WlBuffer.surface = some a ↔ _
  by_cases hr : r' = r
  · simp [hr]
  · rw [update_of_ne hr, armedBy]
    simp [hr]

theorem inv_freed (hs : BuffersInv s) (hreleased : s.released = [])
    (hkeeps : KeepsBuffers s (.destroyBuffer r)) : BuffersInv (s.freed r) := by
  constructor
  case toOwned =>
    constructor
    case live =>
      intro x b hx
      obtain ⟨hne, hold⟩ := slotOf_freed_eq_some_iff.1 hx
      have hlive := hs.live x b hold
      refine live_of hlive (fun _ _ => rfl) fun r' hr' => ?_
      have hr : r' ≠ r := by
        rintro rfl
        -- Only a dma-buf has a surface that is told.
        have harmedBy := eq_armedBy_of_slot hs hkeeps hold hr'
        obtain ⟨dmabuf, hdmabuf, hkind⟩ :=
          hs.live _ _ (shown_eq_some_iff.1 ((hs.armed _ _).2 harmedBy))
        cases b with
        | wrapper w =>
          obtain ⟨r, hr, shm, hshm, hshared⟩ := hlive
          obtain rfl : r = r' := Option.some.inj (hr.symm.trans hr')
          obtain rfl : shm = dmabuf := Option.some.inj (hshm.symm.trans hdmabuf)
          rw [hkind] at hshared
          cases hshared
        | dmabuf r => exact hne (congrArg Ref.dmabuf (Option.some.inj hr'))
      show (update s.wlBuffer r none r').map WlBuffer.isShm = _
      rw [update_of_ne hr]
    case wrappers =>
      refine hs.wrappers.congr (fun x w => ?_) fun w => Iff.rfl
      rw [slotOf_freed_eq_some_iff]
      simp
    case callbacks =>
      refine hs.callbacks.congr (fun a k => ?_) fun k => Iff.rfl
      rw [callbacksOf_freed]
    case once =>
      intro a
      rw [callbacksOf_freed]
      exact hs.once a
    case released =>
      rw [show (s.freed r).released = [] from hreleased]
      exact nofun
    case unfaulted => exact hs.unfaulted
  case armed =>
    intro a r'
    rw [armedBy_freed_eq_some_iff, shown_eq_some_iff, slotOf_freed_eq_some_iff, ← shown_eq_some_iff,
      hs.armed a r']
    simp
  case previous =>
    intro a
    rw [slotOf_freed, hs.previous a]
    rfl
  case listed =>
    intro a
    show a ∈ s.surfaces ↔ ((s.content a).map (forgotten r)).isSome
    rw [Option.isSome_map]
    exact hs.listed a
  case nodup => exact hs.nodup
  case fresh =>
    intro a ha
    obtain ⟨hcontent, hold, hwrapper, hcallback⟩ := hs.fresh a ha
    refine ⟨?_, ?_, hwrapper, hcallback⟩
    · show (s.content a).map (forgotten r) = none
      rw [hcontent]
      rfl
    · show update s.wlBuffer r none a = none
      rw [update_apply]
      split_ifs
      · rfl
      · exact hold

/-- A surface is gone, with what it holds. -/
def withoutSurface (s : Compositor) (a : ℕ) (c : Content) : Compositor :=
  { s with
    wlBuffer := s.rearmed c.current none
    wrapper := s.without c.current
    callback := fun k => if k ∈ c.callbacks then none else s.callback k
    content := update s.content a none
    surfaces := s.surfaces.filter (· ≠ a) }

theorem freeSurface_eq (hs : BuffersInv s) (hc : s.content a = some c) :
    s.freeSurface a c = s.withoutSurface a c := by
  have hprevious : c.previous = none := (slotOf_eq hc .previous).symm.trans (hs.previous a)
  have hqueue := callbacksOf_eq hc
  have hended := endCallbacks_eq (hqueue ▸ hs.once a) fun k hk =>
    hs.callbacks.live_of (hqueue ▸ hk)
  cases hq : c.current with
  | none =>
    simp only [freeSurface, hprevious, hq, hended, withoutSurface, rearmed_none, without_none]
  | some q =>
    let ended : Compositor := { s with
      callback := fun k => if k ∈ c.callbacks then none else s.callback k }
    have hlive : ended.Live q :=
      live_of (hs.live (a, .current) q ((slotOf_eq hc .current).trans hq)) (fun _ _ => rfl)
        fun _ _ => rfl
    have hdispose : ended.dispose q =
        { ended with wrapper := s.without (some q), wlBuffer := s.rearmed (some q) none } :=
      dispose_eq hlive
    simp only [freeSurface, hprevious, hq, hended, withoutSurface]
    rw [show ended.dispose q = _ from hdispose]

theorem slotOf_withoutSurface (x : ℕ × Slot) : (s.withoutSurface a c).slotOf x =
    if x.1 = a then none else s.slotOf x := by
  show (update s.content a none x.1).bind (·.slot x.2) = _
  rw [update_apply]
  split_ifs
  · rfl
  · rfl

theorem callbacksOf_withoutSurface (a' : ℕ) : (s.withoutSurface a c).callbacksOf a' =
    if a' = a then [] else s.callbacksOf a' := by
  show (update s.content a none a').elim [] Content.callbacks = _
  rw [update_apply]
  split_ifs
  · rfl
  · rfl

theorem shown_withoutSurface : (s.withoutSurface a c).shown = update s.shown a none := by
  funext a'
  rw [shown, slotOf_withoutSurface, update_apply]
  split_ifs
  · rfl
  · rfl

theorem armedBy_withoutSurface (hc : s.content a = some c) : (s.withoutSurface a c).armedBy =
    fun r => if s.shown a = some r then none else s.armedBy r := by
  funext r
  have hiff : s.shown a = some r ↔ c.current = some (.dmabuf r) := by
    rw [shown_eq_some_iff, show s.slotOf (a, .current) = c.current from slotOf_eq hc .current]
  simp only [hiff, armedBy, withoutSurface, rearmed]
  split_ifs
  · cases s.wlBuffer r <;> rfl
  · rfl

theorem inv_withoutSurface (hs : BuffersInv s) (hreleased : s.released = [])
    (hc : s.content a = some c) (hkeeps : KeepsBuffers s (.destroySurface a)) :
    BuffersInv (s.withoutSurface a c) := by
  have hcurrent : s.slotOf (a, .current) = c.current := slotOf_eq hc .current
  have hqueue := callbacksOf_eq hc
  constructor
  case toOwned =>
    constructor
    case live =>
      intro x b hx
      rw [slotOf_withoutSurface] at hx
      split_ifs at hx with ha
      refine live_of (hs.live x b hx) ?_ fun r _ => map_isShm_rearmed _ _ r
      rintro w rfl
      have hne : x ≠ (a, .current) := fun h => ha (congrArg Prod.fst h)
      show s.without c.current w = s.wrapper w
      rw [← hcurrent]
      exact without_of_ne hs.toOwned hx hne
    case wrappers =>
      refine (hs.wrappers.clear (a, .current)).congr (fun x w => ?_) fun w => ?_
      · rw [slotOf_withoutSurface]
        obtain ⟨a', slot⟩ := x
        by_cases ha : a' = a
        · subst ha
          have hpending : s.slotOf (a', .pending) ≠ some (.wrapper w) := fun hw =>
            Bool.noConfusion (hkeeps _ hw)
          cases slot with
          | pending => simp [hpending]
          | current => simp
          | previous => simp [hs.previous a']
        · simp [ha]
      · show (s.without c.current w).isSome ↔ _
        rw [isSome_without, hcurrent]
    case callbacks =>
      refine (hs.callbacks.clear a).congr (fun a' k => ?_) fun k => ?_
      · rw [callbacksOf_withoutSurface]
        split_ifs with ha
        · simp [ha]
        · simp [ha]
      · rw [hqueue]
        simp only [withoutSurface]
        split_ifs with hk
        · simp [hk]
        · simp [hk]
    case once =>
      intro a'
      rw [callbacksOf_withoutSurface]
      split_ifs
      · exact List.nodup_nil
      · exact hs.once a'
    case released =>
      rw [show (s.withoutSurface a c).released = [] from hreleased]
      exact nofun
    case unfaulted => exact hs.unfaulted
  case armed =>
    rw [shown_withoutSurface, armedBy_withoutSurface hc]
    exact hs.armed.clear a
  case previous =>
    intro a'
    rw [slotOf_withoutSurface, hs.previous a', ite_self]
  case listed =>
    intro a'
    show a' ∈ s.surfaces.filter (· ≠ a) ↔ (update s.content a none a').isSome
    rw [List.mem_filter, hs.listed a', update_apply]
    split_ifs with ha
    · simp [ha]
    · simp [ha]
  case nodup => exact hs.nodup.filter _
  case fresh =>
    intro a' ha'
    obtain ⟨hcontent, hold, hwrapper, hcallback⟩ := hs.fresh a' ha'
    refine ⟨?_, ?_, ?_, ?_⟩
    · show update s.content a none a' = none
      rw [update_apply, hcontent, ite_self]
    · simp [withoutSurface, rearmed, hold]
    · simp [withoutSurface, without, hwrapper]
    · simp [withoutSurface, hcallback]

end Compositor

/-! ## What is made -/

namespace Compositor

variable {s t : Compositor} {a : ℕ} {c c' : Content} {b p q : Ref} {r w : ℕ} {x y : ℕ × Slot}

/-- What remains to be shown when no surface points elsewhere -/
theorem inv_of_same (hs : BuffersInv s) (hslot : ∀ x, t.slotOf x = s.slotOf x)
    (hcallbacks : ∀ a, t.callbacksOf a = s.callbacksOf a) (hwrapper : t.wrapper = s.wrapper)
    (hbuffer : ∀ r buffer, s.wlBuffer r = some buffer → t.wlBuffer r = some buffer)
    (harmedBy : t.armedBy = s.armedBy) (hcallback : t.callback = s.callback)
    (hreleased : t.released = []) (hfaulted : t.faulted = s.faulted)
    (hlisted : ∀ a, a ∈ t.surfaces ↔ (t.content a).isSome) (hnodup : t.surfaces.Nodup)
    (hfresh : ∀ a, t.next ≤ a → t.content a = none ∧ t.wlBuffer a = none ∧ t.wrapper a = none ∧
      t.callback a = none) : BuffersInv t := by
  constructor
  case toOwned =>
    constructor
    case live =>
      intro x b hx
      rw [hslot] at hx
      have hlive := hs.live x b hx
      refine live_of hlive (fun w _ => by rw [hwrapper]) fun r hr => ?_
      obtain ⟨r', hr', hsome⟩ := exists_resourceOf hlive
      obtain rfl : r' = r := Option.some.inj (hr'.symm.trans hr)
      obtain ⟨buffer, hold⟩ := Option.isSome_iff_exists.1 hsome
      rw [hold, hbuffer r' buffer hold]
    case wrappers => exact hs.wrappers.congr (fun x w => by rw [hslot]) fun w => by rw [hwrapper]
    case callbacks =>
      exact hs.callbacks.congr (fun a k => by rw [hcallbacks]) fun k => by rw [hcallback]
    case once =>
      intro a
      rw [hcallbacks]
      exact hs.once a
    case released =>
      rw [hreleased]
      exact nofun
    case unfaulted => exact hfaulted.trans hs.unfaulted
  case armed =>
    rw [shown_congr fun a => hslot _, harmedBy]
    exact hs.armed
  case previous =>
    intro a
    rw [hslot]
    exact hs.previous a
  case listed => exact hlisted
  case nodup => exact hnodup
  case fresh => exact hfresh

theorem inv_newSurface (hs : BuffersInv s) (hreleased : s.released = []) (client id : ℕ) :
    BuffersInv { s with
      next := s.next + 1
      content := update s.content s.next (some ⟨client, id, none, none, none, []⟩)
      surfaces := s.next :: s.surfaces } := by
  obtain ⟨hnew, -⟩ := hs.fresh s.next (Nat.le_refl _)
  let t : Compositor := { s with
    next := s.next + 1
    content := update s.content s.next (some ⟨client, id, none, none, none, []⟩)
    surfaces := s.next :: s.surfaces }
  apply inv_of_same (t := t) hs ?_ ?_ rfl (fun _ _ h => h) rfl rfl hreleased rfl
  · intro a
    show a ∈ s.next :: s.surfaces ↔ (update s.content s.next _ a).isSome
    rw [List.mem_cons, hs.listed a, update_apply]
    split_ifs with ha
    · simp [ha]
    · simp [ha]
  · refine List.nodup_cons.2 ⟨?_, hs.nodup⟩
    rw [hs.listed, hnew]
    exact Bool.false_ne_true
  · intro a ha
    obtain ⟨hcontent, hrest⟩ := hs.fresh a (Nat.le_of_succ_le ha)
    exact ⟨(update_of_ne (Nat.ne_of_gt ha) _ _).trans hcontent, hrest⟩
  · intro x
    rw [slotOf_update (t := t) rfl]
    split_ifs with hx
    · rw [slotOf, hx, hnew]
      cases x.2 <;> rfl
    · rfl
  · intro a
    rw [callbacksOf_update (t := t) rfl]
    split_ifs with ha
    · rw [callbacksOf, ha, hnew]
      rfl
    · rfl

theorem inv_newBuffer (hs : BuffersInv s) (hreleased : s.released = []) (client id : ℕ)
    (isShm : Bool) :
    BuffersInv { s with
      next := s.next + 1
      wlBuffer := update s.wlBuffer s.next (some ⟨client, id, isShm, none⟩) } := by
  obtain ⟨-, hnew, -⟩ := hs.fresh s.next (Nat.le_refl _)
  let t : Compositor := { s with
    next := s.next + 1
    wlBuffer := update s.wlBuffer s.next (some ⟨client, id, isShm, none⟩) }
  apply inv_of_same (t := t) hs (fun _ => rfl) (fun _ => rfl) rfl ?_ ?_ rfl hreleased rfl hs.listed
    hs.nodup
  · intro a ha
    obtain ⟨hcontent, hbuffer, hrest⟩ := hs.fresh a (Nat.le_of_succ_le ha)
    exact ⟨hcontent, (update_of_ne (Nat.ne_of_gt ha) _ _).trans hbuffer, hrest⟩
  · intro r buffer hr
    have hne : r ≠ s.next := by
      rintro rfl
      rw [hnew] at hr
      cases hr
    exact (update_of_ne hne _ _).trans hr
  · funext r
    show (update s.wlBuffer s.next _ r).bind WlBuffer.surface = (s.wlBuffer r).bind WlBuffer.surface
    by_cases hr : r = s.next
    · rw [hr, update_self, hnew]
      rfl
    · rw [update_of_ne hr]

theorem inv_leaving (hs : BuffersInv s) (hreleased : s.released = []) (client : Option ℕ) :
    BuffersInv { s with leaving := client } :=
  inv_of_same hs (fun _ => rfl) (fun _ => rfl) rfl (fun _ _ h => h) rfl rfl hreleased rfl hs.listed
    hs.nodup hs.fresh

/-- The releases of the last request are in the past. -/
theorem inv_reset (hs : BuffersInv s) : BuffersInv { s with released := [] } :=
  inv_of_same hs (fun _ => rfl) (fun _ => rfl) rfl (fun _ _ h => h) rfl rfl rfl rfl hs.listed
    hs.nodup hs.fresh

end Compositor

/-! ## Every run -/

theorem buffersInv_init : BuffersInv .init := by
  constructor
  case toOwned =>
    constructor
    case live => exact nofun
    case wrappers =>
      refine owns_nothing.congr (fun x w => ?_) fun w => ?_
      · simp [Compositor.slotOf, Compositor.init]
      · simp [Compositor.init]
    case callbacks =>
      refine owns_nothing.congr (fun a k => ?_) fun k => ?_
      · simp [Compositor.callbacksOf, Compositor.init]
      · simp [Compositor.init]
    case once => exact fun _ => List.nodup_nil
    case released => exact nofun
    case unfaulted => rfl
  case armed => exact paired_none
  case previous => exact fun _ => rfl
  case listed =>
    intro a
    simp [Compositor.init]
  case nodup => exact List.nodup_nil
  case fresh => exact fun _ _ => ⟨rfl, rfl, rfl, rfl⟩

theorem buffersInv_step (s : Compositor) (e : BufferRequest) (t : Compositor) (hs : BuffersInv s)
    (hkeeps : KeepsBuffers s e) (h : bufferSystem.step s e = some t) : BuffersInv t := by
  have hreset := Compositor.inv_reset hs
  have hrunning : ¬ s.faulted = true := by
    rw [hs.unfaulted]
    exact Bool.false_ne_true
  replace h : s.handle e = some t := h
  rw [Compositor.handle, if_neg hrunning] at h
  cases e with
  | createSurface client id alloc =>
    obtain ⟨-, ⟨⟩⟩ := Option.ite_none_right_eq_some.1 h
    split_ifs
    · exact Compositor.inv_newSurface hreset rfl client id
    · exact Compositor.inv_leaving hreset rfl _
  | createBuffer client id isShm alloc =>
    obtain ⟨-, ⟨⟩⟩ := Option.ite_none_right_eq_some.1 h
    split_ifs
    · exact Compositor.inv_newBuffer hreset rfl client id isShm
    · exact Compositor.inv_leaving hreset rfl _
  | attach a buffer allocated =>
    obtain ⟨c, hc, h⟩ := Option.bind_eq_some_iff.1 h
    obtain ⟨hwhen, ⟨⟩⟩ := Option.ite_none_right_eq_some.1 h
    apply Compositor.inv_attach hreset rfl hc buffer allocated ?_ hkeeps
    rintro r rfl
    have hany := (Bool.and_eq_true_iff.1 hwhen).2
    rw [Option.all_some] at hany
    exact Option.isSome_of_any hany
  | frame a id alloc =>
    obtain ⟨c, hc, h⟩ := Option.bind_eq_some_iff.1 h
    obtain ⟨-, ⟨⟩⟩ := Option.ite_none_right_eq_some.1 h
    exact Compositor.inv_frame hreset hc id hkeeps
  | commit a =>
    obtain ⟨c, hc, h⟩ := Option.bind_eq_some_iff.1 h
    obtain ⟨-, ⟨⟩⟩ := Option.ite_none_right_eq_some.1 h
    exact Compositor.inv_commit hreset rfl hc hkeeps
  | tick =>
    obtain ⟨-, ⟨⟩⟩ := Option.ite_none_right_eq_some.1 h
    exact Compositor.inv_tick hreset
  | destroyBuffer r =>
    obtain ⟨buffer, hbuffer, h⟩ := Option.bind_eq_some_iff.1 h
    obtain ⟨-, ⟨⟩⟩ := Option.ite_none_right_eq_some.1 h
    rw [Compositor.freeBuffer_eq hreset hbuffer hkeeps]
    exact Compositor.inv_freed hreset rfl hkeeps
  | destroySurface a =>
    obtain ⟨c, hc, h⟩ := Option.bind_eq_some_iff.1 h
    obtain ⟨-, ⟨⟩⟩ := Option.ite_none_right_eq_some.1 h
    rw [Compositor.freeSurface_eq hreset hc]
    exact Compositor.inv_withoutSurface hreset rfl hc hkeeps
  | destroyCallback k => exact absurd hkeeps id
  | disconnect client =>
    obtain ⟨-, ⟨⟩⟩ := Option.ite_none_right_eq_some.1 h
    exact Compositor.inv_leaving hreset rfl _
  | gone =>
    obtain ⟨client, -, h⟩ := Option.bind_eq_some_iff.1 h
    obtain ⟨-, ⟨⟩⟩ := Option.ite_none_right_eq_some.1 h
    exact Compositor.inv_leaving hreset rfl _

/-- As long as every request meets the condition, the buffers are owned. -/
theorem buffers_kept {es : List BufferRequest} {t : Compositor}
    (hkeeps : bufferSystem.Guarded KeepsBuffers .init es)
    (hrun : bufferSystem.run .init es = some t) : Owned t :=
  (bufferSystem.invariant_of_guarded buffersInv_step buffersInv_init hkeeps hrun).toOwned

instance : ∀ (s : Compositor) (e : BufferRequest), Decidable (KeepsBuffers s e)
  | s, .attach a (some r) allocated => inferInstanceAs (Decidable
    (if (s.wlBuffer r).any WlBuffer.isShm then allocated = true
      else ∀ b ∈ s.slotOf (a, .pending), b.isShm = false))
  | _, .frame _ _ alloc => inferInstanceAs (Decidable (alloc ≠ .noResource))
  | s, .commit a => inferInstanceAs (Decidable (∀ p ∈ s.slotOf (a, .pending),
    (∀ b ∈ s.armedOn p, b = a) ∧
      ∀ q ∈ s.slotOf (a, .current), q ≠ p → s.resourceOf q ≠ s.resourceOf p ∧
        ∀ a' ∈ s.surfaces, a' ≠ a → ∀ b ∈ s.slotOf (a', .current),
          s.resourceOf b ≠ s.resourceOf q))
  | s, .destroyBuffer r => inferInstanceAs (Decidable (∀ a ∈ s.surfaces,
    ∀ slot ∈ [Slot.pending, .current], ∀ b ∈ s.slotOf (a, slot),
      s.resourceOf b = some r → s.armedBy r = some a))
  | s, .destroySurface a => inferInstanceAs (Decidable
    (∀ b ∈ s.slotOf (a, .pending), b.isShm = false))
  | _, .destroyCallback _ => isFalse id
  | _, .attach _ none _ | _, .createSurface _ _ _ | _, .createBuffer _ _ _ _ | _, .tick
  | _, .disconnect _ | _, .gone => isTrue trivial

/-- A client shows a buffer of each kind, and leaves. -/
def twoKinds : List BufferRequest :=
  [.createSurface 1 3 .created, .createBuffer 1 4 true .created, .createBuffer 1 5 false .created,
    .attach 0 (some 1) true, .frame 0 6 .created, .commit 0, .attach 0 (some 2) true, .commit 0,
    .attach 0 none true, .frame 0 6 .created, .tick, .frame 0 7 .created, .destroyBuffer 2,
    .disconnect 1, .destroySurface 0, .destroyBuffer 1, .gone]

theorem buffers_kept_twoKinds :
    Owned ((bufferSystem.run .init twoKinds).get (by decide +kernel)) :=
  @buffers_kept twoKinds _ (by decide +kernel) (Option.some_get _).symm

/-- A client destroys a buffer in shared memory while it is shown. -/
def shownGone : List BufferRequest :=
  [.createSurface 1 3 .created, .createBuffer 1 4 true .created, .attach 0 (some 1) true,
    .commit 0, .destroyBuffer 1]

theorem not_owned_shownGone : ¬ ∀ es t, bufferSystem.run .init es = some t → Owned t := by
  intro h
  have hgone : (bufferSystem.run .init shownGone).map (fun t =>
      (t.slotOf (0, .current), t.wrapper 2, (t.wlBuffer 1).isSome)) =
        some (some (.wrapper 2), some 1, false) := by decide +kernel
  obtain ⟨t, ht, heq⟩ := Option.map_eq_some_iff.1 hgone
  obtain ⟨hslot, heq⟩ := Prod.mk.inj heq
  obtain ⟨hwrapper, hbuffer⟩ := Prod.mk.inj heq
  obtain ⟨r, hr, buffer, hmem, -⟩ := (h shownGone t ht).live _ _ hslot
  obtain rfl : 1 = r := Option.some.inj (hwrapper.symm.trans hr)
  rw [Option.mem_def.1 hmem] at hbuffer
  cases hbuffer

end Droidspaces.Wayland
