import Droidspaces.Transition.System
import Mathlib.Data.List.FinRange
import Mathlib.Tactic.SplitIfs

/-!
# The descriptors of dma-bufs

A client sends the descriptors of a dma-buf one by one to a params object, each for a plane, and
then asks for a buffer, which takes over what the params object has.  Whoever has a descriptor when
it goes closes it.

Each descriptor is closed once, unless one is sent for a plane that has one already or the resource
of a buffer cannot be created; then descriptors are never closed (`keptPlanes_iff`).
-/

namespace Droidspaces.Dmabuf

open Function Transition

/-! ## The code -/

/-- `MAX_PLANES` -/
abbrev maxPlanes : ℕ := 4

/-- `fds` and `plane_count` of a `ds_dmabuf_params`, `dmabuf_fds` and `dmabuf_num_planes` of a
`ds_buffer`; there is no descriptor where they have a `-1`.  A descriptor is known by when it was
received. -/
structure Planes where
  fds : Fin maxPlanes → Option ℕ
  planeCount : ℕ

inductive Object
  | params (p : ℕ)
  | buffer (b : ℕ)
  deriving DecidableEq

structure Server where
  objects : Object → Option Planes
  /-- How many descriptors were received. -/
  received : ℕ
  /-- How often each was closed. -/
  closed : ℕ → ℕ

inductive Request
  | createParams (p : ℕ) (created : Bool)
  | add (p planeIdx : ℕ)
  /-- `create` and `create_immed`, which are answered differently. -/
  | create (p b : ℕ) (allocated created : Bool)
  /-- `buffer_resource_destroy` and `params_resource_destroy` -/
  | destroy (o : Object)

def close (closed : ℕ → ℕ) (fd : ℕ) : ℕ → ℕ := update closed fd (closed fd + 1)

/-- The loop with which an object goes. -/
def closePlanes (planes : Planes) (closed : ℕ → ℕ) : ℕ → ℕ :=
  (List.finRange maxPlanes).foldl
    (fun closed i =>
      if i.val < planes.planeCount then (planes.fds i).elim closed (close closed) else closed)
    closed

def noPlanes : Planes where
  fds _ := none
  planeCount := 0

/-- `params_add`, of the descriptor `fd` -/
def paramsAdd (s : Server) (p planeIdx fd : ℕ) : Server :=
  match s.objects (.params p) with
  | none => { s with closed := close s.closed fd }
  | some params =>
    if h : planeIdx < maxPlanes then
      let params : Planes :=
        { fds := update params.fds ⟨planeIdx, h⟩ (some fd)
          planeCount := if params.planeCount ≤ planeIdx then planeIdx + 1 else params.planeCount }
      { s with objects := update s.objects (.params p) (some params) }
    else { s with closed := close s.closed fd }

/-- `create_buffer_from_params` -/
def createBufferFromParams (s : Server) (p b : ℕ) (allocated created : Bool) : Server :=
  match s.objects (.params p) with
  | none => s
  | some params =>
    if params.planeCount < 1 then s
    else if allocated = false then s
    else
      let numPlanes := if maxPlanes < params.planeCount then maxPlanes else params.planeCount
      let buf : Planes :=
        { fds := fun i => if i.val < numPlanes then params.fds i else none
          planeCount := numPlanes }
      let params := { params with fds := fun i => if i.val < numPlanes then none else params.fds i }
      let s := { s with objects := update s.objects (.params p) (some params) }
      -- without a resource the buffer is freed, and what it took over is lost
      if created = false then s
      else { s with objects := update s.objects (.buffer b) (some buf) }

/-- What a request does; a new object is none that there is, and one that goes was there. -/
def step (s : Server) : Request → Option Server
  | .createParams p created =>
    if (s.objects (.params p)).isSome then none
    else if created = false then some s
    else some { s with objects := update s.objects (.params p) (some noPlanes) }
  | .add p planeIdx => some (paramsAdd { s with received := s.received + 1 } p planeIdx s.received)
  | .create p b allocated created =>
    if (s.objects (.buffer b)).isSome then none
    else some (createBufferFromParams s p b allocated created)
  | .destroy o =>
    (s.objects o).map fun planes =>
      { s with objects := update s.objects o none, closed := closePlanes planes s.closed }

def system : System Server Request where
  step := step

def init : Server where
  objects _ := none
  received := 0
  closed _ := 0

/-! ## What should hold -/

/-- The plane of an object has the descriptor. -/
def Server.Holds (s : Server) (x : Object × Fin maxPlanes) (v : ℕ) : Prop :=
  ∃ planes ∈ s.objects x.1, planes.fds x.2 = some v

structure Kept (s : Server) : Prop where
  /-- When all objects are gone, each descriptor was closed once. -/
  closed : (∀ o, s.objects o = none) → ∀ v < s.received, s.closed v = 1
  /-- What a buffer has is not closed, and nobody else has it. -/
  buffers : ∀ b i v, s.Holds (.buffer b, i) v →
    s.closed v = 0 ∧ ∀ x, s.Holds x v → x = (.buffer b, i)

/-- The requests after which no descriptor is lost. -/
def Keeps (s : Server) : Request → Prop
  | .add p planeIdx =>
    ∀ params ∈ s.objects (.params p), ∀ h : planeIdx < maxPlanes, params.fds ⟨planeIdx, h⟩ = none
  | .create p _ allocated created =>
    allocated = true → created = false → ∀ params ∈ s.objects (.params p), ∀ i, params.fds i = none
  | _ => True

/-! ## Closing -/

theorem close_apply (closed : ℕ → ℕ) (fd v : ℕ) :
    close closed fd v = closed v + if fd = v then 1 else 0 := by
  unfold close
  by_cases h : fd = v
  · rw [h, update_self, if_pos rfl]
  · rw [update_of_ne (Ne.symm h), if_neg h, Nat.add_zero]

/-- No descriptor is in two planes, and `planeCount` is behind all of them. -/
structure Planes.Sound (planes : Planes) : Prop where
  inj : ∀ i j v, planes.fds i = some v → planes.fds j = some v → i = j
  counted : ∀ i v, planes.fds i = some v → i < planes.planeCount
  planeCount_le : planes.planeCount ≤ maxPlanes

theorem Planes.Sound.foldl_close {planes : Planes} (h : planes.Sound) (l : List (Fin maxPlanes))
    (hl : l.Nodup) (closed : ℕ → ℕ) (v : ℕ) :
    l.foldl (fun closed i =>
      if i.val < planes.planeCount then (planes.fds i).elim closed (close closed) else closed)
        closed v =
        closed v + if ∃ i ∈ l, planes.fds i = some v then 1 else 0 := by
  induction l generalizing closed with
  | nil => simp
  | cons i l ih =>
    obtain ⟨hi, hl⟩ := List.nodup_cons.1 hl
    rw [List.foldl_cons, ih hl]
    cases hfd : planes.fds i with
    | none => simp [hfd]
    | some fd =>
      rw [if_pos (h.counted i fd hfd), Option.elim_some, close_apply]
      by_cases hv : fd = v
      · have hnot : ¬ ∃ j ∈ l, planes.fds j = some v := by
          rintro ⟨j, hj, hjv⟩
          exact hi (h.inj i j v (hv ▸ hfd) hjv ▸ hj)
        simp [hv, hfd, hnot]
      · simp [hv, hfd]

/-- **When an object goes, what it has is closed, and nothing else.** -/
theorem Planes.Sound.closePlanes_apply {planes : Planes} (h : planes.Sound) (closed : ℕ → ℕ)
    (v : ℕ) : closePlanes planes closed v =
      closed v + if ∃ i, planes.fds i = some v then 1 else 0 := by
  unfold closePlanes
  rw [h.foldl_close _ (List.nodup_finRange _)]
  simp

/-! ## What holds in every state -/

structure Sound (s : Server) : Prop where
  planes : ∀ o planes, s.objects o = some planes → planes.Sound
  unique : ∀ x y v, s.Holds x v → s.Holds y v → x = y
  held : ∀ x v, s.Holds x v → v < s.received ∧ s.closed v = 0
  once : ∀ v, s.closed v ≤ 1
  fresh : ∀ v, s.received ≤ v → s.closed v = 0

/-- Each descriptor is closed or somebody has it. -/
def Leakfree (s : Server) : Prop := ∀ v < s.received, s.closed v = 1 ∨ ∃ x, s.Holds x v

section Steps

variable {s : Server}

theorem holds_update (o : Object) (planes : Option Planes) (received : ℕ) (closed : ℕ → ℕ)
    (x : Object × Fin maxPlanes) (v : ℕ) :
    Server.Holds ⟨update s.objects o planes, received, closed⟩ x v ↔
      x.1 = o ∧ (∃ ps ∈ planes, ps.fds x.2 = some v) ∨ x.1 ≠ o ∧ s.Holds x v := by
  unfold Server.Holds
  by_cases h : x.1 = o
  · simp [h]
  · simp [h]

theorem Sound.not_holds_received (hs : Sound s) (x : Object × Fin maxPlanes) :
    ¬ s.Holds x s.received := fun h => lt_irrefl _ (hs.held x _ h).1

/-- What somebody had is lost if then nobody has it and it was not closed. -/
theorem Sound.not_leakfree_of_gone (hs : Sound s) {t : Server} (hclosed : t.closed = s.closed)
    (hle : s.received ≤ t.received) {x : Object × Fin maxPlanes} {v : ℕ} (hx : s.Holds x v)
    (hgone : ∀ y, ¬ t.Holds y v) : ¬ Leakfree t := by
  intro h
  obtain ⟨hlt, hopen⟩ := hs.held x v hx
  rcases h v (hlt.trans_le hle) with hone | ⟨y, hy⟩
  · rw [hclosed, hopen] at hone
    cases hone
  · exact hgone y hy

/-- A descriptor that comes and goes. -/
theorem sound_close (hs : Sound s) :
    Sound ⟨s.objects, s.received + 1, close s.closed s.received⟩ ∧
      (Leakfree ⟨s.objects, s.received + 1, close s.closed s.received⟩ ↔ Leakfree s) := by
  have hzero := hs.fresh s.received le_rfl
  have hclosed : ∀ v < s.received, close s.closed s.received v = s.closed v := fun v hv => by
    rw [close_apply, if_neg hv.ne', Nat.add_zero]
  refine ⟨⟨hs.planes, hs.unique, fun x v hx => ?_, fun v => ?_, fun v hv => ?_⟩, ?_⟩
  · obtain ⟨hlt, hopen⟩ := hs.held x v hx
    exact ⟨hlt.trans (Nat.lt_succ_self _), (hclosed v hlt).trans hopen⟩
  · show close s.closed s.received v ≤ 1
    rw [close_apply]
    split
    · next h => rw [← h, hzero]
    · exact hs.once v
  · have hlt : s.received < v := hv
    show close s.closed s.received v = 0
    rw [close_apply, if_neg hlt.ne, hs.fresh v hlt.le]
  · constructor
    · intro h v hv
      refine (h v (hv.trans (Nat.lt_succ_self _))).imp_left fun hone => ?_
      exact (hclosed v hv).symm.trans hone
    · intro h v hv
      rcases Nat.lt_succ_iff_lt_or_eq.1 hv with hlt | rfl
      · exact (h v hlt).imp_left fun hone => (hclosed v hlt).trans hone
      · left
        show close s.closed s.received s.received = 1
        rw [close_apply, if_pos rfl, hzero]

/-- A plane gets a descriptor that no other has. -/
theorem Planes.Sound.setPlane {planes : Planes} (h : planes.Sound) {i : Fin maxPlanes} {fd : ℕ}
    (hfresh : ∀ j, planes.fds j ≠ some fd) {count : ℕ} (hi : i.val < count)
    (hle : planes.planeCount ≤ count) (hcount : count ≤ maxPlanes) :
    Planes.Sound ⟨update planes.fds i (some fd), count⟩ := by
  refine ⟨fun j k v hj hk => ?_, fun j v hj => ?_, hcount⟩
  · simp only [update_apply] at hj hk
    split_ifs at hj hk with hji hki hki
    · rw [hji, hki]
    · exact absurd (hk.trans hj.symm) (hfresh k)
    · exact absurd (hj.trans hk.symm) (hfresh j)
    · exact h.inj j k v hj hk
  · simp only [update_apply] at hj
    split_ifs at hj with hji
    · rw [hji]
      exact hi
    · exact (h.counted j v hj).trans_le hle

theorem holds_setPlane {o : Object} {planes : Planes} (ho : s.objects o = some planes)
    (i : Fin maxPlanes) (count : ℕ) (x : Object × Fin maxPlanes) (v : ℕ) :
    Server.Holds ⟨update s.objects o (some ⟨update planes.fds i (some s.received), count⟩),
        s.received + 1, s.closed⟩ x v ↔
      x = (o, i) ∧ v = s.received ∨ x ≠ (o, i) ∧ s.Holds x v := by
  obtain ⟨o', j⟩ := x
  rw [holds_update]
  by_cases ho' : o' = o
  · subst ho'
    by_cases hj : j = i
    · simp [hj, eq_comm]
    · simp [hj, Server.Holds, ho]
  · simp [ho']

/-- A plane gets a descriptor that was just received. -/
theorem sound_setPlane (hs : Sound s) {o : Object} {planes : Planes}
    (ho : s.objects o = some planes) (i : Fin maxPlanes) {count : ℕ} (hi : i.val < count)
    (hle : planes.planeCount ≤ count) (hcount : count ≤ maxPlanes) :
    Sound ⟨update s.objects o (some ⟨update planes.fds i (some s.received), count⟩),
      s.received + 1, s.closed⟩ := by
  refine ⟨fun o' planes' h => ?_, fun x y v hx hy => ?_, fun x v hx => ?_, hs.once,
    fun v hv => hs.fresh v (Nat.le_of_succ_le hv)⟩
  · by_cases ho' : o' = o
    · subst ho'
      simp only [update_self, Option.some.injEq] at h
      subst h
      refine (hs.planes _ _ ho).setPlane (fun j hj => ?_) hi hle hcount
      exact hs.not_holds_received (o', j) ⟨planes, ho, hj⟩
    · simp only [update_of_ne ho'] at h
      exact hs.planes o' planes' h
  · rcases (holds_setPlane ho i count x v).1 hx with ⟨rfl, rfl⟩ | ⟨-, hx⟩
    · rcases (holds_setPlane ho i count y s.received).1 hy with ⟨rfl, -⟩ | ⟨-, hy⟩
      · rfl
      · exact absurd hy (hs.not_holds_received y)
    · rcases (holds_setPlane ho i count y v).1 hy with ⟨-, rfl⟩ | ⟨-, hy⟩
      · exact absurd hx (hs.not_holds_received x)
      · exact hs.unique x y v hx hy
  · rcases (holds_setPlane ho i count x v).1 hx with ⟨-, rfl⟩ | ⟨-, hx⟩
    · exact ⟨Nat.lt_succ_self _, hs.fresh _ le_rfl⟩
    · obtain ⟨hlt, hopen⟩ := hs.held x v hx
      exact ⟨hlt.trans (Nat.lt_succ_self _), hopen⟩

/-- What the plane had before is lost. -/
theorem leakfree_setPlane_iff (hs : Sound s) {o : Object} {planes : Planes}
    (ho : s.objects o = some planes) (i : Fin maxPlanes) (count : ℕ) :
    Leakfree ⟨update s.objects o (some ⟨update planes.fds i (some s.received), count⟩),
      s.received + 1, s.closed⟩ ↔ Leakfree s ∧ planes.fds i = none := by
  have hold (v : ℕ) : s.Holds (o, i) v ↔ planes.fds i = some v := by simp [Server.Holds, ho]
  refine ⟨fun h => ⟨fun v hv => ?_, ?_⟩, fun ⟨h, hnone⟩ v hv => ?_⟩
  · refine (h v (hv.trans (Nat.lt_succ_self _))).imp_right fun ⟨x, hx⟩ => ?_
    exact ⟨x, (((holds_setPlane ho i count x v).1 hx).resolve_left fun heq => hv.ne heq.2).2⟩
  · cases hfd : planes.fds i with
    | none => rfl
    | some w =>
      have hw := (hold w).2 hfd
      refine absurd h (hs.not_leakfree_of_gone rfl (Nat.le_succ _) hw fun x hx => ?_)
      rcases (holds_setPlane ho i count x w).1 hx with ⟨-, rfl⟩ | ⟨hne, hx⟩
      · exact hs.not_holds_received _ hw
      · exact hne (hs.unique _ _ w hx hw)
  · rcases Nat.lt_succ_iff_lt_or_eq.1 hv with hlt | rfl
    · refine (h v hlt).imp_right fun ⟨x, hx⟩ =>
        ⟨x, (holds_setPlane ho i count x v).2 (Or.inr ⟨?_, hx⟩)⟩
      rintro rfl
      rw [hold, hnone] at hx
      cases hx
    · exact Or.inr ⟨(o, i), (holds_setPlane ho i count _ _).2 (Or.inl ⟨rfl, rfl⟩)⟩

/-- An object goes, or loses what it has. -/
theorem holds_drop {o : Object} {new : Option Planes} (hnew : ∀ ps ∈ new, ∀ i, ps.fds i = none)
    (received : ℕ) (closed : ℕ → ℕ) (x : Object × Fin maxPlanes) (v : ℕ) :
    Server.Holds ⟨update s.objects o new, received, closed⟩ x v ↔ x.1 ≠ o ∧ s.Holds x v := by
  rw [holds_update, or_iff_right]
  rintro ⟨-, ps, hps, hfd⟩
  rw [hnew ps hps] at hfd
  cases hfd

theorem soundPlanes_update (hs : Sound s) {o : Object} {new : Option Planes}
    (hnew : ∀ ps ∈ new, ps.Sound) {o' : Object} {planes : Planes}
    (h : update s.objects o new o' = some planes) : planes.Sound := by
  by_cases ho : o' = o
  · rw [ho, update_self] at h
    exact hnew planes h
  · rw [update_of_ne ho] at h
    exact hs.planes o' planes h

theorem sound_none {count : ℕ} (h : count ≤ maxPlanes) : Planes.Sound ⟨fun _ => none, count⟩ where
  inj _ _ _ hi _ := by cases hi
  counted _ _ hi := by cases hi
  planeCount_le := h

/-- What an object has is lost. -/
theorem sound_drop (hs : Sound s) {o : Object} {planes : Planes} (ho : s.objects o = some planes) :
    Sound ⟨update s.objects o (some ⟨fun _ => none, planes.planeCount⟩), s.received, s.closed⟩ ∧
      (Leakfree ⟨update s.objects o (some ⟨fun _ => none, planes.planeCount⟩), s.received,
        s.closed⟩ ↔ Leakfree s ∧ ∀ i, planes.fds i = none) := by
  have hnone := sound_none (hs.planes _ _ ho).planeCount_le
  have hholds := fun x v => @holds_drop s o (some ⟨fun _ => none, planes.planeCount⟩)
    (by rintro ps ⟨⟩ i; rfl) s.received s.closed x v
  refine ⟨⟨fun o' planes' h => soundPlanes_update hs (by rintro ps ⟨⟩; exact hnone) h,
    fun x y v hx hy => hs.unique x y v ((hholds x v).1 hx).2 ((hholds y v).1 hy).2,
    fun x v hx => hs.held x v ((hholds x v).1 hx).2, hs.once, hs.fresh⟩, fun h => ⟨fun v hv => ?_,
    fun i => ?_⟩, fun ⟨h, hfds⟩ v hv => ?_⟩
  · exact (h v hv).imp_right fun ⟨x, hx⟩ => ⟨x, ((hholds x v).1 hx).2⟩
  · cases hfd : planes.fds i with
    | none => rfl
    | some w =>
      have hw : s.Holds (o, i) w := ⟨planes, ho, hfd⟩
      refine absurd h (hs.not_leakfree_of_gone rfl le_rfl hw fun x hx => ?_)
      obtain ⟨hne, hx⟩ := (hholds x w).1 hx
      exact hne (congrArg Prod.fst (hs.unique _ _ w hx hw))
  · refine (h v hv).imp_right fun ⟨x, hx⟩ => ⟨x, (hholds x v).2 ⟨?_, hx⟩⟩
    intro heq
    obtain ⟨ps, hps, hfd⟩ := hx
    rw [heq, ho] at hps
    cases hps
    rw [hfds] at hfd
    cases hfd

theorem holds_move {p b : ℕ} {planes : Planes} (hp : s.objects (.params p) = some planes)
    (x : Object × Fin maxPlanes) (v : ℕ) :
    Server.Holds ⟨update (update s.objects (.params p) (some ⟨fun _ => none, planes.planeCount⟩))
        (.buffer b) (some planes), s.received, s.closed⟩ x v ↔
      x.1 = .buffer b ∧ s.Holds (.params p, x.2) v ∨
        x.1 ≠ .buffer b ∧ x.1 ≠ .params p ∧ s.Holds x v := by
  have hfrom (i : Fin maxPlanes) : s.Holds (.params p, i) v ↔ planes.fds i = some v := by
    simp [Server.Holds, hp]
  have hdrop := @holds_drop s (.params p) (some ⟨fun _ => none, planes.planeCount⟩)
    (by rintro ps ⟨⟩ i; rfl) s.received s.closed x v
  have hmove := @holds_update
    ⟨update s.objects (.params p) (some ⟨fun _ => none, planes.planeCount⟩), s.received, s.closed⟩
    (.buffer b) (some planes) s.received s.closed x v
  rw [hmove, hdrop, hfrom]
  simp

/-- What a params object has goes to a new buffer. -/
theorem sound_move (hs : Sound s) {p b : ℕ} {planes : Planes}
    (hp : s.objects (.params p) = some planes) (hb : s.objects (.buffer b) = none) :
    Sound ⟨update (update s.objects (.params p) (some ⟨fun _ => none, planes.planeCount⟩))
        (.buffer b) (some planes), s.received, s.closed⟩ ∧
      (Leakfree ⟨update (update s.objects (.params p) (some ⟨fun _ => none, planes.planeCount⟩))
        (.buffer b) (some planes), s.received, s.closed⟩ ↔ Leakfree s) := by
  have hsound := hs.planes _ _ hp
  have hholds := fun x v => @holds_move s p b planes hp x v
  have hgone (i : Fin maxPlanes) (v : ℕ) : ¬ s.Holds (.buffer b, i) v := by simp [Server.Holds, hb]
  refine ⟨⟨fun o planes' h => ?_, fun x y v hx hy => ?_, fun x v hx => ?_, hs.once, hs.fresh⟩, ?_⟩
  · have hdropped : Sound ⟨update s.objects (.params p) (some ⟨fun _ => none, planes.planeCount⟩),
        s.received, s.closed⟩ := (sound_drop hs hp).1
    exact soundPlanes_update hdropped (by rintro ps ⟨⟩; exact hsound) h
  · rcases (hholds x v).1 hx with ⟨hxb, hx⟩ | ⟨-, hxp, hx⟩
    · rcases (hholds y v).1 hy with ⟨hyb, hy⟩ | ⟨-, hyp, hy⟩
      · exact Prod.ext (hxb.trans hyb.symm) (Prod.mk.inj (hs.unique _ _ v hx hy)).2
      · exact absurd (congrArg Prod.fst (hs.unique _ _ v hy hx)) hyp
    · rcases (hholds y v).1 hy with ⟨-, hy⟩ | ⟨-, -, hy⟩
      · exact absurd (congrArg Prod.fst (hs.unique _ _ v hx hy)) hxp
      · exact hs.unique _ _ v hx hy
  · rcases (hholds x v).1 hx with ⟨-, hx⟩ | ⟨-, -, hx⟩
    · exact hs.held _ v hx
    · exact hs.held x v hx
  · refine forall₂_congr fun v _ => or_congr_right ⟨fun ⟨x, hx⟩ => ?_, fun ⟨x, hx⟩ => ?_⟩
    · rcases (hholds x v).1 hx with ⟨-, hx⟩ | ⟨-, -, hx⟩
      · exact ⟨_, hx⟩
      · exact ⟨x, hx⟩
    · obtain ⟨o, i⟩ := x
      have hob : o ≠ .buffer b := fun heq => hgone i v (heq ▸ hx)
      by_cases hop : o = .params p
      · exact ⟨(.buffer b, i), (hholds _ v).2 (Or.inl ⟨rfl, hop ▸ hx⟩)⟩
      · exact ⟨(o, i), (hholds _ v).2 (Or.inr ⟨hob, hop, hx⟩)⟩

/-- An object goes. -/
theorem sound_destroy (hs : Sound s) {o : Object} {planes : Planes}
    (ho : s.objects o = some planes) :
    Sound ⟨update s.objects o none, s.received, closePlanes planes s.closed⟩ ∧
      (Leakfree ⟨update s.objects o none, s.received, closePlanes planes s.closed⟩ ↔
        Leakfree s) := by
  have hclose := (hs.planes _ _ ho).closePlanes_apply s.closed
  have hholds := fun x v => @holds_drop s o none (by simp) s.received
    (closePlanes planes s.closed) x v
  have hhad (v : ℕ) : (∃ i, planes.fds i = some v) ↔ ∃ i, s.Holds (o, i) v := by
    simp [Server.Holds, ho]
  refine ⟨⟨fun o' planes' h => soundPlanes_update hs (by simp) h,
    fun x y v hx hy => hs.unique x y v ((hholds x v).1 hx).2 ((hholds y v).1 hy).2,
    fun x v hx => ?_, fun v => ?_, fun v hv => ?_⟩, ?_⟩
  · obtain ⟨hne, hx⟩ := (hholds x v).1 hx
    obtain ⟨hlt, hopen⟩ := hs.held x v hx
    refine ⟨hlt, (hclose v).trans ?_⟩
    rw [hopen, if_neg]
    rw [hhad]
    rintro ⟨i, hi⟩
    exact hne (congrArg Prod.fst (hs.unique _ _ v hx hi))
  · show closePlanes planes s.closed v ≤ 1
    rw [hclose]
    split
    · next h =>
      obtain ⟨i, hi⟩ := (hhad v).1 h
      rw [(hs.held _ v hi).2]
    · exact hs.once v
  · show closePlanes planes s.closed v = 0
    rw [hclose, hs.fresh v hv, if_neg]
    rw [hhad]
    rintro ⟨i, hi⟩
    exact absurd (hs.held _ v hi).1 (Nat.not_lt.2 hv)
  · refine forall₂_congr fun v _ => ?_
    show closePlanes planes s.closed v = 1 ∨ _ ↔ _
    rw [hclose]
    by_cases h : ∃ i, planes.fds i = some v
    · obtain ⟨i, hi⟩ := (hhad v).1 h
      rw [if_pos h, (hs.held _ v hi).2]
      exact iff_of_true (Or.inl rfl) (Or.inr ⟨_, hi⟩)
    · rw [if_neg h, Nat.add_zero]
      refine or_congr_right (exists_congr fun x => (hholds x v).trans (and_iff_right_of_imp ?_))
      rintro hx rfl
      exact h ((hhad v).2 ⟨x.2, hx⟩)

theorem sound_noPlanes (hs : Sound s) {o : Object} (ho : s.objects o = none) :
    Sound ⟨update s.objects o (some noPlanes), s.received, s.closed⟩ ∧
      (Leakfree ⟨update s.objects o (some noPlanes), s.received, s.closed⟩ ↔ Leakfree s) := by
  have hholds (x : Object × Fin maxPlanes) (v : ℕ) :
      Server.Holds ⟨update s.objects o (some noPlanes), s.received, s.closed⟩ x v ↔
        s.Holds x v := by
    rw [holds_drop (by rintro ps ⟨⟩ i; rfl), and_iff_right_of_imp]
    rintro ⟨ps, hps, -⟩ heq
    rw [heq, ho] at hps
    cases hps
  refine ⟨⟨fun o' planes h => soundPlanes_update hs ?_ h, fun x y v hx hy =>
    hs.unique x y v ((hholds x v).1 hx) ((hholds y v).1 hy), fun x v hx =>
    hs.held x v ((hholds x v).1 hx), hs.once, hs.fresh⟩, ?_⟩
  · rintro ps ⟨⟩
    exact sound_none (Nat.zero_le _)
  · exact forall₂_congr fun v _ => or_congr_right (exists_congr fun x => hholds x v)

theorem sound_paramsAdd (hs : Sound s) (p planeIdx : ℕ) :
    Sound (paramsAdd { s with received := s.received + 1 } p planeIdx s.received) ∧
      (Leakfree (paramsAdd { s with received := s.received + 1 } p planeIdx s.received) ↔
        Leakfree s ∧ Keeps s (.add p planeIdx)) := by
  unfold paramsAdd
  cases hp : s.objects (.params p) with
  | none =>
    have hkeeps : Keeps s (.add p planeIdx) := fun params hparams => by simp [hp] at hparams
    exact ⟨(sound_close hs).1, (sound_close hs).2.trans (and_iff_left hkeeps).symm⟩
  | some params =>
    by_cases h : planeIdx < maxPlanes
    · have hkeeps : Keeps s (.add p planeIdx) ↔ params.fds ⟨planeIdx, h⟩ = none := by
        simp [Keeps, hp, h]
      rw [hkeeps]
      simp only [dif_pos h]
      have hle := (hs.planes _ _ hp).planeCount_le
      refine ⟨?_, leakfree_setPlane_iff hs hp ⟨planeIdx, h⟩ _⟩
      apply sound_setPlane hs hp ⟨planeIdx, h⟩
      · split <;> simp only <;> omega
      · split <;> omega
      · split <;> omega
    · have hkeeps : Keeps s (.add p planeIdx) := fun _ _ hlt => absurd hlt h
      simp only [dif_neg h]
      exact ⟨(sound_close hs).1, (sound_close hs).2.trans (and_iff_left hkeeps).symm⟩

theorem sound_createBufferFromParams (hs : Sound s) (p : ℕ) {b : ℕ}
    (hb : s.objects (.buffer b) = none) (allocated created : Bool) :
    Sound (createBufferFromParams s p b allocated created) ∧
      (Leakfree (createBufferFromParams s p b allocated created) ↔
        Leakfree s ∧ Keeps s (.create p b allocated created)) := by
  unfold createBufferFromParams
  cases hp : s.objects (.params p) with
  | none =>
    have hkeeps : Keeps s (.create p b allocated created) :=
      fun _ _ params hparams => by simp [hp] at hparams
    exact ⟨hs, (and_iff_left hkeeps).symm⟩
  | some params =>
    have hsound := hs.planes _ _ hp
    have hkeeps : Keeps s (.create p b allocated created) ↔
        (allocated = true → created = false → ∀ i, params.fds i = none) := by
      simp [Keeps, hp]
    rw [hkeeps]
    by_cases hcount : params.planeCount < 1
    · have hnone (i : Fin maxPlanes) : params.fds i = none := by
        cases hfd : params.fds i with
        | none => rfl
        | some fd =>
          have hi : i.val < 0 := Nat.lt_one_iff.1 hcount ▸ hsound.counted i fd hfd
          exact absurd hi (Nat.not_lt_zero _)
      simp only [if_pos hcount]
      exact ⟨hs, (and_iff_left fun _ _ => hnone).symm⟩
    · simp only [if_neg hcount, if_neg (Nat.not_lt.2 hsound.planeCount_le)]
      -- below the count is all there is
      have htaken : (fun i : Fin maxPlanes =>
          if i.val < params.planeCount then params.fds i else none) = params.fds := by
        funext i
        split_ifs with hi
        · rfl
        · cases hfd : params.fds i with
          | none => rfl
          | some fd => exact absurd (hsound.counted i fd hfd) hi
      have hleft : (fun i : Fin maxPlanes =>
          if i.val < params.planeCount then none else params.fds i) = fun _ => none := by
        funext i
        split_ifs with hi
        · rfl
        · rw [← congrFun htaken i, if_neg hi]
      simp only [htaken, hleft]
      cases allocated with
      | false => exact ⟨hs, (and_iff_left fun h => nomatch h).symm⟩
      | true =>
        cases created with
        | false =>
          simp only [if_true, Bool.true_eq_false, if_false, true_imp_iff]
          exact sound_drop hs hp
        | true =>
          simp only [Bool.true_eq_false, if_false, false_imp_iff, imp_true_iff, and_true]
          exact sound_move hs hp hb

theorem sound_step {e : Request} {t : Server} (hs : Sound s) (h : step s e = some t) :
    Sound t ∧ (Leakfree t ↔ Leakfree s ∧ Keeps s e) := by
  cases e with
  | createParams p created =>
    rw [step, ite_eq_iff] at h
    obtain ⟨-, ⟨⟩⟩ | ⟨hnew, h⟩ := h
    rw [Option.not_isSome_iff_eq_none] at hnew
    split_ifs at h
    · cases h
      exact ⟨hs, (and_iff_left trivial).symm⟩
    · cases h
      exact ⟨(sound_noPlanes hs hnew).1,
        (sound_noPlanes hs hnew).2.trans (and_iff_left trivial).symm⟩
  | add p planeIdx =>
    cases h
    exact sound_paramsAdd hs p planeIdx
  | create p b allocated created =>
    rw [step, ite_eq_iff] at h
    obtain ⟨-, ⟨⟩⟩ | ⟨hnew, h⟩ := h
    rw [Option.not_isSome_iff_eq_none] at hnew
    cases h
    exact sound_createBufferFromParams hs p hnew allocated created
  | destroy o =>
    obtain ⟨planes, ho, rfl⟩ := Option.map_eq_some_iff.1 h
    exact ⟨(sound_destroy hs ho).1, (sound_destroy hs ho).2.trans (and_iff_left trivial).symm⟩

theorem sound_init : Sound init where
  planes _ _ h := by cases h
  unique _ _ _ h := by obtain ⟨_, ⟨⟩, _⟩ := h
  held _ _ h := by obtain ⟨_, ⟨⟩, _⟩ := h
  once _ := Nat.zero_le 1
  fresh _ _ := rfl

end Steps

/-- **Each descriptor is closed once when all objects are gone, exactly if none was sent for a
plane that had one and the resource of each buffer that took over some could be created.**  What a
buffer has is its own in any case. -/
theorem keptPlanes_iff {es : List Request} {s : Server} (hrun : system.run init es = some s) :
    Kept s ↔ ((∀ o, s.objects o = none) → system.Guarded Keeps init es) := by
  obtain ⟨hsound, hleak⟩ := system.iff_guarded (fun _ _ _ => sound_step) sound_init hrun
  have hempty : Leakfree init := fun v hv => absurd hv (Nat.not_lt_zero v)
  rw [and_iff_right hempty] at hleak
  have hnobody (hgone : ∀ o, s.objects o = none) (x : Object × Fin maxPlanes) (v : ℕ) :
      ¬ s.Holds x v := by
    rintro ⟨planes, hplanes, -⟩
    rw [hgone] at hplanes
    cases hplanes
  constructor
  · intro h hgone
    exact hleak.1 fun v hv => Or.inl (h.closed hgone v hv)
  · intro h
    refine ⟨fun hgone v hv => ?_, fun b i v hv => ⟨(hsound.held _ v hv).2, fun x hx => ?_⟩⟩
    · exact (hleak.2 (h hgone) v hv).resolve_right fun ⟨x, hx⟩ => hnobody hgone x v hx
    · exact hsound.unique x _ v hx hv

/-- Two descriptors for two planes, and a buffer that outlives the params object. -/
theorem keptPlanes_iff_twoPlanes :
    Kept ((system.run init [.createParams 0 true, .add 0 0, .add 0 1, .create 0 1 true true,
        .destroy (.params 0), .destroy (.buffer 1)]).get rfl) ↔
      ((∀ o, ((system.run init [.createParams 0 true, .add 0 0, .add 0 1, .create 0 1 true true,
        .destroy (.params 0), .destroy (.buffer 1)]).get rfl).objects o = none) →
        system.Guarded Keeps init [.createParams 0 true, .add 0 0, .add 0 1, .create 0 1 true true,
        .destroy (.params 0), .destroy (.buffer 1)]) :=
  keptPlanes_iff (Option.some_get _).symm

/-- The first of two descriptors that are sent for one plane is never closed. -/
theorem not_kept_samePlane :
    ¬ ∀ es s, system.run init es = some s → Kept s := by
  intro h
  obtain ⟨s, hrun, hother, hparams, hreceived, hclosed⟩ :
      ∃ s,
        system.run init [.createParams 0 true, .add 0 0, .add 0 0, .destroy (.params 0)] = some s ∧
        (∀ o ≠ .params 0, s.objects o = none) ∧ s.objects (.params 0) = none ∧ s.received = 2 ∧
          s.closed 0 = 0 := by
    refine ⟨_, rfl, fun o ho => ?_, rfl, rfl, rfl⟩
    simp [paramsAdd, init, ho]
  have hone := (h _ s hrun).closed
    (fun o => if ho : o = .params 0 then ho ▸ hparams else hother o ho) 0 (hreceived ▸ Nat.two_pos)
  exact Nat.zero_ne_one (hclosed.symm.trans hone)

end Droidspaces.Dmabuf
