import Droidspaces.Lifecycle.Evolution

/-!
# Who may hold the external lock

Any number of processes call `acquire_external_lock`, `is_external_lock_active` and
`release_external_lock` on the lock file of a name, in any interleaving of their single file
operations.  The three functions test the file and act on it in separate steps, with nothing that
ties the act to the test.  `two_acquirers_hold` is the shortest consequence: two processes that
both find no lock file both `rename` their own stamp over it and both succeed.

What the protocol does guarantee is stated with the guard `noRenameOverLook`: no process renames
its stamp into place while another one is between its look at the file and its return.  Removals
may overlap anything.  Under that guard `externalLock_excludes` gives both halves of exclusion.

The proof follows one call at a time.  What a process has seen of the lock file is its knowledge
(`Read`, `Removable`, `Absent`), and `LockRely` is what keeps that knowledge from going stale.
Programs other than the three lock functions neither know nor need anything.
-/

namespace Droidspaces

open Transition

variable {N : Type} [DecidableEq N]

/-! ## History -/

/-- Who has acquired the lock of which name and not yet given it up, and who has looked at a lock
file in a call that has not returned. -/
structure LockHistory (N : Type) where
  holding : Pid → N → Bool
  looking : Pid → Option N

def LockHistory.empty : LockHistory N where
  holding := fun _ _ => false
  looking := fun _ => none

def LockHistory.setHolding (g : LockHistory N) (p : Pid) (n : N) (b : Bool) : LockHistory N :=
  { g with holding := Function.update g.holding p (Function.update (g.holding p) n b) }

def LockHistory.setLooking (g : LockHistory N) (p : Pid) (l : Option N) : LockHistory N :=
  { g with looking := Function.update g.looking p l }

/-- A tenure begins with the rename of the stamp; it ends with the removal of the file or with the
hand-off that leaves it behind. -/
def LockHistory.note (g : LockHistory N) (_ : World N) (p : Pid) (op : Op N) (r : op.Res)
    (_ : World N) : LockHistory N :=
  match op, r with
  | .query (.lockLook n), found => if found then g else g.setLooking p (some n)
  | .query (.lockRead n), _ => g.setLooking p (some n)
  | .action (.unlinkLock n), _ => g.setHolding p n false
  | .action (.renameLock n), ok =>
    if ok then (g.setHolding p n true).setLooking p none else g
  | .mark (.lockReturn _), _ => g.setLooking p none
  | .mark (.handOff n), _ => g.setHolding p n false
  | _, _ => g

/-- The lifecycle machine with the history of its locks. -/
def lockedLifecycle : Machine Pid (World N × LockHistory N) (Op N) (Entry N) (HostEvent N) Op.Res :=
  lifecycle.withGhost LockHistory.note fun g _ _ _ => g

/-! ## Exclusion -/

/-- What a reader would take for the live holder of the lock right now. -/
def World.recordedHolder (w : World N) (n : N) : Option Pid :=
  (w.files n).lock.bind fun t => lockHolderIfAlive w.boot w.present (readFile 64 t)

/-- At most one live process holds the lock of a name. -/
def LockExclusive (s : World N × LockHistory N) : Prop :=
  ∀ n p q, s.1.running p = true → s.1.running q = true → s.2.holding p n = true →
    s.2.holding q n = true → p = q

/-- Only a lock file that records no other live holder is removed. -/
def RemovesNoLiveLock (s : World N × LockHistory N) (p : Pid) : Op N → Prop
  | .action (.unlinkLock n) => ∀ h, s.1.recordedHolder n = some h → h = p
  | _ => True

/-- The guard: a stamp is renamed into place only while no other process is between its look at
the lock file and its return. -/
def noRenameOverLook (s : World N × LockHistory N) (p : Pid) : Op N → Bool
  | .action (.renameLock n) =>
    s.1.pids.all fun q => q == p || !s.1.running q || s.2.looking q != some n
  | _ => true

/-- No lock file records a process of this boot. -/
def World.LocksStale (w : World N) : Prop :=
  ∀ n t, (w.files n).lock = some t →
    lockHolderIfAlive w.boot (fun _ => true) (readFile 64 t) = none

/-! ## The contract -/

structure LockInv (s : World N × LockHistory N) : Prop where
  ok : s.1.Ok
  recorded : ∀ n t h, (s.1.files n).lock = some t →
    lockHolderIfAlive s.1.boot (fun _ => true) (readFile 64 t) = some h →
    (s.1.procs h).life ≠ .unborn
  holder : ∀ n p, s.1.running p = true → s.2.holding p n = true →
    (s.1.files n).lock = some (lockStamp s.1.boot p)
  born : ∀ n p, s.2.holding p n = true → (s.1.procs p).life ≠ .unborn

/-- What `p` relies on: a lock file that it is looking at may disappear, but not change. -/
structure LockRely (p : Pid) (s t : World N × LockHistory N) : Prop where
  later : s.1.Later t.1
  looking : t.2.looking p = s.2.looking p
  lock : ∀ n, s.2.looking p = some n →
    (t.1.files n).lock = (s.1.files n).lock ∨ (t.1.files n).lock = none

def lockContract : Contract (lockedLifecycle (N := N)) where
  inv := LockInv
  rely := LockRely
  guard s p op := noRenameOverLook s p op = true
  guardEnv := Machine.anyEnv
  safe := RemovesNoLiveLock
  pre _ _ _ := True
  rely_refl _ _ := ⟨World.Later.refl _, rfl, fun _ _ => Or.inl rfl⟩
  rely_trans := by
    intro p u v w huv hvw
    refine ⟨huv.later.trans hvw.later, hvw.looking.trans huv.looking, fun n hn => ?_⟩
    rcases hvw.lock n (huv.looking.trans hn) with hsame | hnone
    · rw [hsame]
      exact huv.lock n hn
    · exact Or.inr hnone

/-! ## What a process knows -/

variable {n : N} {p : Pid} {s t : World N × LockHistory N} {choice : ℕ} {buf : Text}

/-- `p` has read `buf` from the lock file, which may have gone since. -/
structure Read (n : N) (p : Pid) (buf : Text) (s : World N × LockHistory N) : Prop where
  looking : s.2.looking p = some n
  content : (s.1.files n).lock = none ∨ (s.1.files n).lock.map (readFile 64) = some buf

/-- The lock file records only a process with the property `A`, if any. -/
structure Records (n : N) (p : Pid) (A : Pid → Prop) (s : World N × LockHistory N) : Prop where
  looking : s.2.looking p = some n
  holder : ∀ h, s.1.recordedHolder n = some h → A h

/-- The lock file records nobody else. -/
def Removable (n : N) (p : Pid) : World N × LockHistory N → Prop :=
  Records n p fun h => h = p

structure Absent (n : N) (p : Pid) (s : World N × LockHistory N) : Prop where
  looking : s.2.looking p = some n
  absent : (s.1.files n).lock = none

omit [DecidableEq N] in
theorem World.recordedHolder_eq_some {w : World N} {h : Pid} :
    w.recordedHolder n = some h ↔ ∃ t, (w.files n).lock = some t ∧
      lockHolderIfAlive w.boot w.present (readFile 64 t) = some h :=
  Option.bind_eq_some_iff

omit [DecidableEq N] in
theorem World.recordedHolder_of_none {w : World N} (h : (w.files n).lock = none) :
    w.recordedHolder n = none := by
  simp [World.recordedHolder, h]

omit [DecidableEq N] in
/-- Nobody becomes the recorded holder of an unchanged file. -/
theorem LockInv.recordedHolder_later (hs : LockInv s) (ht : LockInv t) (hlater : s.1.Later t.1)
    (hlock : (t.1.files n).lock = (s.1.files n).lock) {h : Pid}
    (hh : t.1.recordedHolder n = some h) : s.1.recordedHolder n = some h := by
  obtain ⟨x, hx, hholder⟩ := World.recordedHolder_eq_some.1 hh
  rw [hlock] at hx
  rw [hlater.boot] at hholder
  obtain ⟨hread, hpresent⟩ := lockHolderIfAlive_eq_some.1 hholder
  refine World.recordedHolder_eq_some.2 ⟨x, hx, lockHolderIfAlive_eq_some.2 ⟨hread, ?_⟩⟩
  exact hlater.present hs.ok ht.ok (hs.recorded n x h hx hread) hpresent

theorem read_stable : lockContract.Stable p (Read n p buf) := by
  intro u v _ h hrely _
  refine ⟨hrely.looking.trans h.looking, ?_⟩
  rcases hrely.lock n h.looking with hsame | hnone
  · rw [hsame]
    exact h.content
  · exact Or.inl hnone

theorem records_stable {A : Pid → Prop} : lockContract.Stable p (Records n p A) := by
  intro u v hu h hrely hv
  refine ⟨hrely.looking.trans h.looking, fun x hx => ?_⟩
  rcases hrely.lock n h.looking with hsame | hnone
  · exact h.holder x (hu.recordedHolder_later hv hrely.later hsame hx)
  · rw [World.recordedHolder_of_none hnone] at hx
    cases hx

theorem absent_stable : lockContract.Stable p (Absent n p) := by
  intro u v _ h hrely _
  refine ⟨hrely.looking.trans h.looking, ?_⟩
  rcases hrely.lock n h.looking with hsame | hnone
  · rw [hsame]
    exact h.absent
  · exact hnone

omit [DecidableEq N] in
/-- Whoever is recorded now was the holder that the buffer names. -/
theorem Read.holder (h : Read n p buf s) {x : Pid} (hx : s.1.recordedHolder n = some x) :
    lockHolderIfAlive s.1.boot s.1.present buf = some x := by
  obtain ⟨t, ht, hholder⟩ := World.recordedHolder_eq_some.1 hx
  rcases h.content with hnone | hread
  · rw [hnone] at ht
    cases ht
  · rw [ht, Option.map_some, Option.some.injEq] at hread
    rwa [hread] at hholder

/-! ## Single operations -/

/-- An operation that leaves the lock files alone begins no tenure and disturbs nobody's look. -/
theorem LockHistory.note_calm (g : LockHistory N) (w w' : World N) {op : Op N} (r : op.Res)
    (hop : ∀ m, op.slot ≠ some (m, .lock)) :
    (∀ q m, (g.note w p op r w').holding q m = true → g.holding q m = true) ∧
      ∀ q, q ≠ p → (g.note w p op r w').looking q = g.looking q := by
  unfold LockHistory.note
  split
  · split
    · exact ⟨fun _ _ h => h, fun _ _ => rfl⟩
    · exact ⟨fun _ _ h => h, fun q hq => Function.update_of_ne hq _ _⟩
  · exact ⟨fun _ _ h => h, fun q hq => Function.update_of_ne hq _ _⟩
  · next m _ => exact absurd rfl (hop m)
  · next _ m _ => exact absurd rfl (hop m)
  · exact ⟨fun _ _ h => h, fun q hq => Function.update_of_ne hq _ _⟩
  · next m _ =>
    refine ⟨fun q m' h => ?_, fun _ _ => rfl⟩
    by_cases hqp : q = p
    · subst hqp
      by_cases hm : m' = m
      · subst hm
        simp [LockHistory.setHolding] at h
      · simpa [LockHistory.setHolding, hm] using h
    · simpa [LockHistory.setHolding, hqp] using h
  · exact ⟨fun _ _ h => h, fun _ _ => rfl⟩

/-- The invariant goes through an operation if the locks still record the holders. -/
theorem LockInv.step {op : Op N} {r : op.Res} (hs : LockInv s) (hrun : s.1.running p = true)
    (h : exec s.1 p op choice = some (t.1, r))
    (hrecorded : ∀ n x y, (t.1.files n).lock = some x → (s.1.files n).lock ≠ some x →
      lockHolderIfAlive s.1.boot (fun _ => true) (readFile 64 x) = some y →
      (s.1.procs y).life ≠ .unborn)
    (hholding : ∀ n q, t.2.holding q n = true → (s.1.procs q).life ≠ .unborn)
    (hholder : ∀ n q, s.1.running q = true → t.2.holding q n = true →
      (t.1.files n).lock = some (lockStamp s.1.boot q)) : LockInv t := by
  have hlater := exec_later hrun h
  refine ⟨exec_ok hs.ok hrun h, fun n x y hx hy => ?_, fun n q hq hhold => ?_, fun n q hq => ?_⟩
  · rw [hlater.boot] at hy
    have hborn : (s.1.procs y).life ≠ .unborn := by
      by_cases hsame : (s.1.files n).lock = some x
      · exact hs.recorded n x y hsame hy
      · exact hrecorded n x y hx hsame hy
    exact (hlater.procs y hborn).ne_unborn hborn
  · rw [hlater.boot]
    exact hholder n q (hlater.running (hholding n q hhold) hq) hhold
  · exact (hlater.procs q (hholding n q hq)).ne_unborn (hholding n q hq)

/-- An operation that leaves the lock files alone is harmless. -/
theorem calm_keeps {op : Op N} {r : op.Res} (hs : LockInv s) (hrun : s.1.running p = true)
    (h : lockedLifecycle.exec s p op choice = some (t, r))
    (hop : ∀ m, op.slot ≠ some (m, .lock)) : lockContract.Keeps p s op t r := by
  obtain ⟨hexec, hnote⟩ := exec_of_history h
  obtain ⟨hholding, hlooking⟩ := s.2.note_calm (p := p) s.1 t.1 r hop
  rw [← hnote] at hholding hlooking
  have hlock : ∀ m, (t.1.files m).lock = (s.1.files m).lock := fun m =>
    (exec_files hexec m).lock fun hw => hop m (Op.writes_eq_some.1 hw)
  refine ⟨?_, hs.step hrun hexec ?_ ?_ ?_, fun q hq _ => ?_, fun _ _ _ => trivial⟩
  · cases op with
    | action a =>
      cases a with
      | unlinkLock m => exact absurd rfl (hop m)
      | _ => trivial
    | _ => trivial
  · intro n x y hx hne _
    exact absurd ((hlock n).symm.trans hx) hne
  · exact fun n q hq => hs.born n q (hholding q n hq)
  · intro n q hq hhold
    rw [hlock]
    exact hs.holder n q hq (hholding q n hhold)
  · exact ⟨exec_later hrun hexec, hlooking q hq, fun n _ => Or.inl (hlock n)⟩

omit [DecidableEq N] in
/-- A live holder is what a reader of its stamp finds. -/
theorem LockInv.recordedHolder (hs : LockInv s) {q : Pid} (hq : s.1.running q = true)
    (hhold : s.2.holding q n = true) : s.1.recordedHolder n = some q := by
  obtain ⟨-, hpos, hmax⟩ := hs.ok.pids q (World.ne_unborn_of_running hq)
  have hpresent : s.1.present q = true := by
    simp [World.present, World.running_iff.1 hq]
  refine World.recordedHolder_eq_some.2 ⟨_, hs.holder n q hq hhold, ?_⟩
  rw [readFile_lockStamp _ hmax, lockHolder_stamp _ _ hpos, if_pos hpresent]

/-- A removal under the guard takes the file of the remover, or of nobody. -/
theorem unlink_keeps {r : Unit} (hs : LockInv s) (hrun : s.1.running p = true)
    (h : lockedLifecycle.exec s p (.action (.unlinkLock n)) choice = some (t, r))
    (hmine : ∀ h, s.1.recordedHolder n = some h → h = p) :
    lockContract.Keeps p s (.action (.unlinkLock n)) t r ∧ (t.1.files n).lock = none ∧
      t.2.looking = s.2.looking := by
  obtain ⟨hexec, hnote⟩ := exec_of_history h
  have hw : t.1 = s.1.setFiles n fun f => { f with lock := none } := (world_of_some hexec).symm
  have hself : (t.1.files n).lock = none := by rw [hw, World.setFiles_self]
  have hother : ∀ m, m ≠ n → (t.1.files m).lock = (s.1.files m).lock := fun m hm => by
    rw [hw, World.setFiles_of_ne _ hm]
  have hholding : ∀ q m, t.2.holding q m = true → s.2.holding q m = true ∧ ¬ (q = p ∧ m = n) := by
    intro q m hq
    simp only [hnote, LockHistory.note, LockHistory.setHolding] at hq
    by_cases hqp : q = p
    · subst hqp
      by_cases hm : m = n
      · subst hm
        simp at hq
      · exact ⟨by simpa [hm] using hq, fun h => hm h.2⟩
    · exact ⟨by simpa [hqp] using hq, fun h => hqp h.1⟩
  refine ⟨⟨hmine, hs.step hrun hexec ?_ ?_ ?_, fun q hq _ => ?_, fun _ _ _ => trivial⟩, hself, ?_⟩
  · intro m x y hx hne _
    by_cases hm : m = n
    · rw [hm, hself] at hx
      cases hx
    · exact absurd ((hother m hm).symm.trans hx) hne
  · exact fun m q hq => hs.born m q (hholding q m hq).1
  · intro m q hq hhold
    obtain ⟨hhold', hne⟩ := hholding q m hhold
    by_cases hm : m = n
    · subst hm
      exact absurd ⟨hmine q (hs.recordedHolder hq hhold'), rfl⟩ hne
    · rw [hother m hm]
      exact hs.holder m q hq hhold'
  · refine ⟨exec_later hrun hexec, by rw [hnote]; rfl, fun m _ => ?_⟩
    by_cases hm : m = n
    · exact Or.inr (hm ▸ hself)
    · exact Or.inl (hother m hm)
  · rw [hnote]
    rfl

/-- A stamp goes where no file was, while nobody else looks. -/
theorem rename_keeps {ok : Bool} (hs : LockInv s) (hrun : s.1.running p = true)
    (h : lockedLifecycle.exec s p (.action (.renameLock n)) choice = some (t, ok))
    (habsent : (s.1.files n).lock = none)
    (hguard : noRenameOverLook s p (.action (.renameLock n)) = true) :
    lockContract.Keeps p s (.action (.renameLock n)) t ok := by
  obtain ⟨hexec, hnote⟩ := exec_of_history h
  obtain ⟨-, hpos, hmax⟩ := hs.ok.pids p (World.ne_unborn_of_running hrun)
  have heffect : effect s.1 p (.renameLock n) choice = some (t.1, ok) := hexec
  simp only [effect] at heffect
  split at heffect
  · obtain ⟨hw, rfl⟩ := Prod.mk.inj (Option.some.inj heffect)
    have hself : (t.1.files n).lock = some (lockStamp s.1.boot p) := by
      rw [← hw, World.setFiles_self]
    have hother : ∀ m, m ≠ n → (t.1.files m).lock = (s.1.files m).lock := fun m hm => by
      rw [← hw, World.setFiles_of_ne _ hm]
    have hholding : ∀ q m, t.2.holding q m = true → (q = p ∧ m = n) ∨ s.2.holding q m = true := by
      intro q m hq
      simp only [hnote, LockHistory.note, LockHistory.setHolding, LockHistory.setLooking,
        if_true] at hq
      by_cases hqp : q = p
      · subst hqp
        by_cases hm : m = n
        · exact Or.inl ⟨rfl, hm⟩
        · exact Or.inr (by simpa [hm] using hq)
      · exact Or.inr (by simpa [hqp] using hq)
    refine ⟨trivial, hs.step hrun hexec ?_ ?_ ?_, fun q hq hqrun => ?_, fun _ _ _ => trivial⟩
    · intro m x y hx hne hy
      by_cases hm : m = n
      · rw [hm, hself] at hx
        obtain rfl := Option.some.inj hx
        rw [readFile_lockStamp _ hmax, lockHolder_stamp _ _ hpos, if_pos rfl] at hy
        exact Option.some.inj hy ▸ World.ne_unborn_of_running hrun
      · exact absurd ((hother m hm).symm.trans hx) hne
    · intro m q hq
      rcases hholding q m hq with ⟨rfl, -⟩ | hold
      · exact World.ne_unborn_of_running hrun
      · exact hs.born m q hold
    · intro m q hq hhold
      rcases hholding q m hhold with ⟨rfl, rfl⟩ | hold
      · exact hself
      · have hlock := hs.holder m q hq hold
        by_cases hm : m = n
        · rw [hm, habsent] at hlock
          cases hlock
        · rw [hother m hm]
          exact hlock
    · refine ⟨exec_later hrun hexec, ?_, fun m hm => Or.inl (hother m ?_)⟩
      · rw [hnote]
        exact Function.update_of_ne hq _ _
      · rintro rfl
        have hpids := (hs.ok.pids q (World.ne_unborn_of_running hqrun)).1
        have := List.all_eq_true.1 hguard q hpids
        have hrunning : s.1.running q = true := hqrun
        simp [hq, hm, hrunning] at this
  · obtain ⟨hw, rfl⟩ := Prod.mk.inj (Option.some.inj heffect)
    obtain rfl : s = t := by
      refine Prod.ext hw ?_
      rw [hnote]
      rfl
    exact ⟨trivial, hs, fun q _ _ => lockContract.rely_refl q s, fun _ _ _ => trivial⟩

/-! ## The lock functions -/

section Functions

variable {α : Type} {Q : α → World N × LockHistory N → Prop}

/-- A query of the lock functions: it changes nothing but what the process knows. -/
theorem lock_ask {K : World N × LockHistory N → Prop} {q : Query N} {k : q.Res → Code N α}
    (hstable : lockContract.Stable p K) (hinv : LockInv s) (hK : K s)
    (h : ∀ v choice v' r, LockInv v' → v'.1 = v.1 → v'.2 = v.2.note v.1 p (.query q) r v.1 →
      answer v.1 p q choice = some r → K v → lockContract.wp p (k r) Q v') :
    lockContract.wp p (ask q >>= k) Q s := by
  refine Contract.wp_perform hstable hinv hK ?_
  intro v hv hinvv hrun _ choice v' r hexec
  have hkeeps := calm_keeps hinvv hrun hexec (by simp [Op.slot])
  obtain ⟨hexec', hnote⟩ := exec_of_history hexec
  obtain ⟨hw, hr⟩ := exec_query hexec'
  exact ⟨hkeeps, fun _ => h v choice v' r hkeeps.inv hw (hw ▸ hnote) hr hv⟩

/-- A query that is no look at a lock file. -/
theorem lock_ask_plain {K : World N × LockHistory N → Prop} {q : Query N} {k : q.Res → Code N α}
    (hstable : lockContract.Stable p K) (hinv : LockInv s) (hK : K s)
    (hlook : ∀ m, q ≠ .lockLook m) (hread : ∀ m, q ≠ .lockRead m)
    (h : ∀ v choice r, LockInv v → K v → answer v.1 p q choice = some r →
      lockContract.wp p (k r) Q v) :
    lockContract.wp p (ask q >>= k) Q s := by
  refine lock_ask hstable hinv hK fun v choice v' r hinv' hw hnote hr hv => ?_
  obtain rfl : v' = v := by
    refine Prod.ext hw (hnote.trans ?_)
    cases q with
    | lockLook m => exact absurd rfl (hlook m)
    | lockRead m => exact absurd rfl (hread m)
    | _ => rfl
  exact h v' choice r hinv' hv hr

/-- The return of a lock function. -/
theorem lockReturn_spec {a : α} (hinv : LockInv s) :
    lockContract.wp p (mark (.lockReturn n) >>= fun _ => pure a) (fun _ _ => True) s := by
  refine Contract.wp_perform (Contract.stable_true _ p) hinv trivial ?_
  intro v _ hinvv hrun _ choice v' r hexec
  exact ⟨calm_keeps hinvv hrun hexec (by simp [Op.slot]), fun _ =>
    Contract.wp_ret fun _ _ _ => trivial⟩

/-- `access(lock_path)`. -/
theorem lockLook_spec {k : Bool → Code N α} (hinv : LockInv s)
    (hfound : ∀ v, LockInv v → lockContract.wp p (k true) Q v)
    (hmissing : ∀ v, LockInv v → Absent n p v → lockContract.wp p (k false) Q v) :
    lockContract.wp p (ask (.lockLook n) >>= k) Q s := by
  refine lock_ask (Contract.stable_true _ p) hinv trivial ?_
  intro v choice v' r hinv' hw hnote hr _
  obtain rfl : (v.1.files n).lock.isSome = r := Option.some.inj hr
  cases hlock : (v.1.files n).lock with
  | some x => exact hfound v' hinv'
  | none =>
    refine hmissing v' hinv' ⟨?_, by rw [hw, hlock]⟩
    rw [hnote, LockHistory.note, hlock]
    exact Function.update_self _ _ _

/-- `read_file(lock_path)`. -/
theorem lockRead_spec {k : Option Text → Code N α} (hinv : LockInv s)
    (hread : ∀ v buf, LockInv v → Read n p buf v → lockContract.wp p (k (some buf)) Q v)
    (hmissing : ∀ v, LockInv v → Absent n p v → lockContract.wp p (k none) Q v) :
    lockContract.wp p (ask (.lockRead n) >>= k) Q s := by
  refine lock_ask (Contract.stable_true _ p) hinv trivial ?_
  intro v choice v' r hinv' hw hnote hr _
  have hlook : v'.2.looking p = some n := by
    rw [hnote]
    exact Function.update_self _ _ _
  obtain rfl : (v.1.files n).lock.map (readFile 64) = r := Option.some.inj hr
  cases hlock : (v.1.files n).lock with
  | some x => exact hread v' _ hinv' ⟨hlook, Or.inr (by rw [hw, hlock]; rfl)⟩
  | none => exact hmissing v' hinv' ⟨hlook, by rw [hw, hlock]⟩

/-- `lock_holder_if_alive`. -/
theorem lockProbe_spec {k : Option Pid → Code N α} (hinv : LockInv s) (hs : Read n p buf s)
    (h : ∀ v r, LockInv v → Records n p (fun x => r = some x) v → lockContract.wp p (k r) Q v) :
    lockContract.wp p (ask (.lockProbe buf) >>= k) Q s := by
  refine lock_ask_plain read_stable hinv hs (by simp) (by simp) ?_
  intro v choice r hinvv hv hr
  refine h v r hinvv ⟨hv.looking, fun x hx => ?_⟩
  obtain rfl : lockHolderIfAlive v.1.boot v.1.present buf = r := Option.some.inj hr
  exact hv.holder hx

/-- `unlink(lock_path)`. -/
theorem unlinkLock_spec {k : Unit → Code N α} (hinv : LockInv s) (hs : Removable n p s)
    (h : ∀ v, LockInv v → Absent n p v → lockContract.wp p (k ()) Q v) :
    lockContract.wp p (act (.unlinkLock n) >>= k) Q s := by
  refine Contract.wp_perform records_stable hinv hs ?_
  intro v hv hinvv hrun _ choice v' r hexec
  obtain ⟨hkeeps, habsent, hlooking⟩ := unlink_keeps hinvv hrun hexec hv.holder
  exact ⟨hkeeps, fun _ => h v' hkeeps.inv ⟨by rw [hlooking]; exact hv.looking, habsent⟩⟩

omit [DecidableEq N] in
/-- A file that reads as nothing records nobody. -/
theorem Read.removable_of_nil (h : Read n p [] s) : Removable n p s := by
  refine ⟨h.looking, fun x hx => ?_⟩
  have := h.holder hx
  simp at this

omit [DecidableEq N] in
theorem Absent.removable (h : Absent n p s) : Removable n p s := by
  refine ⟨h.looking, fun x hx => ?_⟩
  rw [World.recordedHolder_of_none h.absent] at hx
  cases hx

theorem acquireExternalLock_spec (hinv : LockInv s) :
    lockContract.wp p (acquireExternalLock n) (fun _ _ => True) s := by
  have hrename : ∀ v, LockInv v → Absent n p v → lockContract.wp p
      (act (.renameLock n) >>= fun ok => mark (.lockReturn n) >>= fun _ => pure ok)
      (fun _ _ => True) v := by
    intro v hv hs
    refine Contract.wp_perform absent_stable hv hs ?_
    intro v hv hinvv hrun hguard choice v' r hexec
    have hkeeps := rename_keeps hinvv hrun hexec hv.absent hguard
    exact ⟨hkeeps, fun _ => lockReturn_spec hkeeps.inv⟩
  unfold acquireExternalLock
  refine lockLook_spec hinv (fun v hv => ?_) fun v hv hs => hrename v hv hs
  simp only [if_true]
  refine lockRead_spec hv (fun v buf hv hs => ?_) fun v hv hs =>
    unlinkLock_spec hv hs.removable hrename
  cases buf with
  | nil => exact unlinkLock_spec hv hs.removable_of_nil hrename
  | cons c cs =>
    refine lockProbe_spec hv hs fun v holder hv hs => ?_
    cases holder with
    | none => exact unlinkLock_spec hv ⟨hs.looking, fun x hx => by cases hs.holder x hx⟩ hrename
    | some holder =>
      refine lock_ask_plain records_stable hv hs (by simp) (by simp) fun v _ me hv hs hme => ?_
      obtain rfl : p = me := Option.some.inj hme
      by_cases hmine : holder = p
      · rw [if_neg (fun h => h hmine)]
        refine unlinkLock_spec hv ⟨hs.looking, fun x hx => ?_⟩ hrename
        rw [← hmine]
        exact (Option.some.inj (hs.holder x hx)).symm
      · rw [if_pos hmine]
        exact lockReturn_spec hv

theorem isExternalLockActive_spec (hinv : LockInv s) :
    lockContract.wp p (isExternalLockActive n) (fun _ _ => True) s := by
  have hgone : ∀ v, LockInv v → Absent n p v → lockContract.wp p
      (mark (.lockReturn n) >>= fun _ => pure false) (fun _ _ => True) v := fun v hv _ =>
    lockReturn_spec hv
  unfold isExternalLockActive
  refine lockLook_spec hinv (fun v hv => ?_) hgone
  simp only [if_true]
  refine lockRead_spec hv (fun v buf hv hs => ?_) fun v hv hs =>
    unlinkLock_spec hv hs.removable hgone
  cases buf with
  | nil => exact unlinkLock_spec hv hs.removable_of_nil hgone
  | cons c cs =>
    refine lockProbe_spec hv hs fun v holder hv hs => ?_
    cases holder with
    | none => exact unlinkLock_spec hv ⟨hs.looking, fun x hx => by cases hs.holder x hx⟩ hgone
    | some holder => exact lockReturn_spec hv

theorem releaseExternalLock_spec (hinv : LockInv s) :
    lockContract.wp p (releaseExternalLock n) (fun _ _ => True) s := by
  have hreturn : ∀ v, LockInv v → lockContract.wp p (mark (.lockReturn n) : Code N Unit)
      (fun _ _ => True) v := fun v hv => lockReturn_spec (a := ()) hv
  unfold releaseExternalLock
  refine lockRead_spec hinv (fun v buf hv hs => ?_) fun v hv _ => hreturn v hv
  cases buf with
  | nil => exact hreturn v hv
  | cons c cs =>
    refine lock_ask_plain read_stable hv hs (by simp) (by simp) fun v _ me hv hs hme => ?_
    obtain rfl : p = me := Option.some.inj hme
    by_cases hmine : atoi (c :: cs) = p
    · rw [if_pos hmine]
      refine unlinkLock_spec hv ⟨hs.looking, fun x hx => ?_⟩ fun v hv _ => hreturn v hv
      -- the owner test sees the same pid as the holder test
      have := atoi_of_lockHolderIfAlive (hs.holder hx)
      rw [hmine] at this
      exact_mod_cast this.symm
    · rw [if_neg hmine]
      exact hreturn v hv

end Functions

/-! ## Every program -/

/-- Process `p` may run the program at any time. -/
def LockSafe (p : Pid) {α : Type} (m : Code N α) : Prop :=
  lockContract.Keeping p (fun _ => True) α m

namespace LockSafe

variable {α β : Type}

theorem ret (a : α) : LockSafe p (pure a : Code N α) :=
  (Contract.keeping_compositional (Contract.stable_true _ p)).ret a

theorem bind {m : Code N α} {f : α → Code N β} (hm : LockSafe p m) (hf : ∀ a, LockSafe p (f a)) :
    LockSafe p (m >>= f) :=
  (Contract.keeping_compositional (Contract.stable_true _ p)).bind m f hm hf

theorem ite {c : Prop} [Decidable c] {a b : Code N α} (ha : LockSafe p a) (hb : LockSafe p b) :
    LockSafe p (if c then a else b) := by
  split
  · exact ha
  · exact hb

theorem op {op : Op N} (hop : ∀ m, op.slot ≠ some (m, .lock)) :
    LockSafe p (perform op) := by
  intro s hinv _
  refine Contract.wp_perform (k := .ret) (Contract.stable_true _ p) hinv trivial ?_
  intro v _ hinvv hrun _ choice v' r hexec
  exact ⟨calm_keeps hinvv hrun hexec hop, fun _ => Contract.wp_ret fun _ _ _ => trivial⟩

theorem ask {q : Query N} {f : q.Res → Code N β} (hf : ∀ a, LockSafe p (f a)) :
    LockSafe p (Droidspaces.ask q >>= f) :=
  (op (by simp [Op.slot])).bind hf

theorem act {a : Action N} {f : a.Res → Code N β} (ha : ∀ m, a.slot ≠ some (m, .lock))
    (hf : ∀ r, LockSafe p (f r)) : LockSafe p (Droidspaces.act a >>= f) :=
  (op ha).bind hf

theorem mark {m : Mark N} {f : Unit → Code N β} (hf : LockSafe p (f ())) :
    LockSafe p (Droidspaces.mark m >>= f) :=
  (op (by simp [Op.slot])).bind fun _ => hf

/-! The programs, in the order in which they call each other. -/

theorem acquire (n : N) : LockSafe p (acquireExternalLock n) := fun _ hinv _ =>
  acquireExternalLock_spec hinv

theorem active (n : N) : LockSafe p (isExternalLockActive n) := fun _ hinv _ =>
  isExternalLockActive_spec hinv

theorem release (n : N) : LockSafe p (releaseExternalLock n) := fun _ hinv _ =>
  releaseExternalLock_spec hinv

theorem lockClient (n : N) : LockSafe p (lockClient n) := by
  refine ask fun call => ?_
  cases call with
  | acquire => exact (acquire n).bind fun _ => ret _
  | active => exact (active n).bind fun _ => ret _
  | release => exact (release n).bind fun _ => ret _
  | handOff => exact mark (ret _)
  | quit => exact act (by simp [Action.slot]) fun _ => ret _

theorem readAndValidatePid (n : N) : LockSafe p (readAndValidatePid n) := by
  refine ask fun pid => ?_
  cases pid with
  | none => exact ret _
  | some q => exact ask fun _ => ite (ret _) (ask fun _ => ite (ret _) (ret _))

theorem findAmong (u : Uuid) (pids : List Pid) :
    LockSafe p (findAmong u pids : Code N (Option Pid)) := by
  induction pids with
  | nil => exact ret _
  | cons q rest ih => exact ask fun _ => ite (ask fun _ => ite (ret _) ih) ih

theorem isContainerRunning (n : N) (uuid : Option Uuid) :
    LockSafe p (isContainerRunning n uuid) := by
  refine (readAndValidatePid n).bind fun ⟨verdict, pid⟩ => ite (ret _) ?_
  cases uuid with
  | none => exact ret _
  | some u =>
    refine LockSafe.bind (ask fun _ => findAmong u _) fun found => ?_
    cases found with
    | none => exact ret _
    | some deep => exact act (by simp [Action.slot]) fun _ => ret _

theorem pruneStalePidfile (n : N) : LockSafe p (pruneStalePidfile n) :=
  act (by simp [Action.slot]) fun _ => act (by simp [Action.slot]) fun _ =>
    op (by simp [Op.slot, Action.slot])

theorem countAmong (names : List N) : LockSafe p (countAmong names) := by
  induction names with
  | nil => exact ret _
  | cons n rest ih =>
    refine (isContainerRunning n none).bind fun ⟨running, pid⟩ => ?_
    refine ite (ih.bind fun _ => ret _) (ite (ask fun _ => ite ?_ ih) ih)
    exact (pruneStalePidfile n).bind fun _ => ih

theorem countRunningContainers : LockSafe p (countRunningContainers : Code N ℕ) :=
  ask fun _ => countAmong _

theorem featureAmong (names : List N) : LockSafe p (featureAmong names) := by
  induction names with
  | nil => exact ret _
  | cons n rest ih =>
    refine ask fun loaded => ite ?_ ih
    exact (isContainerRunning n loaded.uuid).bind fun ⟨running, _⟩ => ite (ret _) ih

theorem mountRootfsImg (n : N) : LockSafe p (mountRootfsImg n) := by
  refine LockSafe.bind ?_ fun _ => ite (op (by simp [Op.slot, Action.slot])) (ret _)
  refine ask fun _ => ite (ask fun _ => ite ?_ (ret _)) (op (by simp [Op.slot, Action.slot]))
  exact act (by simp [Action.slot]) fun _ => ret _

theorem unmountRootfsImg (n : N) : LockSafe p (unmountRootfsImg n) := by
  have hrmdir : LockSafe p (Droidspaces.act (.rmdirMnt n)) := op (by simp [Op.slot, Action.slot])
  refine act (by simp [Action.slot]) fun _ => ask fun _ => ite ?_ hrmdir
  exact act (by simp [Action.slot]) fun _ => hrmdir

theorem cleanupContainerResources (cfg : Config N) (imgMount skipUnmount force : Bool) :
    LockSafe p (cleanupContainerResources cfg imgMount skipUnmount force) := by
  have hend : LockSafe p (Droidspaces.mark (.cleaned cfg.name)) := op (by simp [Op.slot])
  have hcgroup : LockSafe p (cgroupCleanupContainer cfg.name) :=
    act (by simp [Action.slot]) fun _ => op (by simp [Op.slot, Action.slot])
  refine mark (ask fun _ => ite ?_ ?_)
  case' refine_1 => refine countRunningContainers.bind fun _ => ?_
  case' refine_1 => refine LockSafe.bind (ask fun _ => featureAmong _) fun _ => ?_
  all_goals
    refine ask fun _ => ite (ite ?_ ?_) ?_
    case' refine_1 => refine act (by simp [Action.slot]) fun _ => ?_
    case' refine_1 => refine act (by simp [Action.slot]) fun _ => ?_
    case' refine_2 => refine (unmountRootfsImg _).bind fun _ => ?_
    all_goals
      refine ite ?_ ?_
      case' refine_1 => refine act (by simp [Action.slot]) fun _ => ?_
      case' refine_1 => refine act (by simp [Action.slot]) fun _ => ?_
      case' refine_1 => refine act (by simp [Action.slot]) fun _ => ?_
      all_goals
        refine ite (act (by simp [Action.slot]) fun _ => ?_) ?_
        all_goals exact ite (hcgroup.bind fun _ => hend) hend

theorem activeAmong (pids : List Pid) : LockSafe p (activeAmong pids : Code N (List Uuid)) := by
  induction pids with
  | nil => exact ret _
  | cons q rest ih => exact ask fun _ => ih.bind fun _ => ret _

theorem chooseUuid (uuid : Option Uuid) : LockSafe p (chooseUuid uuid : Code N Uuid) := by
  have hfresh : LockSafe p (Droidspaces.ask .generateUuid : Code N Uuid) := op (by simp [Op.slot])
  refine ask fun pids => (activeAmong _).bind fun active => ?_
  cases uuid with
  | none => exact hfresh
  | some u => exact ite hfresh (ret _)

theorem exit {e : Entry N} (how : Exit) :
    LockSafe p (Droidspaces.act (.exit how) >>= fun _ => (pure e : Code N (Entry N))) :=
  act (by simp [Action.slot]) fun _ => ret _

theorem startFailed (cfg : Config N) (sideEffects imgMount lockAcquired : Bool) :
    LockSafe p (startFailed cfg sideEffects imgMount lockAcquired) := by
  refine ite ?_ ?_
  case' refine_1 => refine (cleanupContainerResources _ _ _ _).bind fun _ => ?_
  all_goals exact ite ((release _).bind fun _ => exit _) (exit _)

theorem startRefused (cfg : Config N) (imgMount : Bool) : LockSafe p (startRefused cfg imgMount) :=
  ite ((unmountRootfsImg _).bind fun _ => exit _) (exit _)

theorem detectRestart (n : N) : LockSafe p (detectRestart n) := by
  have hback := (release (p := p) n).bind fun _ => ret (p := p) (N := N) false
  refine ask fun _ => ite ((acquire n).bind fun _ => ite ?_ (ret _)) (ret _)
  exact ask fun _ => ite (ask fun _ => ite (ret _) hback) hback

theorem startParent (cfg : Config N) (imgMount lockAcquired : Bool) :
    LockSafe p (startParent cfg imgMount lockAcquired) := by
  have hend : LockSafe p (if lockAcquired = true then releaseExternalLock cfg.name >>= fun _ =>
      Droidspaces.act (.exit .normal) >>= fun _ => pure Entry.exited
      else Droidspaces.act (.exit .normal) >>= fun _ => pure Entry.exited) :=
    ite ((release _).bind fun _ => exit _) (exit _)
  refine ask fun pid => ?_
  cases pid with
  | none => exact ite ((release _).bind fun _ => startFailed _ _ _ _) (startFailed _ _ _ _)
  | some pid =>
    refine act (by simp [Action.slot]) fun _ => ite ?_ ?_
    case' refine_1 => refine act (by simp [Action.slot]) fun _ => ?_
    all_goals
      refine act (by simp [Action.slot]) fun _ => mark (ite (ask fun _ => ite ?_ hend) hend)
      exact startFailed _ _ _ _

theorem startRootfs (cfg : Config N) : LockSafe p (startRootfs cfg) := by
  refine (detectRestart _).bind fun lockAcquired => ite ?_ ?_
  case' refine_1 =>
    refine (isContainerRunning _ _).bind fun ⟨running, _⟩ => ite (startFailed _ _ _ _) ?_
  all_goals
    refine mark (ask fun _ => ite (startFailed _ _ _ _) (ite ?_ ?_))
    case' refine_1 => refine (mountRootfsImg _).bind fun _ => ite (startFailed _ _ _ _) ?_
    all_goals
      refine ask fun _ => ite (startRefused _ _) (ask fun _ => ite (startFailed _ _ _ _) ?_)
      refine (chooseUuid _).bind fun _ => ask fun _ => ite (startFailed _ _ _ _) ?_
      exact act (by simp [Action.slot]) fun _ => startParent _ _ _

theorem stopRootfsWithTimeout (cfg : Config N) (skipUnmount : Bool) :
    LockSafe p (stopRootfsWithTimeout cfg skipUnmount) := by
  refine (acquire _).bind fun _ => ite (ret _) ?_
  refine (isContainerRunning _ _).bind fun ⟨running, pid⟩ => ite ?_ ?_
  · exact (release _).bind fun _ => ret _
  refine ask fun imgMount => mark (ask fun stopped => ?_)
  have hrest : ∀ killed : Bool, LockSafe p
      (Droidspaces.cleanupContainerResources cfg imgMount skipUnmount (!killed) >>= fun _ =>
        if skipUnmount = true then Droidspaces.handOff cfg.name >>= fun _ => pure true
        else releaseExternalLock cfg.name >>= fun _ => pure true) := fun killed =>
    (cleanupContainerResources _ _ _ _).bind fun _ => ite (mark (ret _))
      ((release _).bind fun _ => ret _)
  exact ite (hrest true) (ask fun killed => hrest killed)

theorem restartRootfs (booted reloaded : Config N) :
    LockSafe p (restartRootfs booted reloaded) := by
  refine (isContainerRunning _ _).bind fun ⟨running, pid⟩ => ite (exit _) ?_
  exact (stopRootfsWithTimeout _ _).bind fun _ => ite (exit _) (startRootfs _)

theorem monitorHandshake (cfg : Config N) (mid : Pid) : LockSafe p (monitorHandshake cfg mid) := by
  refine ask fun init => ?_
  cases init with
  | none => exact ret _
  | some init =>
    have hdone : LockSafe p (Droidspaces.act (.netDoneWrite init) : Code N Unit) :=
      op (by simp [Op.slot, Action.slot])
    exact ask fun _ => ite (act (by simp [Action.slot]) fun _ => hdone) hdone

theorem staleCheck (cfg : Config N) (rebootCycle : Bool) :
    LockSafe p (staleCheck cfg rebootCycle) := by
  refine ite ((isContainerRunning _ _).bind fun ⟨running, pid⟩ => ite ?_ (ret _)) (ret _)
  exact ask fun _ => ite (ask fun _ => ret _) (ret _)

theorem afterCycle (cfg : Config N) (how : Exit) : LockSafe p (afterCycle cfg how) := by
  refine (active _).bind fun _ => ite (exit _) ?_
  cases how with
  | reboot => exact (readAndValidatePid _).bind fun _ => ask fun _ => ret _
  | normal =>
    refine act (by simp [Action.slot]) fun _ => ?_
    exact (cleanupContainerResources _ _ _ _).bind fun _ => exit _

theorem rebootLoop (cfg : Config N) (rebootCycle : Bool) :
    LockSafe p (rebootLoop cfg rebootCycle) := by
  refine (staleCheck _ _).bind fun _ => act (by simp [Action.slot]) fun mid => ite ?_ ?_
  · exact (monitorHandshake _ _).bind fun _ => ask fun _ => afterCycle _ _
  · exact ask fun _ => afterCycle _ _

theorem intermediate (cfg : Config N) (rebootCycle : Bool) :
    LockSafe p (intermediate cfg rebootCycle) := by
  refine act (by simp [Action.slot]) fun init => ite ?_ ?_
  case' refine_1 => refine act (by simp [Action.slot]) fun _ => ?_
  all_goals
    refine ite ?_ ?_
    all_goals
      refine act (by simp [Action.slot]) fun _ => mark ?_
      exact act (by simp [Action.slot]) fun how => exit how

theorem internalBoot (cfg : Config N) : LockSafe p (internalBoot cfg) := by
  have hrootfs : LockSafe p (bootRootfs cfg) := by
    refine ask fun _ => ite (exit _) (act (by simp [Action.slot]) fun _ => ?_)
    have hend : LockSafe p (Droidspaces.act (.markIdentity cfg.img) >>= fun _ =>
        (pure Entry.exited : Code N (Entry N))) := act (by simp [Action.slot]) fun _ => ret _
    cases cfg.uuid with
    | none => exact hend
    | some u => exact act (by simp [Action.slot]) fun _ => hend
  have hhandshake : LockSafe p (initHandshake cfg) :=
    ite (act (by simp [Action.slot]) fun _ => op (by simp [Op.slot])) (ret _)
  refine hhandshake.bind fun _ => mark ((isContainerRunning _ _).bind fun ⟨running, pid⟩ => ?_)
  exact ite (ask fun _ => ite (exit _) (mark hrootfs)) (mark hrootfs)

theorem syncAmong (pids : List Pid) : LockSafe p (syncAmong pids : Code N Unit) := by
  induction pids with
  | nil => exact ret _
  | cons q rest ih =>
    refine ite (ask fun _ => ite (LockSafe.bind ?_ fun _ => ih) ih) ih
    refine ite (ret _) (ask fun _ => ite (ret _) (ask fun name => ?_))
    cases name with
    | none => exact ret _
    | some n =>
      refine ask fun _ => ite ?_ ?_
      case' refine_1 => refine act (by simp [Action.slot]) fun _ => ?_
      all_goals
        exact ask fun _ => ite (ask fun _ =>
          ite (op (by simp [Op.slot, Action.slot])) (ret _)) (ret _)

theorem gatherTracked (tracked names : List N) : LockSafe p (gatherTracked tracked names) := by
  induction names generalizing tracked with
  | nil => exact ret _
  | cons n rest ih =>
    refine ite (mark (ret _)) ((readAndValidatePid n).bind fun ⟨verdict, pid⟩ => ite ?_ ?_)
    · exact ask fun _ => ite (ih _) (ih _)
    · exact ite ((pruneStalePidfile n).bind fun _ => ih _) (ih _)

theorem sweepOrphans (tracked names : List N) : LockSafe p (sweepOrphans tracked names) := by
  induction names with
  | nil => exact ret _
  | cons n rest ih =>
    refine ask fun _ => ite (ite ((unmountRootfsImg n).bind fun _ => ih) ih) ?_
    exact act (by simp [Action.slot]) fun _ => ih

theorem scanContainers : LockSafe p (scanContainers : Code N Unit) := by
  refine ask fun _ => (syncAmong _).bind fun _ => mark (ask fun _ => ?_)
  refine (gatherTracked _ _).bind fun _ => mark (ask fun _ => ?_)
  exact (sweepOrphans _ _).bind fun _ => op (by simp [Op.slot])

theorem code (e : Entry N) : LockSafe p e.code := by
  cases e with
  | start cfg => exact startRootfs cfg
  | stop cfg => exact (stopRootfsWithTimeout cfg false).bind fun _ => exit _
  | restart booted reloaded => exact restartRootfs booted reloaded
  | countRunningContainers => exact countRunningContainers.bind fun _ => exit _
  | showContainers => exact LockSafe.bind (ask fun _ => countAmong _) fun _ => exit _
  | scanContainers => exact scanContainers.bind fun _ => exit _
  | lockClient n => exact lockClient n
  | monitor cfg =>
    exact ite (act (by simp [Action.slot]) fun _ => act (by simp [Action.slot]) fun _ => ret _)
      (ret _)
  | rebootLoop cfg rebootCycle => exact rebootLoop cfg rebootCycle
  | intermediate cfg rebootCycle => exact intermediate cfg rebootCycle
  | init cfg => exact internalBoot cfg
  | exited => exact ret _

end LockSafe

/-! ## The theorem -/

theorem lock_sound : (lockContract (N := N)).Sound where
  code e p w hinv _ := LockSafe.code e w hinv trivial
  env := by
    rintro w e ⟨v, g⟩ ch hinv _ henv
    obtain ⟨hv, hg⟩ := hostEnv_of_history henv
    obtain rfl : g = w.2 := hg
    have hlater := hostEnv_later hv
    have hfiles := hostEnv_files hv
    refine ⟨⟨hostEnv_ok hinv.ok hv, ?_, ?_, ?_⟩, fun q _ => ⟨hlater, rfl, ?_⟩, fun _ _ _ => trivial⟩
    · intro n x y hx hy
      rw [hfiles] at hx
      rw [hlater.boot] at hy
      have hborn := hinv.recorded n x y hx hy
      exact (hlater.procs y hborn).ne_unborn hborn
    · intro n q hq hhold
      rw [hfiles, hlater.boot]
      exact hinv.holder n q (hlater.running (hinv.born n q hhold) hq) hhold
    · exact fun n q hq => (hlater.procs q (hinv.born n q hq)).ne_unborn (hinv.born n q hq)
    · intro n _
      rw [hfiles]
      exact Or.inl rfl

/-- Nothing has happened yet. -/
def lockedStart (w : World N) :
    Machine.State Pid (World N × LockHistory N) (Op N) (Entry N) Op.Res :=
  ⟨(w, .empty), fun _ => .ret .exited⟩

theorem lock_holds {w : World N} (hw : w.Booted) (hstale : w.LocksStale) :
    lockContract.Holds (lockedStart w) where
  inv := by
    refine ⟨hw.ok, fun n x y hx hy => ?_, ?_, ?_⟩
    · have hnone := hstale n x hx
      exact absurd (hnone.symm.trans hy) (by simp)
    · simp [lockedStart, LockHistory.empty]
    · simp [lockedStart, LockHistory.empty]
  prog p hp := absurd (hw.unborn p) (World.ne_unborn_of_running hp)

omit [DecidableEq N] in
/-- Two holders would both have their stamp on the file. -/
theorem LockInv.exclusive (hs : LockInv s) : LockExclusive s := by
  intro n p q hp hq hholdp hholdq
  have hrecp := hs.recordedHolder hp hholdp
  rw [hs.recordedHolder hq hholdq] at hrecp
  exact (Option.some.inj hrecp).symm

/-- **The external lock excludes.**  In every run from a booted host in which no stamp is renamed
into place over somebody else's look, at most one live process holds the lock of a name, and no
removed lock file records another live holder. -/
theorem externalLock_excludes (w : World N) (hw : w.Booted) (hstale : w.LocksStale)
    (es : List (Machine.Event Pid (HostEvent N)))
    (hguard : lockedLifecycle.GuardedBy (fun s p op => noRenameOverLook s p op = true)
      Machine.anyEnv (lockedStart w) es) :
    (∀ t, lockedLifecycle.toSystem.run (lockedStart w) es = some t → LockExclusive t.world) ∧
      lockedLifecycle.toSystem.Along
        (fun s e _ => Machine.admits RemovesNoLiveLock Machine.anyEnv s e) (lockedStart w) es := by
  have hspawns := (lifecycle_spawns (N := N)).withGhost LockHistory.note fun g _ _ _ => g
  have hholds := lock_holds hw hstale
  exact ⟨fun t hrun => (lock_sound.run hspawns hholds hguard hrun).inv.exclusive,
    lock_sound.along hspawns hholds hguard⟩

/-! ## Two stops side by side -/

section SideBySide

open Machine

def twoStops : List (Event Pid (HostEvent Unit)) :=
  [.env (.spawn 1 (.stop (.plain ()))), .env (.spawn 2 (.stop (.plain ())))]

/-- **Both acquire.**  Neither finds a lock file, so each renames its stamp into place. -/
theorem two_acquirers_hold :
    ∃ es t,
      (lockedLifecycle (N := Unit)).toSystem.run (lockedStart (World.idle aBoot)) es = some t ∧
        ¬ LockExclusive t.world := by
  have hboth : ((lockedLifecycle.toSystem.run (lockedStart (World.idle aBoot))
      (twoStops ++ turns 1 1 ++ turns 2 1 ++ turns 1 1 ++ turns 2 1)).any fun t =>
        t.world.1.running 1 && t.world.1.running 2 && t.world.2.holding 1 () &&
          t.world.2.holding 2 ()) = true := by
    decide +kernel
  obtain ⟨t, hrun, ht⟩ := (Option.any_eq_true _ _).1 hboth
  simp only [Bool.and_eq_true] at ht
  obtain ⟨⟨⟨hone, htwo⟩, hfirst⟩, hsecond⟩ := ht
  refine ⟨_, t, hrun, fun hexclusive => ?_⟩
  exact absurd (hexclusive () 1 2 hone htwo hfirst hsecond) (by decide)

/-- The first stop gives the lock back before the second one looks. -/
theorem externalLock_excludes_inTurn :
    (∃ t, lockedLifecycle.toSystem.run (lockedStart (World.idle aBoot))
        (twoStops ++ turns 1 8 ++ turns 2 3) = some t ∧ t.world.2.holding 2 () = true ∧
      LockExclusive t.world) ∧
      lockedLifecycle.toSystem.Along
        (fun s e _ => Machine.admits RemovesNoLiveLock Machine.anyEnv s e)
        (lockedStart (World.idle aBoot)) (twoStops ++ turns 1 8 ++ turns 2 3) := by
  have hstale : (World.idle aBoot : World Unit).LocksStale := fun _ _ h => by cases h
  obtain ⟨hexclusive, hremoves⟩ := externalLock_excludes _ (World.idle_booted aBoot) hstale
    (twoStops ++ turns 1 8 ++ turns 2 3) (by decide +kernel)
  have hturn : ((lockedLifecycle.toSystem.run (lockedStart (World.idle aBoot))
      (twoStops ++ turns 1 8 ++ turns 2 3)).any fun t => t.world.2.holding 2 ()) = true := by
    decide +kernel
  obtain ⟨t, hrun, ht⟩ := (Option.any_eq_true _ _).1 hturn
  exact ⟨⟨t, hrun, ht, hexclusive t hrun⟩, hremoves⟩

end SideBySide

end Droidspaces
