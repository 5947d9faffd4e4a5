import Droidspaces.Lifecycle.Programs
import Droidspaces.Transition.RelyGuarantee

/-!
# How the host changes

Facts about single operations that every proof over the lifecycle machine needs: a process only
grows older (`World.Later`), the process table stays well formed (`World.Ok`), and a process
becomes runnable only by being started (`lifecycle_spawns`).  They hold of every operation of
every program, so no program is looked at here.
-/

namespace Droidspaces

open Transition

variable {N : Type}

/-! ## Ageing -/

/-- A process lives, then dies, then is waited for. -/
def Life.rank : Life → ℕ
  | .unborn => 0
  | .running => 1
  | .zombie => 2
  | .gone => 3

/-- `b` is the same process as `a`, later. -/
structure Proc.Later (a b : Proc N) : Prop where
  entry : b.entry = a.entry
  parent : b.parent = a.parent
  rank : a.life.rank ≤ b.life.rank
  marked : a.marked = true → b.marked = true
  uuids : ∀ u ∈ a.uuids, u ∈ b.uuids

/-- `w'` comes after `w`. -/
structure World.Later (w w' : World N) : Prop where
  boot : w'.boot = w.boot
  procs : ∀ p, (w.procs p).life ≠ .unborn → (w.procs p).Later (w'.procs p)

/-- Every name with a pidfile or a mount directory is listed. -/
def World.Listed (w : World N) : Prop :=
  (∀ n, (w.files n).pid.isSome = true → n ∈ w.names) ∧
    ∀ n, (w.files n).dir = true → n ∈ w.names

/-- Every pid that was ever used is listed; pid 0 stands for a parent outside the model. -/
structure World.Ok (w : World N) : Prop where
  pids : ∀ p, (w.procs p).life ≠ .unborn → p ∈ w.pids ∧ 0 < p ∧ p < pidMax
  parent : ∀ p, (w.procs p).life ≠ .unborn →
    (w.procs p).parent = 0 ∨ (w.procs (w.procs p).parent).life ≠ .unborn
  listed : w.Listed

/-- No process has run yet; files may be left from an earlier boot. -/
structure World.Booted (w : World N) : Prop where
  ok : w.Ok
  unborn : ∀ p, (w.procs p).life = .unborn

theorem World.idle_booted (boot : BootId) : (World.idle boot : World N).Booted where
  ok := by
    refine ⟨fun p hp => absurd rfl hp, fun p hp => absurd rfl hp, ?_, ?_⟩ <;>
      simp [World.idle, Files.none]
  unborn _ := rfl

theorem Proc.Later.refl (a : Proc N) : a.Later a :=
  ⟨rfl, rfl, le_refl _, id, fun _ h => h⟩

/-- Pipes, cgroup and status do not matter for age. -/
theorem Proc.Later.of_eq {a b : Proc N} (hentry : b.entry = a.entry) (hparent : b.parent = a.parent)
    (hlife : b.life = a.life) (hmarked : b.marked = a.marked) (huuids : b.uuids = a.uuids) :
    a.Later b :=
  ⟨hentry, hparent, by rw [hlife], fun h => by rw [hmarked, h], fun u h => by rwa [huuids]⟩

theorem Proc.Later.trans {a b c : Proc N} (hab : a.Later b) (hbc : b.Later c) : a.Later c where
  entry := hbc.entry.trans hab.entry
  parent := hbc.parent.trans hab.parent
  rank := le_trans hab.rank hbc.rank
  marked h := hbc.marked (hab.marked h)
  uuids u h := hbc.uuids u (hab.uuids u h)

theorem Proc.Later.ne_unborn {a b : Proc N} (h : a.Later b) (ha : a.life ≠ .unborn) :
    b.life ≠ .unborn := by
  intro hb
  have hrank := h.rank
  rw [hb] at hrank
  cases hl : a.life <;> simp_all [Life.rank]

theorem Proc.Later.running {a b : Proc N} (h : a.Later b) (ha : a.life ≠ .unborn)
    (hb : b.life = .running) : a.life = .running := by
  have hrank := h.rank
  rw [hb] at hrank
  cases hl : a.life <;> simp_all [Life.rank]

theorem Proc.Later.role {a b : Proc N} (h : a.Later b) : b.role = a.role := by
  rw [Proc.role, Proc.role, h.entry]

theorem Proc.die_later {a : Proc N} (ha : a.life = .running) (how : Exit) :
    a.Later (a.die how) := by
  unfold Proc.die
  split <;> exact ⟨rfl, rfl, by simp [ha, Life.rank], id, fun _ h => h⟩

theorem World.Later.refl (w : World N) : w.Later w :=
  ⟨rfl, fun _ _ => Proc.Later.refl _⟩

theorem World.Later.trans {u v w : World N} (huv : u.Later v) (hvw : v.Later w) : u.Later w where
  boot := hvw.boot.trans huv.boot
  procs p hp := (huv.procs p hp).trans (hvw.procs p ((huv.procs p hp).ne_unborn hp))

theorem World.running_iff {w : World N} {p : Pid} :
    w.running p = true ↔ (w.procs p).life = .running := by
  simp [World.running]

theorem World.ne_unborn_of_running {w : World N} {p : Pid} (h : w.running p = true) :
    (w.procs p).life ≠ .unborn := by
  rw [World.running_iff] at h
  rw [h]
  decide

/-- Nobody comes back to life. -/
theorem World.Later.running {w w' : World N} (h : w.Later w') {p : Pid}
    (hp : (w.procs p).life ≠ .unborn) (hrun : w'.running p = true) : w.running p = true := by
  rw [World.running_iff] at hrun ⊢
  exact (h.procs p hp).running hp hrun

theorem World.Ok.not_running_zero {w : World N} (hok : w.Ok) : w.running 0 ≠ true := fun h =>
  lt_irrefl 0 (hok.pids 0 (World.ne_unborn_of_running h)).2.1

/-- Whoever answers `kill(pid, 0)` later answers it now, once it is born. -/
theorem World.Later.present {w w' : World N} (h : w.Later w') (hok : w.Ok) (hok' : w'.Ok)
    {p : Pid} (hp : (w.procs p).life ≠ .unborn) (hpres : w'.present p = true) :
    w.present p = true := by
  have hlater := h.procs p hp
  have hrank := hlater.rank
  unfold World.present at hpres ⊢
  cases hl' : (w'.procs p).life with
  | unborn => simp [hl'] at hpres
  | gone => simp [hl'] at hpres
  | running =>
    rw [hlater.running hp hl']
  | zombie =>
    simp only [hl', hlater.parent] at hpres
    rw [hl'] at hrank
    cases hl : (w.procs p).life with
    | unborn => exact absurd hl hp
    | gone => simp [hl, Life.rank] at hrank
    | running => rfl
    | zombie =>
      rcases hok.parent p hp with hzero | hborn
      · rw [hzero] at hpres
        exact absurd hpres hok'.not_running_zero
      · exact h.running hborn hpres

/-! ## Every operation -/

section Updates

variable {w : World N} {p q : Pid} {f : Proc N → Proc N}

@[simp] theorem World.setProc_boot : (w.setProc p f).boot = w.boot := rfl

@[simp] theorem World.setProc_files : (w.setProc p f).files = w.files := rfl

@[simp] theorem World.setProc_names : (w.setProc p f).names = w.names := rfl

@[simp] theorem World.setProc_pids : (w.setProc p f).pids = w.pids := rfl

@[simp] theorem World.setProc_self : (w.setProc p f).procs p = f (w.procs p) := by
  simp [World.setProc]

theorem World.setProc_of_ne (h : q ≠ p) : (w.setProc p f).procs q = w.procs q := by
  simp [World.setProc, h]

/-- A change of one process that only makes it older. -/
theorem World.later_setProc (h : (w.procs p).life ≠ .unborn → (w.procs p).Later (f (w.procs p))) :
    w.Later (w.setProc p f) := by
  refine ⟨rfl, fun q hq => ?_⟩
  by_cases hqp : q = p
  · subst hqp
    simpa using h hq
  · rw [World.setProc_of_ne hqp]
    exact Proc.Later.refl _

theorem World.later_of_procs_eq {w' : World N} (hboot : w'.boot = w.boot)
    (hprocs : w'.procs = w.procs) : w.Later w' :=
  ⟨hboot, fun q _ => by rw [hprocs]; exact Proc.Later.refl _⟩

theorem World.born_eq_some {c : Pid} {x : Proc N} {w' : World N} (h : w.born c x = some w') :
    (w.procs c).life = .unborn ∧ 0 < c ∧ c < pidMax ∧
      w' = { w with procs := Function.update w.procs c x, pids := c :: w.pids } := by
  simp only [World.born, Option.ite_none_right_eq_some, Option.some.injEq] at h
  exact ⟨h.1.1, h.1.2.1, h.1.2.2, h.2.symm⟩

theorem World.later_born {c : Pid} {x : Proc N} {w' : World N} (h : w.born c x = some w') :
    w.Later w' := by
  obtain ⟨hc, -, -, rfl⟩ := World.born_eq_some h
  refine ⟨rfl, fun q hq => ?_⟩
  have hqc : q ≠ c := fun heq => hq (heq ▸ hc)
  simp only [Function.update_of_ne hqc]
  exact Proc.Later.refl _

theorem Entry.afterFork_later (e : Entry N) (a : Proc N) : a.Later (e.afterFork a) := by
  unfold Entry.afterFork
  split
  · exact Proc.Later.of_eq rfl rfl rfl rfl rfl
  · exact Proc.Later.refl a

variable [DecidableEq N]

@[simp] theorem World.setFiles_procs (n : N) (g : Files → Files) :
    (w.setFiles n g).procs = w.procs := rfl

@[simp] theorem World.setFiles_boot (n : N) (g : Files → Files) :
    (w.setFiles n g).boot = w.boot := rfl

@[simp] theorem World.setFiles_pids (n : N) (g : Files → Files) :
    (w.setFiles n g).pids = w.pids := rfl

@[simp] theorem World.setFiles_names (n : N) (g : Files → Files) :
    (w.setFiles n g).names = w.names := rfl

@[simp] theorem World.setFiles_self (n : N) (g : Files → Files) :
    (w.setFiles n g).files n = g (w.files n) := by
  simp [World.setFiles]

theorem World.setFiles_of_ne {n m : N} (g : Files → Files) (h : m ≠ n) :
    (w.setFiles n g).files m = w.files m := by
  simp [World.setFiles, h]

@[simp] theorem World.addName_procs (n : N) : (w.addName n).procs = w.procs := rfl

@[simp] theorem World.addName_boot (n : N) : (w.addName n).boot = w.boot := rfl

@[simp] theorem World.addName_pids (n : N) : (w.addName n).pids = w.pids := rfl

@[simp] theorem World.addName_files (n : N) : (w.addName n).files = w.files := rfl

theorem World.mem_addName {n m : N} : m ∈ (w.addName n).names ↔ m = n ∨ m ∈ w.names := by
  unfold World.addName
  by_cases hn : n ∈ w.names
  · simp only [hn, if_true]
    exact ⟨Or.inr, fun h => h.elim (fun h => h ▸ hn) id⟩
  · simp [hn]

theorem World.later_killCgroup (n : N) : w.Later (w.killCgroup n) := by
  refine ⟨rfl, fun q _ => ?_⟩
  simp only [World.killCgroup]
  split
  · next h => exact Proc.die_later (World.running_iff.1 (by simp_all)) _
  · exact Proc.Later.refl _

end Updates

variable [DecidableEq N] {w w' : World N} {p : Pid} {choice : ℕ}

omit [DecidableEq N] in
theorem world_of_some {α : Type} {v : World N} {s r : α} (h : some (v, s) = some (w', r)) :
    v = w' :=
  (Prod.mk.inj (Option.some.inj h)).1

/-! ## Files -/

/-- The parts of `Files`. -/
inductive Slot where
  | pid
  | mount
  | init
  | lock
  | dir
  | mnt
  | rules
  | cgroup
  deriving DecidableEq

/-- What an action writes. -/
def Action.slot : Action N → Option (N × Slot)
  | .writePid n _ | .unlinkPid n => some (n, .pid)
  | .writeMount n | .unlinkMount n => some (n, .mount)
  | .writeInit n | .unlinkInit n => some (n, .init)
  | .unlinkLock n | .renameLock n => some (n, .lock)
  | .mkdirMnt n | .rmdirMnt n => some (n, .dir)
  | .mountImg n | .umount n => some (n, .mnt)
  | .setupVeth n | .netCleanup n => some (n, .rules)
  | .cgroupMkdir n | .cgroupRmdir n => some (n, .cgroup)
  | _ => none

def Op.slot : Op N → Option (N × Slot)
  | .action a => a.slot
  | _ => none

/-- Whether the slot of `n` holds anything. -/
def World.has (w : World N) (n : N) : Slot → Bool
  | .pid => (w.files n).pid.isSome
  | .mount => (w.files n).mount
  | .init => (w.files n).init
  | .lock => (w.files n).lock.isSome
  | .dir => (w.files n).dir
  | .mnt => 0 < (w.files n).mnt
  | .rules => (w.files n).rules
  | .cgroup => (w.files n).cgroup

/-- `g` is `f` outside one slot. -/
structure Files.EqOff (slot : Option Slot) (f g : Files) : Prop where
  pid : slot ≠ some .pid → g.pid = f.pid
  mount : slot ≠ some .mount → g.mount = f.mount
  init : slot ≠ some .init → g.init = f.init
  lock : slot ≠ some .lock → g.lock = f.lock
  dir : slot ≠ some .dir → g.dir = f.dir
  mnt : slot ≠ some .mnt → g.mnt = f.mnt
  rules : slot ≠ some .rules → g.rules = f.rules
  cgroup : slot ≠ some .cgroup → g.cgroup = f.cgroup

theorem Files.EqOff.refl (slot : Option Slot) (f : Files) : f.EqOff slot f := by
  constructor <;> exact fun _ => rfl

/-- The slot of `n` that the operation writes. -/
def Op.writes (op : Op N) (n : N) : Option Slot :=
  op.slot.bind fun s => if s.1 = n then some s.2 else none

theorem Op.writes_eq_some {op : Op N} {n : N} {slot : Slot} :
    op.writes n = some slot ↔ op.slot = some (n, slot) := by
  unfold Op.writes
  constructor
  · intro h
    obtain ⟨⟨m, s⟩, hs, hif⟩ := Option.bind_eq_some_iff.1 h
    simp only [Option.ite_none_right_eq_some, Option.some.injEq] at hif
    obtain ⟨rfl, rfl⟩ := hif
    exact hs
  · intro h
    simp [h]

theorem World.eqOff_setFiles {m : N} {g : Files → Files} {slot : Slot}
    (hg : ∀ f, Files.EqOff (some slot) f (g f)) (n : N) :
    (w.files n).EqOff (if m = n then some slot else none) ((w.setFiles m g).files n) := by
  by_cases hmn : m = n
  · subst hmn
    rw [if_pos rfl, World.setFiles_self]
    exact hg _
  · rw [World.setFiles_of_ne g (Ne.symm hmn)]
    exact Files.EqOff.refl _ _

/-- **Every operation writes one slot of one name.** -/
theorem exec_files {op : Op N} {r : op.Res} (h : exec w p op choice = some (w', r)) (n : N) :
    (w.files n).EqOff (op.writes n) (w'.files n) := by
  cases op with
  | query q =>
    obtain ⟨_, -, heq⟩ := Option.map_eq_some_iff.1 h
    obtain ⟨rfl, -⟩ := Prod.mk.inj heq
    exact Files.EqOff.refl _ _
  | mark m =>
    obtain ⟨rfl, -⟩ := Prod.mk.inj (Option.some.inj h)
    exact Files.EqOff.refl _ _
  | action a =>
    simp only [exec] at h
    cases a with
    | fork e =>
      obtain ⟨v, hv, heq⟩ := Option.map_eq_some_iff.1 h
      obtain ⟨rfl, -⟩ := Prod.mk.inj heq
      simp only [World.born, Option.ite_none_right_eq_some, Option.some.injEq] at hv
      rw [← hv.2]
      exact Files.EqOff.refl _ _
    | _ =>
      simp only [effect] at h
      repeat' split at h
      all_goals
        first
        | cases h; done
        | obtain rfl := world_of_some h
          first
          | exact Files.EqOff.refl _ _
          | refine World.eqOff_setFiles (fun f => ?_) n
            constructor <;> simp
          | rw [World.addName_files]
            refine World.eqOff_setFiles (fun f => ?_) n
            constructor <;> simp

omit [DecidableEq N] in
theorem hostEnv_files {e : HostEvent N} {ch : Option (Pid × Entry N)}
    (h : hostEnv w e = some (w', ch)) : w'.files = w.files := by
  cases e with
  | spawn c e =>
    simp only [hostEnv, World.born, Option.ite_none_right_eq_some, Option.map_eq_some_iff,
      Option.some.injEq] at h
    obtain ⟨-, v, hv, heq⟩ := h
    rw [← (Prod.mk.inj heq).1, ← hv.2]
  | die c how =>
    simp only [hostEnv, Option.ite_none_right_eq_some, Option.some.injEq, Prod.mk.injEq] at h
    rw [← h.2.1]
    rfl

/-! ## Ageing, by operations -/

theorem effect_later {a : Action N} {r : a.Res} (hrun : w.running p = true)
    (h : effect w p a choice = some (w', r)) : w.Later w' := by
  have hlife := World.running_iff.1 hrun
  cases a with
  | fork e =>
    obtain ⟨v, hv, heq⟩ := Option.map_eq_some_iff.1 h
    obtain ⟨rfl, -⟩ := Prod.mk.inj heq
    exact (World.later_setProc fun _ => e.afterFork_later _).trans (World.later_born hv)
  | exit how =>
    obtain rfl := world_of_some h
    exact World.later_setProc fun _ => Proc.die_later hlife how
  | waitInit c =>
    simp only [effect, Option.ite_none_right_eq_some] at h
    obtain rfl := world_of_some h.2
    exact World.later_setProc fun _ =>
      ⟨rfl, rfl, by cases (w.procs c).life <;> simp [Life.rank], id, fun _ hu => hu⟩
  | markDir =>
    obtain rfl := world_of_some h
    exact World.later_setProc fun _ => ⟨rfl, rfl, le_refl _, fun _ => rfl, fun _ hu => hu⟩
  | markUuid u =>
    obtain rfl := world_of_some h
    exact World.later_setProc fun _ =>
      ⟨rfl, rfl, le_refl _, id, fun _ hu => List.mem_cons_of_mem u hu⟩
  | syncWrite c =>
    simp only [effect] at h
    split at h
    · obtain rfl := world_of_some h
      refine (World.later_setProc fun _ => ?_).trans (World.later_setProc fun _ => ?_) <;>
        exact Proc.Later.of_eq rfl rfl rfl rfl rfl
    · obtain rfl := world_of_some h
      exact World.Later.refl _
  | cgroupKill n =>
    simp only [effect] at h
    split at h
    · obtain rfl := world_of_some h
      exact World.later_killCgroup n
    · obtain rfl := world_of_some h
      exact World.Later.refl _
  | cgroupEnter n =>
    simp only [effect] at h
    split at h
    · obtain rfl := world_of_some h
      exact World.later_setProc fun _ => Proc.Later.of_eq rfl rfl rfl rfl rfl
    · obtain rfl := world_of_some h
      exact World.Later.refl _
  | midWrite _ | netReadyWrite | netDoneWrite _ | markIdentity _ | cgroupLeave =>
    obtain rfl := world_of_some h
    exact World.later_setProc fun _ => Proc.Later.of_eq rfl rfl rfl rfl rfl
  | _ =>
    -- the remaining actions change files only
    simp only [effect] at h
    repeat' split at h
    all_goals
      obtain rfl := world_of_some h
      exact World.later_of_procs_eq rfl rfl

/-- A query answers and changes nothing. -/
theorem exec_query {q : Query N} {r : q.Res} (h : exec w p (.query q) choice = some (w', r)) :
    w' = w ∧ answer w p q choice = some r := by
  obtain ⟨r', hr, heq⟩ := Option.map_eq_some_iff.1 h
  obtain ⟨rfl, rfl⟩ := Prod.mk.inj heq
  exact ⟨rfl, hr⟩

/-- Every operation only makes processes older. -/
theorem exec_later {op : Op N} {r : op.Res} (hrun : w.running p = true)
    (h : exec w p op choice = some (w', r)) : w.Later w' := by
  cases op with
  | query q =>
    obtain ⟨rfl, -⟩ := exec_query h
    exact World.Later.refl _
  | action a => exact effect_later hrun h
  | mark m =>
    obtain rfl := world_of_some h
    exact World.Later.refl w

/-! ## The process table stays well formed -/

/-- The same pids are in use, with the same parents. -/
structure World.SamePids (w w' : World N) : Prop where
  pids : w'.pids = w.pids
  unborn : ∀ q, (w'.procs q).life = .unborn ↔ (w.procs q).life = .unborn
  parent : ∀ q, (w'.procs q).parent = (w.procs q).parent

section SamePids

omit [DecidableEq N]

theorem World.SamePids.refl (w : World N) : w.SamePids w :=
  ⟨rfl, fun _ => Iff.rfl, fun _ => rfl⟩

theorem World.SamePids.trans {u v w : World N} (huv : u.SamePids v) (hvw : v.SamePids w) :
    u.SamePids w :=
  ⟨hvw.pids.trans huv.pids, fun q => (hvw.unborn q).trans (huv.unborn q),
    fun q => (hvw.parent q).trans (huv.parent q)⟩

theorem World.samePids_setProc {f : Proc N → Proc N}
    (hlife : (f (w.procs p)).life = .unborn ↔ (w.procs p).life = .unborn)
    (hparent : (f (w.procs p)).parent = (w.procs p).parent) : w.SamePids (w.setProc p f) := by
  refine ⟨rfl, fun q => ?_, fun q => ?_⟩ <;> by_cases hqp : q = p
  · subst hqp
    simpa using hlife
  · rw [World.setProc_of_ne hqp]
  · subst hqp
    simpa using hparent
  · rw [World.setProc_of_ne hqp]

theorem Proc.die_ne_unborn (a : Proc N) (how : Exit) : (a.die how).life ≠ .unborn := by
  unfold Proc.die
  split <;> simp

theorem Proc.die_parent (a : Proc N) (how : Exit) : (a.die how).parent = a.parent := by
  unfold Proc.die
  split <;> rfl

theorem World.samePids_kill (hrun : w.running p = true) (how : Exit) :
    w.SamePids (w.setProc p fun q => q.die how) :=
  World.samePids_setProc
    (iff_of_false (Proc.die_ne_unborn _ _) (World.ne_unborn_of_running hrun)) (Proc.die_parent _ _)

theorem World.Ok.of_samePids (hok : w.Ok) (h : w.SamePids w') (hlisted : w'.Listed) : w'.Ok where
  pids q hq := by
    rw [h.pids]
    exact hok.pids q fun hu => hq ((h.unborn q).2 hu)
  parent q hq := by
    rw [h.parent]
    refine (hok.parent q fun hu => hq ((h.unborn q).2 hu)).imp_right fun hne hu => ?_
    exact hne ((h.unborn _).1 hu)
  listed := hlisted

theorem World.Ok.born (hok : w.Ok) {c : Pid} {x : Proc N} (h : w.born c x = some w')
    (hparent : x.parent = 0 ∨ (w.procs x.parent).life ≠ .unborn) : w'.Ok := by
  obtain ⟨hc, hpos, hmax, rfl⟩ := World.born_eq_some h
  have hstill : ∀ q, (w.procs q).life ≠ .unborn →
      (Function.update w.procs c x q).life ≠ .unborn := by
    intro q hq
    have hqc : q ≠ c := fun heq => hq (heq ▸ hc)
    simpa [hqc] using hq
  refine ⟨fun q hq => ?_, fun q hq => ?_, hok.listed⟩
  · by_cases hqc : q = c
    · subst hqc
      exact ⟨List.mem_cons_self, hpos, hmax⟩
    · obtain ⟨hmem, hrest⟩ := hok.pids q (by simpa [hqc] using hq)
      exact ⟨List.mem_cons_of_mem c hmem, hrest⟩
  · by_cases hqc : q = c
    · subst hqc
      simp only [Function.update_self]
      exact hparent.imp_right (hstill _)
    · simp only [Function.update_of_ne hqc] at hq ⊢
      exact (hok.parent q hq).imp_right (hstill _)

theorem World.samePids_of_eq (hprocs : w'.procs = w.procs) (hpids : w'.pids = w.pids) :
    w.SamePids w' :=
  ⟨hpids, fun q => by rw [hprocs], fun q => by rw [hprocs]⟩

theorem World.Listed.of_eq (h : w.Listed) (hfiles : w'.files = w.files)
    (hnames : w'.names = w.names) : w'.Listed := by
  unfold World.Listed
  rw [hfiles, hnames]
  exact h

end SamePids

theorem World.Listed.setFiles (h : w.Listed) (n : N) {g : Files → Files}
    (hpid : (g (w.files n)).pid.isSome = true → (w.files n).pid.isSome = true)
    (hdir : (g (w.files n)).dir = true → (w.files n).dir = true) : (w.setFiles n g).Listed := by
  refine ⟨fun m hm => ?_, fun m hm => ?_⟩ <;> by_cases hmn : m = n
  · subst hmn
    exact h.1 m (hpid (by simpa using hm))
  · exact h.1 m (by rwa [World.setFiles_of_ne g hmn] at hm)
  · subst hmn
    exact h.2 m (hdir (by simpa using hm))
  · exact h.2 m (by rwa [World.setFiles_of_ne g hmn] at hm)

theorem World.Listed.addName (h : w.Listed) (n : N) (g : Files → Files) :
    ((w.setFiles n g).addName n).Listed := by
  refine ⟨fun m hm => ?_, fun m hm => ?_⟩ <;> refine World.mem_addName.2 ?_ <;>
    by_cases hmn : m = n
  · exact Or.inl hmn
  · exact Or.inr (h.1 m (by rwa [World.addName_files, World.setFiles_of_ne g hmn] at hm))
  · exact Or.inl hmn
  · exact Or.inr (h.2 m (by rwa [World.addName_files, World.setFiles_of_ne g hmn] at hm))

theorem World.samePids_killCgroup (n : N) : w.SamePids (w.killCgroup n) := by
  refine ⟨rfl, fun q => ?_, fun q => ?_⟩ <;> simp only [World.killCgroup] <;> split
  · next h =>
    refine iff_of_false (Proc.die_ne_unborn _ _) (World.ne_unborn_of_running ?_)
    simp_all
  · exact Iff.rfl
  · exact Proc.die_parent _ _
  · rfl

/-- Everything but a fork leaves the set of used pids alone. -/
theorem effect_samePids {a : Action N} {r : a.Res} (hrun : w.running p = true)
    (ha : ∀ e, a ≠ .fork e) (h : effect w p a choice = some (w', r)) : w.SamePids w' := by
  cases a with
  | fork e => exact absurd rfl (ha e)
  | exit how =>
    obtain rfl := world_of_some h
    exact World.samePids_kill hrun how
  | waitInit c =>
    simp only [effect, Option.ite_none_right_eq_some] at h
    obtain rfl := world_of_some h.2
    refine World.samePids_setProc (iff_of_false (by simp) ?_) rfl
    rcases h.1 with hz | hg
    · rw [hz]; decide
    · rw [hg]; decide
  | syncWrite c =>
    simp only [effect] at h
    split at h
    · obtain rfl := world_of_some h
      exact (World.samePids_setProc Iff.rfl rfl).trans (World.samePids_setProc Iff.rfl rfl)
    · obtain rfl := world_of_some h
      exact World.SamePids.refl _
  | cgroupKill n =>
    simp only [effect] at h
    split at h
    · obtain rfl := world_of_some h
      exact World.samePids_killCgroup n
    · obtain rfl := world_of_some h
      exact World.SamePids.refl _
  | cgroupEnter n =>
    simp only [effect] at h
    split at h
    · obtain rfl := world_of_some h
      exact World.samePids_setProc Iff.rfl rfl
    · obtain rfl := world_of_some h
      exact World.SamePids.refl _
  | midWrite _ | netReadyWrite | netDoneWrite _ | markIdentity _ | cgroupLeave | markDir
  | markUuid _ =>
    obtain rfl := world_of_some h
    exact World.samePids_setProc Iff.rfl rfl
  | _ =>
    simp only [effect] at h
    repeat' split at h
    all_goals
      obtain rfl := world_of_some h
      exact World.samePids_of_eq rfl rfl

theorem effect_listed {a : Action N} {r : a.Res} (hok : w.Listed)
    (h : effect w p a choice = some (w', r)) : w'.Listed := by
  cases a with
  | fork e =>
    obtain ⟨v, hv, heq⟩ := Option.map_eq_some_iff.1 h
    obtain ⟨rfl, -⟩ := Prod.mk.inj heq
    obtain ⟨-, -, -, rfl⟩ := World.born_eq_some hv
    exact hok.of_eq rfl rfl
  | writePid n q =>
    obtain rfl := world_of_some h
    exact hok.addName n _
  | mkdirMnt n =>
    simp only [effect] at h
    split at h
    · obtain rfl := world_of_some h
      exact hok
    · obtain rfl := world_of_some h
      exact hok.addName n _
  | exit _ | midWrite _ | netReadyWrite | netDoneWrite _ | markIdentity _ | cgroupLeave | markDir
  | markUuid _ =>
    obtain rfl := world_of_some h
    exact hok.of_eq rfl rfl
  | waitInit _ | syncWrite _ | cgroupKill _ | cgroupEnter _ =>
    simp only [effect] at h
    split at h
    all_goals
      first
        | cases h; done
        | obtain rfl := world_of_some h
          exact hok.of_eq rfl rfl
  | _ =>
    simp only [effect] at h
    repeat' split at h
    all_goals
      obtain rfl := world_of_some h
      first
        | exact hok
        | exact hok.setFiles _ (by simp) (by simp)

theorem effect_ok {a : Action N} {r : a.Res} (hok : w.Ok) (hrun : w.running p = true)
    (h : effect w p a choice = some (w', r)) : w'.Ok := by
  by_cases ha : ∃ e, a = .fork e
  · obtain ⟨e, rfl⟩ := ha
    obtain ⟨v, hv, heq⟩ := Option.map_eq_some_iff.1 h
    obtain ⟨rfl, -⟩ := Prod.mk.inj heq
    have hsame : w.SamePids (w.setProc p e.afterFork) :=
      World.samePids_setProc (by unfold Entry.afterFork; split <;> exact Iff.rfl)
        (by unfold Entry.afterFork; split <;> rfl)
    refine (hok.of_samePids hsame (hok.listed.of_eq rfl rfl)).born hv (Or.inr fun hu => ?_)
    exact World.ne_unborn_of_running hrun ((hsame.unborn p).1 hu)
  · exact hok.of_samePids (effect_samePids hrun (fun e he => ha ⟨e, he⟩) h)
      (effect_listed hok.listed h)

theorem exec_ok {op : Op N} {r : op.Res} (hok : w.Ok) (hrun : w.running p = true)
    (h : exec w p op choice = some (w', r)) : w'.Ok := by
  cases op with
  | query q =>
    obtain ⟨rfl, -⟩ := exec_query h
    exact hok
  | action a => exact effect_ok hok hrun h
  | mark m =>
    obtain rfl := world_of_some h
    exact hok

/-- What a process shows in its container root. -/
structure Proc.SameRoot (a b : Proc N) : Prop where
  marked : b.marked = a.marked
  uuids : b.uuids = a.uuids

omit [DecidableEq N] in
theorem Proc.die_sameRoot (a : Proc N) (how : Exit) : a.SameRoot (a.die how) := by
  unfold Proc.die
  split <;> exact ⟨rfl, rfl⟩

omit [DecidableEq N] in
theorem World.sameRoot_setProc {q r : Pid} {f : Proc N → Proc N}
    (hf : q ≠ r ∨ ∀ x : Proc N, x.SameRoot (f x)) :
    (w.procs q).SameRoot ((w.setProc r f).procs q) := by
  by_cases hqr : q = r
  · subst hqr
    simpa using (hf.resolve_left fun h => h rfl) (w.procs q)
  · rw [World.setProc_of_ne hqr]
    exact ⟨rfl, rfl⟩

/-- A container root is written by its own process only. -/
theorem effect_sameRoot {a : Action N} {r : a.Res} {q : Pid} (hq : q ≠ p)
    (hborn : (w.procs q).life ≠ .unborn) (h : effect w p a choice = some (w', r)) :
    (w.procs q).SameRoot (w'.procs q) := by
  cases a with
  | fork e =>
    obtain ⟨v, hv, heq⟩ := Option.map_eq_some_iff.1 h
    obtain ⟨rfl, -⟩ := Prod.mk.inj heq
    obtain ⟨hc, -, -, rfl⟩ := World.born_eq_some hv
    have hqc : q ≠ choice := by
      rintro rfl
      rw [World.setProc_of_ne hq] at hc
      exact hborn hc
    simp only [Function.update_of_ne hqc, World.setProc_of_ne hq]
    exact ⟨rfl, rfl⟩
  | exit how =>
    obtain rfl := world_of_some h
    exact World.sameRoot_setProc (Or.inl hq)
  | waitInit c =>
    simp only [effect, Option.ite_none_right_eq_some] at h
    obtain rfl := world_of_some h.2
    exact World.sameRoot_setProc (Or.inr fun _ => ⟨rfl, rfl⟩)
  | syncWrite c =>
    simp only [effect] at h
    split at h
    · obtain rfl := world_of_some h
      rw [World.setProc_of_ne hq]
      exact World.sameRoot_setProc (Or.inr fun _ => ⟨rfl, rfl⟩)
    · obtain rfl := world_of_some h
      exact ⟨rfl, rfl⟩
  | cgroupKill n =>
    simp only [effect] at h
    split at h
    · obtain rfl := world_of_some h
      simp only [World.killCgroup]
      split
      · exact Proc.die_sameRoot _ _
      · exact ⟨rfl, rfl⟩
    · obtain rfl := world_of_some h
      exact ⟨rfl, rfl⟩
  | cgroupEnter n =>
    simp only [effect] at h
    split at h
    · obtain rfl := world_of_some h
      exact World.sameRoot_setProc (Or.inl hq)
    · obtain rfl := world_of_some h
      exact ⟨rfl, rfl⟩
  | netReadyWrite | markIdentity _ | cgroupLeave | markDir | markUuid _ =>
    obtain rfl := world_of_some h
    exact World.sameRoot_setProc (Or.inl hq)
  | midWrite _ | netDoneWrite _ =>
    obtain rfl := world_of_some h
    exact World.sameRoot_setProc (Or.inr fun _ => ⟨rfl, rfl⟩)
  | _ =>
    simp only [effect] at h
    repeat' split at h
    all_goals
      obtain rfl := world_of_some h
      exact ⟨rfl, rfl⟩

theorem exec_sameRoot {op : Op N} {r : op.Res} {q : Pid} (hq : q ≠ p)
    (hborn : (w.procs q).life ≠ .unborn) (h : exec w p op choice = some (w', r)) :
    (w.procs q).SameRoot (w'.procs q) := by
  cases op with
  | query q =>
    obtain ⟨rfl, -⟩ := exec_query h
    exact ⟨rfl, rfl⟩
  | action a => exact effect_sameRoot hq hborn h
  | mark m =>
    obtain rfl := world_of_some h
    exact ⟨rfl, rfl⟩

/-- A forked process starts afresh, under a pid that nobody used. -/
theorem exec_fork {e : Entry N} {r : Pid}
    (h : exec w p (.action (.fork e)) choice = some (w', r)) :
    (w.procs r).life = .unborn ∧ w'.procs r = e.newborn w p := by
  obtain ⟨v, hv, heq⟩ := Option.map_eq_some_iff.1 h
  obtain ⟨rfl, rfl⟩ := Prod.mk.inj heq
  obtain ⟨hc, -, -, rfl⟩ := World.born_eq_some hv
  refine ⟨?_, by simp⟩
  by_cases hcp : choice = p
  · subst hcp
    rw [World.setProc_self] at hc
    rw [← hc]
    unfold Entry.afterFork
    split <;> rfl
  · rwa [World.setProc_of_ne hcp] at hc

/-- What the newcomer of an operation is. -/
theorem exec_child {op : Op N} {r : op.Res} {q : Pid} {e : Entry N}
    (h : exec w p op choice = some (w', r)) (hch : startedBy op r = some (q, e)) :
    (w.procs q).life = .unborn ∧ w'.procs q = e.newborn w p := by
  unfold startedBy at hch
  split at hch
  · obtain ⟨rfl, rfl⟩ := Prod.mk.inj (Option.some.inj hch)
    exact exec_fork h
  · cases hch

/-! ## The environment -/

omit [DecidableEq N] in
theorem hostEnv_later {e : HostEvent N} {ch : Option (Pid × Entry N)}
    (h : hostEnv w e = some (w', ch)) : w.Later w' := by
  cases e with
  | spawn q e =>
    simp only [hostEnv, Option.ite_none_right_eq_some, Option.map_eq_some_iff] at h
    obtain ⟨-, v, hv, heq⟩ := h
    obtain ⟨rfl, -⟩ := Prod.mk.inj heq
    exact World.later_born hv
  | die q how =>
    simp only [hostEnv, Option.ite_none_right_eq_some, Option.some.injEq, Prod.mk.injEq] at h
    obtain ⟨hrun, rfl, -⟩ := h
    exact World.later_setProc fun _ => Proc.die_later (World.running_iff.1 hrun) how

omit [DecidableEq N] in
theorem hostEnv_ok {e : HostEvent N} {ch : Option (Pid × Entry N)} (hok : w.Ok)
    (h : hostEnv w e = some (w', ch)) : w'.Ok := by
  cases e with
  | spawn q e =>
    simp only [hostEnv, Option.ite_none_right_eq_some, Option.map_eq_some_iff] at h
    obtain ⟨-, v, hv, heq⟩ := h
    obtain ⟨rfl, -⟩ := Prod.mk.inj heq
    exact hok.born hv (Or.inl rfl)
  | die q how =>
    simp only [hostEnv, Option.ite_none_right_eq_some, Option.some.injEq, Prod.mk.injEq] at h
    obtain ⟨hrun, rfl, -⟩ := h
    exact hok.of_samePids (World.samePids_kill hrun how) (hok.listed.of_eq rfl rfl)

omit [DecidableEq N] in
theorem hostEnv_sameRoot {e : HostEvent N} {ch : Option (Pid × Entry N)} {q : Pid}
    (hborn : (w.procs q).life ≠ .unborn) (h : hostEnv w e = some (w', ch)) :
    (w.procs q).SameRoot (w'.procs q) := by
  cases e with
  | spawn c e =>
    simp only [hostEnv, Option.ite_none_right_eq_some, Option.map_eq_some_iff] at h
    obtain ⟨-, v, hv, heq⟩ := h
    obtain ⟨rfl, -⟩ := Prod.mk.inj heq
    obtain ⟨hc, -, -, rfl⟩ := World.born_eq_some hv
    have hqc : q ≠ c := fun heq => hborn (heq ▸ hc)
    simp only [Function.update_of_ne hqc]
    exact ⟨rfl, rfl⟩
  | die c how =>
    simp only [hostEnv, Option.ite_none_right_eq_some, Option.some.injEq, Prod.mk.injEq] at h
    obtain ⟨-, rfl, -⟩ := h
    exact World.sameRoot_setProc (Or.inr fun x => Proc.die_sameRoot x how)

omit [DecidableEq N] in
/-- What the newcomer of an environment event is. -/
theorem hostEnv_child {e : HostEvent N} {q : Pid} {e' : Entry N}
    (h : hostEnv w e = some (w', some (q, e'))) :
    (w.procs q).life = .unborn ∧ w'.procs q = Proc.newborn e' 0 none none ∧
      e'.isCommand = true := by
  cases e with
  | spawn c e =>
    simp only [hostEnv, Option.ite_none_right_eq_some, Option.map_eq_some_iff] at h
    obtain ⟨hcmd, v, hv, heq⟩ := h
    obtain ⟨rfl, hce⟩ := Prod.mk.inj heq
    obtain ⟨rfl, rfl⟩ := Prod.mk.inj (Option.some.inj hce)
    obtain ⟨hc, -, -, rfl⟩ := World.born_eq_some hv
    exact ⟨hc, by simp, hcmd⟩
  | die c how => simp [hostEnv] at h

/-- A process becomes runnable only by being forked or spawned. -/
theorem lifecycle_spawns : (lifecycle (N := N)).Spawns where
  exec := by
    intro w p op choice w' r q hp h hq
    have hlater := exec_later hp h
    by_cases hborn : (w.procs q).life = .unborn
    · right
      cases op with
      | query q' =>
        obtain ⟨rfl, -⟩ := exec_query h
        exact absurd hborn (World.ne_unborn_of_running hq)
      | mark m =>
        obtain rfl := world_of_some h
        exact absurd hborn (World.ne_unborn_of_running hq)
      | action a =>
        by_cases ha : ∃ e, a = .fork e
        · obtain ⟨e, rfl⟩ := ha
          obtain ⟨v, hv, heq⟩ := Option.map_eq_some_iff.1 h
          obtain ⟨rfl, rfl⟩ := Prod.mk.inj heq
          obtain ⟨-, -, -, rfl⟩ := World.born_eq_some hv
          refine ⟨e, ?_⟩
          by_contra hne
          have hqc : q ≠ choice := fun heq => hne (by rw [heq]; rfl)
          have hafter : (e.afterFork (w.procs p)).life = (w.procs p).life := by
            unfold Entry.afterFork
            split <;> rfl
          have := World.ne_unborn_of_running hq
          simp only [Function.update_of_ne hqc] at this
          by_cases hqp : q = p
          · subst hqp
            exact World.ne_unborn_of_running hp hborn
          · rw [World.setProc_of_ne hqp] at this
            exact this hborn
        · have hsame := effect_samePids hp (fun e he => ha ⟨e, he⟩) h
          exact absurd ((hsame.unborn q).2 hborn) (World.ne_unborn_of_running hq)
    · exact Or.inl (hlater.running hborn hq)
  env := by
    intro w e w' ch q h hq
    by_cases hborn : (w.procs q).life = .unborn
    · right
      cases e with
      | spawn c e =>
        simp only [lifecycle, hostEnv, Option.ite_none_right_eq_some,
          Option.map_eq_some_iff] at h
        obtain ⟨-, v, hv, heq⟩ := h
        obtain ⟨rfl, rfl⟩ := Prod.mk.inj heq
        obtain ⟨-, -, -, rfl⟩ := World.born_eq_some hv
        refine ⟨e, ?_⟩
        by_contra hne
        have hqc : q ≠ c := fun heq => hne (by rw [heq])
        have := World.ne_unborn_of_running hq
        simp only [Function.update_of_ne hqc] at this
        exact this hborn
      | die c how =>
        simp only [lifecycle, hostEnv, Option.ite_none_right_eq_some, Option.some.injEq,
          Prod.mk.injEq] at h
        obtain ⟨hrun, rfl, -⟩ := h
        have hsame := World.samePids_kill hrun how
        exact absurd ((hsame.unborn q).2 hborn) (World.ne_unborn_of_running hq)
    · exact Or.inl ((hostEnv_later h).running hborn hq)

/-! ## The machine with a history -/

section History

variable {γ : Type} {note : γ → World N → Pid → (op : Op N) → op.Res → World N → γ}
  {noteEnv : γ → World N → HostEvent N → World N → γ} {s t : World N × γ}

theorem exec_of_history {op : Op N} {r : op.Res}
    (h : ((lifecycle (N := N)).withGhost note noteEnv).exec s p op choice = some (t, r)) :
    exec s.1 p op choice = some (t.1, r) ∧ t.2 = note s.2 s.1 p op r t.1 :=
  Machine.withGhost_exec h

theorem hostEnv_of_history {e : HostEvent N} {ch : Option (Pid × Entry N)}
    (h : ((lifecycle (N := N)).withGhost note noteEnv).env s e = some (t, ch)) :
    hostEnv s.1 e = some (t.1, ch) ∧ t.2 = noteEnv s.2 s.1 e t.1 :=
  Machine.withGhost_env h

/-- The process table of a host stays well formed. -/
theorem ok_of_run {s t : Machine.State Pid (World N × γ) (Op N) (Entry N) Op.Res}
    {es : List (Machine.Event Pid (HostEvent N))} (hok : s.world.1.Ok)
    (hrun : (lifecycle.withGhost note noteEnv).toSystem.run s es = some t) : t.world.1.Ok := by
  refine System.invariant_of_guarded (I := fun s => s.world.1.Ok) (C := fun _ _ => True) _ ?_ hok
    (System.guarded_of_forall _ (fun _ _ => trivial) s es) hrun
  intro s e t hok _ hstep
  cases e with
  | step p choice =>
    simp only [Machine.toSystem, Option.ite_none_right_eq_some] at hstep
    obtain ⟨hp, hstep⟩ := hstep
    cases hprog : s.prog p with
    | ret e =>
      simp only [hprog, Option.some.injEq] at hstep
      rw [← hstep]
      exact hok
    | call op k =>
      simp only [hprog, Option.map_eq_some_iff] at hstep
      obtain ⟨⟨w, r⟩, hexec, rfl⟩ := hstep
      exact exec_ok hok hp (exec_of_history hexec).1
  | env e =>
    simp only [Machine.toSystem, Option.map_eq_some_iff] at hstep
    obtain ⟨⟨w, ch⟩, henv, rfl⟩ := hstep
    exact hostEnv_ok hok (hostEnv_of_history henv).1

end History

end Droidspaces
