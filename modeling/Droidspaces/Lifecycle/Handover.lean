import Droidspaces.Lifecycle.NewerInstance

/-!
# The hand-over of a clean-up

When a container exits, two parties may clean up after it.  The monitor looks at the external lock:
if a command holds it, the monitor leaves the clean-up to that command, else it reboots the
container or cleans up itself.  A stop takes the lock and looks at the pid: if the container runs,
the stop waits for its end and cleans up, else it returns the lock.  Each decides by one look of its
own.

The history (`HandoverHistory`) follows one container: its intermediate process and init, whether
they are set up completely, which stops have found it running, what each of them is still going to
take away, and whether a clean-up has been completed since the exit.  The guard `handsOver` asks
that the two looks agree.  The invariant `HandoverInv` says that after the exit everything that is
left is covered: some stop that has found the container running will take it away, unless the
monitor still has to see to it.

This module has the steps: what each kind of operation does to the invariant, and what it leaves to
the others (`HandoverRely`).  `Lifecycle/CleanupContract.lean` proves the clean-up itself,
`Lifecycle/ExitCleanup.lean` the programs and the theorem.
-/

namespace Droidspaces

open Transition

variable {N : Type}

/-! ## What operations leave alone -/

section Table

variable [DecidableEq N] {w w' : World N} {p : Pid} {choice : ℕ}

/-- Operations that start and end no process and move none to another cgroup. -/
def Op.isStill : Op N → Bool
  | .action (.fork _) | .action (.exit _) | .action (.cgroupKill _) => false
  | .action (.cgroupEnter _) | .action .cgroupLeave => false
  | _ => true

/-- The same processes run, in the same cgroups. -/
structure World.SameTable (w w' : World N) : Prop where
  running : ∀ q, w'.running q = w.running q
  cgroup : ∀ q, (w'.procs q).cgroup = (w.procs q).cgroup

omit [DecidableEq N] in
theorem World.SameTable.refl (w : World N) : w.SameTable w :=
  ⟨fun _ => rfl, fun _ => rfl⟩

omit [DecidableEq N] in
theorem World.SameTable.trans {u v w : World N} (huv : u.SameTable v) (hvw : v.SameTable w) :
    u.SameTable w :=
  ⟨fun q => (hvw.running q).trans (huv.running q), fun q => (hvw.cgroup q).trans (huv.cgroup q)⟩

omit [DecidableEq N] in
theorem World.sameTable_setProc {c : Pid} {f : Proc N → Proc N}
    (hlife : (f (w.procs c)).life = .running ↔ (w.procs c).life = .running)
    (hcgroup : (f (w.procs c)).cgroup = (w.procs c).cgroup) : w.SameTable (w.setProc c f) := by
  refine ⟨fun q => ?_, fun q => ?_⟩ <;> by_cases hq : q = c
  · subst hq
    rw [Bool.eq_iff_iff, World.running_iff, World.running_iff, World.setProc_self]
    exact hlife
  · simp [World.running, World.setProc_of_ne hq]
  · subst hq
    rw [World.setProc_self]
    exact hcgroup
  · rw [World.setProc_of_ne hq]

theorem effect_sameTable {a : Action N} {r : a.Res} (ha : (Op.action a).isStill = true)
    (h : effect w p a choice = some (w', r)) : w.SameTable w' := by
  cases a with
  | fork e | exit how | cgroupKill n | cgroupEnter n | cgroupLeave => cases ha
  | waitInit c =>
    simp only [effect, Option.ite_none_right_eq_some] at h
    obtain rfl := world_of_some h.2
    refine World.sameTable_setProc (iff_of_false (by simp) fun hrun => ?_) rfl
    rcases h.1 with hz | hg
    · rw [hrun] at hz
      cases hz
    · rw [hrun] at hg
      cases hg
  | syncWrite c =>
    simp only [effect] at h
    split at h
    · obtain rfl := world_of_some h
      exact (World.sameTable_setProc Iff.rfl rfl).trans (World.sameTable_setProc Iff.rfl rfl)
    · obtain rfl := world_of_some h
      exact World.SameTable.refl _
  | midWrite _ | netReadyWrite | netDoneWrite _ | markIdentity _ | markDir | markUuid _ =>
    obtain rfl := world_of_some h
    exact World.sameTable_setProc Iff.rfl rfl
  | _ =>
    simp only [effect] at h
    repeat' split at h
    all_goals
      obtain rfl := world_of_some h
      exact ⟨fun _ => rfl, fun _ => rfl⟩

theorem exec_sameTable {op : Op N} {r : op.Res} (hop : op.isStill = true)
    (h : exec w p op choice = some (w', r)) : w.SameTable w' := by
  cases op with
  | query q =>
    obtain ⟨rfl, -⟩ := exec_query h
    exact World.SameTable.refl _
  | action a => exact effect_sameTable hop h
  | mark m =>
    obtain rfl := world_of_some h
    exact World.SameTable.refl _

/-- A slot that is not written keeps what it holds. -/
theorem exec_has {op : Op N} {r : op.Res} {n : N} {slot : Slot} (hop : op.slot ≠ some (n, slot))
    (h : exec w p op choice = some (w', r)) : w'.has n slot = w.has n slot := by
  have hfiles := exec_files h n
  have hwrites : op.writes n ≠ some slot := fun heq => hop (Op.writes_eq_some.1 heq)
  cases slot with
  | pid => rw [World.has, World.has, hfiles.pid hwrites]
  | mount => rw [World.has, World.has, hfiles.mount hwrites]
  | init => rw [World.has, World.has, hfiles.init hwrites]
  | lock => rw [World.has, World.has, hfiles.lock hwrites]
  | dir => rw [World.has, World.has, hfiles.dir hwrites]
  | mnt => rw [World.has, World.has, hfiles.mnt hwrites]
  | rules => rw [World.has, World.has, hfiles.rules hwrites]
  | cgroup => rw [World.has, World.has, hfiles.cgroup hwrites]

theorem exec_mnt {op : Op N} {r : op.Res} {n : N} (hop : op.slot ≠ some (n, .mnt))
    (h : exec w p op choice = some (w', r)) : (w'.files n).mnt = (w.files n).mnt :=
  (exec_files h n).mnt fun heq => hop (Op.writes_eq_some.1 heq)

/-- A fork changes nothing for those who are there. -/
theorem fork_sameTable {e : Entry N} {c q : Pid}
    (h : exec w p (.action (.fork e)) choice = some (w', c)) (hq : q ≠ c) :
    w'.running q = w.running q ∧ (w'.procs q).cgroup = (w.procs q).cgroup := by
  obtain ⟨v, hv, heq⟩ := Option.map_eq_some_iff.1 h
  obtain ⟨rfl, rfl⟩ := Prod.mk.inj heq
  obtain ⟨-, -, -, rfl⟩ := World.born_eq_some hv
  have hafter : w.SameTable (w.setProc p e.afterFork) := by
    refine World.sameTable_setProc ?_ ?_ <;>
    · unfold Entry.afterFork
      split <;> rfl
  refine ⟨(?_ : _ = _).trans (hafter.running q), (?_ : _ = _).trans (hafter.cgroup q)⟩
  · simp [World.running, Function.update_of_ne hq]
  · simp [Function.update_of_ne hq]

/-- A removal empties its slot: one image is mounted at most, and nothing runs in the cgroup. -/
theorem effect_removes {a : Action N} {r : a.Res} {n : N} {slot : Slot}
    (hslot : a.slot = some (n, slot)) (ha : a.removes = true) (hmnt : (w.files n).mnt ≤ 1)
    (hempty : slot = .cgroup → ∀ q ∈ w.pids, w.running q = true → (w.procs q).cgroup ≠ some n)
    (h : effect w p a choice = some (w', r)) : w'.has n slot = false := by
  cases a with
  | unlinkPid n' | unlinkMount n' | unlinkInit n' | netCleanup n' =>
    obtain ⟨rfl, rfl⟩ := Prod.mk.inj (Option.some.inj hslot)
    obtain rfl := world_of_some h
    simp [World.has]
  | umount n' =>
    obtain ⟨rfl, rfl⟩ := Prod.mk.inj (Option.some.inj hslot)
    obtain rfl := world_of_some h
    simp only [World.has, World.setFiles_self, decide_eq_false_iff_not]
    omega
  | cgroupRmdir n' =>
    obtain ⟨rfl, rfl⟩ := Prod.mk.inj (Option.some.inj hslot)
    have hnone : (w.pids.any fun q => w.running q && (w.procs q).cgroup == some n') = false := by
      rw [List.any_eq_false]
      intro q hq
      simp only [Bool.and_eq_true, beq_iff_eq, not_and]
      exact hempty rfl q hq
    simp only [effect, hnone, Bool.false_eq_true, if_false] at h
    obtain rfl := world_of_some h
    simp [World.has]
  | _ => cases ha

end Table

/-! ## History -/

section History

variable [DecidableEq N]

structure HandoverHistory where
  /-- The intermediate process and the init of the latest boot cycle. -/
  mid : Pid
  init : Pid
  /-- The intermediate process has reported its init. -/
  reported : Bool
  /-- The monitor has nothing more to set up for this cycle. -/
  settled : Bool
  /-- A stop has found the container running and is not through with its clean-up. -/
  found : Pid → Bool
  /-- What it is still going to take away. -/
  todo : Pid → Slot → Bool
  /-- The latest clean-up of the process began after the exit. -/
  late : Pid → Bool
  /-- Such a clean-up has been completed since. -/
  cleaned : Bool

def Role.isCommand : Role N → Bool
  | .command _ => true
  | _ => false

/-- The container has exited: its init is dead, and nothing is left to be written for it. -/
def hasExited (s : World N × HandoverHistory) : Bool :=
  s.2.reported && s.2.settled && !s.1.running s.2.init

namespace HandoverHistory

/-- The monitor of a container that is up waits for the end of this cycle. -/
def up (mid init : Pid) : HandoverHistory where
  mid := mid
  init := init
  reported := true
  settled := true
  found := fun _ => false
  todo := fun _ _ => false
  late := fun _ => false
  cleaned := false

def setTodo (g : HandoverHistory) (p : Pid) (slot : Slot) (b : Bool) : HandoverHistory :=
  { g with todo := Function.update g.todo p (Function.update (g.todo p) slot b) }

/-- `p` has found the container running; whether it knows an image is settled a little later. -/
def find (g : HandoverHistory) (p : Pid) : HandoverHistory :=
  { g with
    found := Function.update g.found p true
    todo := Function.update g.todo p fun slot => slot != .mnt }

/-- `p` is through with its clean-up. -/
def finish (g : HandoverHistory) (p : Pid) : HandoverHistory :=
  { g with found := Function.update g.found p false, cleaned := g.cleaned || g.late p }

/-- A stop has found the container running when its look at an init confirms it. -/
def note (n : N) (g : HandoverHistory) (w : World N) (p : Pid) (op : Op N) (r : op.Res)
    (_ : World N) : HandoverHistory :=
  match op, r with
  | .query (.validPid _), ok =>
    if ok && (w.procs p).role.isCommand && !g.found p then g.find p else g
  | .query (.midRead _), init => if init.isNone then { g with settled := true } else g
  | .mark (.stopping _ _ img _), _ => g.setTodo p .mnt img
  | .mark (.cleanup x skip), _ =>
    { g with late := Function.update g.late p (decide (x = n) && !skip && hasExited (w, g)) }
  | .mark (.cleaned _), _ => g.finish p
  | .mark (.reported _), _ => { g with reported := true }
  | .action (.fork (.intermediate cfg _)), c =>
    { g with mid := c, reported := false, settled := cfg.net == .host, cleaned := false }
  | .action (.fork (.init _)), c => { g with init := c }
  | .action (.netDoneWrite _), _ => { g with settled := true }
  | .action a, _ =>
    match a.slot with
    | some (x, slot) => if x = n ∧ a.removes = true then g.setTodo p slot false else g
    | none => g
  | _, _ => g

end HandoverHistory

/-- The lifecycle machine with the history of the container `n`. -/
def handoverMachine (n : N) :
    Machine Pid (World N × HandoverHistory) (Op N) (Entry N) (HostEvent N) Op.Res :=
  lifecycle.withGhost (HandoverHistory.note n) fun g _ _ _ => g

/-! ## The property -/

/-- What a clean-up takes away. -/
def Slot.isTaken : Slot → Bool
  | .lock | .dir => false
  | _ => true

/-- Besides the container that is up there are stops for it, with the network mode that it was
booted with; nobody kills anything but its inits. -/
def isStopOrExit (cfg : Config N) (s : World N × HandoverHistory) : HostEvent N → Bool
  | .spawn _ (.stop c) => decide (c.name = cfg.name) && c.net == cfg.net
  | .spawn _ _ => false
  | .die p _ => match (s.1.procs p).role with
    | .init _ => true
    | _ => false

/-- A stop that has found the container running is on its way. -/
def anyFound (s : World N × HandoverHistory) : Bool :=
  s.1.pids.any fun q => s.1.running q && s.2.found q

/-- What `is_external_lock_active` makes of a query, if it is the last one. -/
def Query.lockHeld (w : World N) : Query N → Option Bool
  | .lockLook n => if (w.files n).lock.isSome then none else some false
  | .lockRead n =>
    match (w.files n).lock.map (readFile 64) with
    | some (_ :: _) => none
    | _ => some false
  | .lockProbe buf => some (lockHolderIfAlive w.boot w.present buf).isSome
  | _ => none

/-- The guard. -/
def handsOver (cfg : Config N) (m : Pid) (s : World N × HandoverHistory) (p : Pid) :
    Op N → Bool
  -- the monitor finds the lock held exactly while a stop is on its way that will clean up
  | .query q => decide (p ≠ m) || match q.lockHeld s.1 with
    | some true => s.2.cleaned || anyFound s
    | some false => !anyFound s
    | none => true
  -- a stop begins its clean-up after the exit
  | .mark (.cleanup _ _) => decide (p = m) || hasExited s
  -- the file says the same as at the boot
  | .action (.fork (.intermediate c _)) => c.net == cfg.net
  | .action (.cgroupKill n) => s.1.cgroupKill ||
    s.1.pids.all fun q => !(s.1.running q && (s.1.procs q).cgroup == some n)
  | _ => true

end History

/-! ## The invariant -/

theorem hasExited_iff {s : World N × HandoverHistory} : hasExited s = true ↔
    s.2.reported = true ∧ s.2.settled = true ∧ s.1.running s.2.init = false := by
  simp [hasExited, and_assoc]

def AnyFound (s : World N × HandoverHistory) : Prop :=
  ∃ q, s.1.running q = true ∧ s.2.found q = true

theorem anyFound_iff {s : World N × HandoverHistory} (hok : s.1.Ok) :
    anyFound s = true ↔ AnyFound s := by
  simp only [anyFound, List.any_eq_true, Bool.and_eq_true]
  exact ⟨fun ⟨q, _, hq⟩ => ⟨q, hq⟩, fun ⟨q, hq⟩ =>
    ⟨q, (hok.pids q (World.ne_unborn_of_running hq.1)).1, hq⟩⟩

/-- What is in the slot will be taken away by a stop that is on its way; an image without a stop
that knows it still has its sidecar. -/
def Covered (n : N) (s : World N × HandoverHistory) (slot : Slot) : Prop :=
  (∃ q, s.1.running q = true ∧ s.2.found q = true ∧ s.2.todo q slot = true) ∨
    slot = .mnt ∧ s.1.has n .mount = true

/-- Who the processes are. -/
structure TableInv (m : Pid) (s : World N × HandoverHistory) : Prop where
  ok : s.1.Ok
  unborn : ∀ q, (s.1.procs q).life = .unborn → s.2.found q = false
  command : ∀ q, s.2.found q = true → (s.1.procs q).role.isCommand = true
  outside : ∀ q, s.1.running q = true → (s.1.procs q).role.isCommand = true →
    (s.1.procs q).cgroup = none
  inits : ∀ q n, s.1.running q = true → (s.1.procs q).role = .init n → q = s.2.init
  init : (s.1.procs s.2.init).life ≠ .unborn ∧ ∃ n, (s.1.procs s.2.init).role = .init n
  mid : (s.1.procs s.2.mid).life ≠ .unborn ∧ ∃ n, (s.1.procs s.2.mid).role = .intermediate n
  monitor : (s.1.procs m).life ≠ .unborn ∧ ∃ n, (s.1.procs m).role = .monitor n

structure HandoverInv (cfg : Config N) (m : Pid) (s : World N × HandoverHistory) : Prop where
  table : TableInv m s
  waits : s.1.running s.2.mid = false → s.2.reported = true ∧ s.1.running s.2.init = false
  attended : hasExited s = false → s.1.running m = true
  few : (s.1.files cfg.name).mnt ≤ 1
  image : s.1.has cfg.name .mnt = true → cfg.img = true
  rules : s.1.has cfg.name .rules = true → cfg.net = .nat ∨ cfg.net = .gateway
  fresh : hasExited s = false → s.2.cleaned = false ∧ s.2.late m = false ∧
    ∀ q slot, s.1.running q = true → s.2.found q = true → slot ≠ .mnt → s.2.todo q slot = true
  sidecar : s.2.late m = false → (hasExited s = false ∨ s.2.cleaned = false ∧ ¬ AnyFound s) →
    s.1.has cfg.name .mnt = true → s.1.has cfg.name .mount = true
  kept : hasExited s = true → s.1.running m = false ∨ s.2.cleaned = true ∨ AnyFound s →
    ∀ slot, slot.isTaken = true → s.1.has cfg.name slot = true → Covered cfg.name s slot
  duty : hasExited s = true → s.2.cleaned = false → s.1.running m = true ∨ AnyFound s

/-- Slots that nothing fills again. -/
def Slot.lasts : Slot → Bool
  | .mount | .init | .mnt | .cgroup => true
  | _ => false

/-- What `q` relies on. -/
structure HandoverRely (cfg : Config N) (m q : Pid) (s t : World N × HandoverHistory) : Prop where
  later : s.1.Later t.1
  found : t.2.found q = s.2.found q
  todo : t.2.todo q = s.2.todo q
  late : t.2.late q = s.2.late q
  lasting : ∀ slot, slot.lasts = true → t.1.has cfg.name slot = true → s.1.has cfg.name slot = true
  empty : (∀ x, s.1.running x = true → (s.1.procs x).cgroup ≠ some cfg.name) →
    ∀ x, t.1.running x = true → (t.1.procs x).cgroup ≠ some cfg.name
  ended : q = m ∨ s.2.found q = true → hasExited s = true → hasExited t = true
  alone : q = m → hasExited s = true → ¬ AnyFound s → ¬ AnyFound t ∧
    ∀ slot, slot.isTaken = true → t.1.has cfg.name slot = true → s.1.has cfg.name slot = true
  heir : q = m → hasExited s = true → s.2.cleaned = true ∨ AnyFound s →
    t.2.cleaned = true ∨ AnyFound t
  monitor : q = m → t.2.settled = s.2.settled ∧ t.2.mid = s.2.mid
  mid : q = s.2.mid → t.2.mid = s.2.mid ∧ t.2.init = s.2.init ∧ t.2.reported = s.2.reported
  init : q = s.2.init → t.2.init = s.2.init
  outside : (s.1.procs q).cgroup = none → (t.1.procs q).cgroup = none

/-- An operation of `p` that starts nothing and begins no boot cycle. -/
structure Steady (cfg : Config N) (m p : Pid) (s t : World N × HandoverHistory) : Prop where
  ok : t.1.Ok
  later : s.1.Later t.1
  running : ∀ q, t.1.running q = true → s.1.running q = true
  cgroup : ∀ q, (t.1.procs q).cgroup = none ∨ (t.1.procs q).cgroup = (s.1.procs q).cgroup
  mid : t.2.mid = s.2.mid
  init : t.2.init = s.2.init
  reported : s.2.reported = true → t.2.reported = true
  settled : s.2.settled = true → t.2.settled = true
  reports : p ≠ s.2.mid → t.2.reported = s.2.reported
  settles : p ≠ m → t.2.settled = s.2.settled
  own : ∀ q, q ≠ p → t.2.found q = s.2.found q ∧ t.2.todo q = s.2.todo q ∧ t.2.late q = s.2.late q
  lasting : ∀ slot, slot.lasts = true → t.1.has cfg.name slot = true → s.1.has cfg.name slot = true

variable {cfg : Config N} {m p : Pid} {s t : World N × HandoverHistory} {choice : ℕ}

theorem Steady.ended (h : Steady cfg m p s t) (hs : hasExited s = true) :
    hasExited t = true := by
  obtain ⟨hreported, hsettled, hinit⟩ := hasExited_iff.1 hs
  refine hasExited_iff.2 ⟨h.reported hreported, h.settled hsettled, ?_⟩
  rw [h.init, Bool.eq_false_iff]
  intro hrun
  rw [h.running _ hrun] at hinit
  cases hinit

theorem Steady.rely (h : Steady cfg m p s t)
    (halone : p ≠ m → hasExited s = true → ¬ AnyFound s → ¬ AnyFound t ∧
      ∀ slot, slot.isTaken = true → t.1.has cfg.name slot = true → s.1.has cfg.name slot = true)
    (hheir : p ≠ m → hasExited s = true → s.2.cleaned = true ∨ AnyFound s →
      t.2.cleaned = true ∨ AnyFound t) {q : Pid} (hq : q ≠ p) : HandoverRely cfg m q s t where
  later := h.later
  found := (h.own q hq).1
  todo := (h.own q hq).2.1
  late := (h.own q hq).2.2
  lasting := h.lasting
  empty hs x hx := by
    rcases h.cgroup x with hnone | hsame
    · rw [hnone]
      simp
    · rw [hsame]
      exact hs x (h.running x hx)
  ended _ hs := h.ended hs
  alone hqm := halone fun hpm => hq (hqm.trans hpm.symm)
  heir hqm := hheir fun hpm => hq (hqm.trans hpm.symm)
  monitor hqm := ⟨h.settles fun hpm => hq (hqm.trans hpm.symm), h.mid⟩
  mid hqmid := ⟨h.mid, h.init, h.reports fun hpmid => hq (hqmid.trans hpmid.symm)⟩
  init _ := h.init
  outside hs := by
    rcases h.cgroup q with hnone | hsame
    · exact hnone
    · rw [hsame, hs]

/-- What leaves the history as it is, is relied on by whoever performs it, too. -/
theorem Steady.rely_self (h : Steady cfg m p s t) (hnote : t.2 = s.2)
    (halone : hasExited s = true → ¬ AnyFound s → ¬ AnyFound t ∧
      ∀ slot, slot.isTaken = true → t.1.has cfg.name slot = true → s.1.has cfg.name slot = true)
    (hheir : hasExited s = true → s.2.cleaned = true ∨ AnyFound s →
      t.2.cleaned = true ∨ AnyFound t) (q : Pid) : HandoverRely cfg m q s t := by
  refine ⟨h.later, by rw [hnote], by rw [hnote], by rw [hnote], h.lasting, fun hs x hx => ?_,
    fun _ hs => h.ended hs, fun _ => halone, fun _ => hheir,
    fun _ => by rw [hnote]; exact ⟨rfl, rfl⟩, fun _ => by rw [hnote]; exact ⟨rfl, rfl, rfl⟩,
    fun _ => by rw [hnote], fun hout => ?_⟩
  · rcases h.cgroup x with hnone | hsame
    · rw [hnone]
      simp
    · rw [hsame]
      exact hs x (h.running x hx)
  · rcases h.cgroup q with hnone | hsame
    · exact hnone
    · rw [hsame, hout]

/-- The table after a step that starts nothing. -/
theorem TableInv.steady (hs : TableInv m s) (h : Steady cfg m p s t) (hp : s.1.running p = true)
    (hfound : t.2.found p = true → s.2.found p = true ∨ (s.1.procs p).role.isCommand = true) :
    TableInv m t where
  ok := h.ok
  unborn q hq := by
    have hunborn : (s.1.procs q).life = .unborn := by
      by_contra hne
      exact (h.later.procs q hne).ne_unborn hne hq
    have hqp : q ≠ p := fun heq => World.ne_unborn_of_running hp (heq ▸ hunborn)
    rw [(h.own q hqp).1]
    exact hs.unborn q hunborn
  command q hq := by
    have hcommand : (s.1.procs q).role.isCommand = true ∧ (s.1.procs q).life ≠ .unborn := by
      by_cases hqp : q = p
      · subst hqp
        exact ⟨(hfound hq).elim (hs.command q) id, World.ne_unborn_of_running hp⟩
      · rw [(h.own q hqp).1] at hq
        refine ⟨hs.command q hq, fun hunborn => ?_⟩
        rw [hs.unborn q hunborn] at hq
        cases hq
    rw [(h.later.procs q hcommand.2).role]
    exact hcommand.1
  outside q hq hcommand := by
    have hrun := h.running q hq
    rw [(h.later.procs q (World.ne_unborn_of_running hrun)).role] at hcommand
    rcases h.cgroup q with hnone | hsame
    · exact hnone
    · rw [hsame]
      exact hs.outside q hrun hcommand
  inits q n hq hrole := by
    have hrun := h.running q hq
    rw [(h.later.procs q (World.ne_unborn_of_running hrun)).role] at hrole
    rw [h.init]
    exact hs.inits q n hrun hrole
  init := by
    rw [h.init]
    have hlater := h.later.procs _ hs.init.1
    exact ⟨hlater.ne_unborn hs.init.1, by rw [hlater.role]; exact hs.init.2⟩
  mid := by
    rw [h.mid]
    have hlater := h.later.procs _ hs.mid.1
    exact ⟨hlater.ne_unborn hs.mid.1, by rw [hlater.role]; exact hs.mid.2⟩
  monitor := by
    have hlater := h.later.procs _ hs.monitor.1
    exact ⟨hlater.ne_unborn hs.monitor.1, by rw [hlater.role]; exact hs.monitor.2⟩

theorem TableInv.monitor_not_found (hs : TableInv m s) : s.2.found m = false := by
  by_contra hfound
  have hcommand := hs.command m (by simpa using hfound)
  obtain ⟨n, hrole⟩ := hs.monitor.2
  rw [hrole] at hcommand
  cases hcommand

/-! ## Steps that leave the files alone -/

/-- `q` may end: it is no stop on its way, the intermediate process has waited for its init, and
the monitor leaves the rest to somebody. -/
structure MayEnd (m : Pid) (s : World N × HandoverHistory) (q : Pid) : Prop where
  found : s.2.found q = false
  mid : q = s.2.mid → s.2.reported = true ∧ s.1.running s.2.init = false
  monitor : q = m → hasExited s = true ∧ (s.2.cleaned = true ∨ AnyFound s)

/-- The files are the same, and so is what the stops are going to do. -/
structure Alike (cfg : Config N) (m p : Pid) (s t : World N × HandoverHistory) : Prop where
  steady : Steady cfg m p s t
  mnt : (t.1.files cfg.name).mnt = (s.1.files cfg.name).mnt
  has : ∀ slot, slot.isTaken = true → t.1.has cfg.name slot = s.1.has cfg.name slot
  found : t.2.found = s.2.found
  todo : t.2.todo = s.2.todo
  cleaned : t.2.cleaned = s.2.cleaned
  late : t.2.late m = s.2.late m ∨ hasExited s = true ∧ t.2.late m = true
  ends : ∀ q, s.1.running q = true → t.1.running q = false → MayEnd m s q

namespace Alike

variable (h : Alike cfg m p s t)

include h

theorem anyFound : AnyFound t ↔ AnyFound s := by
  constructor
  · rintro ⟨q, hrun, hfound⟩
    exact ⟨q, h.steady.running q hrun, h.found ▸ hfound⟩
  · rintro ⟨q, hrun, hfound⟩
    refine ⟨q, ?_, h.found ▸ hfound⟩
    by_contra hdead
    have := (h.ends q hrun (by simpa using hdead)).found
    rw [hfound] at this
    cases this

theorem covered {slot : Slot} (hs : Covered cfg.name s slot) : Covered cfg.name t slot := by
  rcases hs with ⟨q, hrun, hfound, htodo⟩ | ⟨hmnt, hmount⟩
  · refine Or.inl ⟨q, ?_, h.found ▸ hfound, h.todo ▸ htodo⟩
    by_contra hdead
    have := (h.ends q hrun (by simpa using hdead)).found
    rw [hfound] at this
    cases this
  · exact Or.inr ⟨hmnt, by rwa [h.has .mount rfl]⟩

theorem inv (hp : s.1.running p = true) (hs : HandoverInv cfg m s) : HandoverInv cfg m t := by
  have hended : hasExited t = false → hasExited s = false := fun ht => by
    by_contra hne
    rw [h.steady.ended (by simpa using hne)] at ht
    cases ht
  have hmonitor : hasExited s = false → t.1.running m = true := fun hs' => by
    by_contra hdead
    have := ((h.ends m (hs.attended hs') (by simpa using hdead)).monitor rfl).1
    rw [hs'] at this
    cases this
  refine ⟨?_, ?_, ?_, ?_, ?_, ?_, ?_, ?_, ?_, ?_⟩
  · exact hs.table.steady h.steady hp fun hfound => Or.inl (h.found ▸ hfound)
  · intro hmid
    have hs' : s.2.reported = true ∧ s.1.running s.2.init = false := by
      rw [h.steady.mid] at hmid
      by_cases hrun : s.1.running s.2.mid = true
      · exact (h.ends _ hrun hmid).mid rfl
      · exact hs.waits (by simpa using hrun)
    refine ⟨h.steady.reported hs'.1, ?_⟩
    rw [h.steady.init, Bool.eq_false_iff]
    intro hrun
    rw [h.steady.running _ hrun] at hs'
    cases hs'.2
  · exact fun ht => hmonitor (hended ht)
  · rw [h.mnt]
    exact hs.few
  · rw [h.has .mnt rfl]
    exact hs.image
  · rw [h.has .rules rfl]
    exact hs.rules
  · intro ht
    obtain ⟨hcleaned, hlate, htodo⟩ := hs.fresh (hended ht)
    refine ⟨h.cleaned.trans hcleaned, ?_, fun q slot hq hfound hslot => ?_⟩
    · rcases h.late with hsame | ⟨hs', -⟩
      · exact hsame.trans hlate
      · rw [hended ht] at hs'
        cases hs'
    · rw [h.todo]
      exact htodo q slot (h.steady.running q hq) (h.found ▸ hfound) hslot
  · intro hlate hopen
    rw [h.has .mnt rfl, h.has .mount rfl]
    rcases h.late with hsame | ⟨-, hlate'⟩
    · refine hs.sidecar (hsame ▸ hlate) (hopen.imp hended fun hopen => ?_)
      exact ⟨h.cleaned ▸ hopen.1, fun hany => hopen.2 (h.anyFound.2 hany)⟩
    · rw [hlate] at hlate'
      cases hlate'
  · intro ht hwho slot hslot hhas
    rw [h.has slot hslot] at hhas
    cases hs' : hasExited s with
    | true =>
      refine h.covered (hs.kept hs' ?_ slot hslot hhas)
      rcases hwho with hdead | hcleaned | hany
      · by_cases hrun : s.1.running m = true
        · exact Or.inr ((h.ends m hrun hdead).monitor rfl).2
        · exact Or.inl (by simpa using hrun)
      · exact Or.inr (Or.inl (h.cleaned ▸ hcleaned))
      · exact Or.inr (Or.inr (h.anyFound.1 hany))
    | false =>
      -- the exit itself: whoever has found the container running has everything before it
      obtain ⟨hcleaned, hlate, htodo⟩ := hs.fresh hs'
      rcases hwho with hdead | hcleaned' | hany
      · rw [hmonitor hs'] at hdead
        cases hdead
      · rw [h.cleaned, hcleaned] at hcleaned'
        cases hcleaned'
      · refine h.covered ?_
        obtain ⟨q, hrun, hfound⟩ := h.anyFound.1 hany
        by_cases hmnt : slot = .mnt
        · subst hmnt
          exact Or.inr ⟨rfl, hs.sidecar hlate (Or.inl hs') hhas⟩
        · exact Or.inl ⟨q, hrun, hfound, htodo q slot hrun hfound hmnt⟩
  · intro ht hcleaned
    cases hs' : hasExited s with
    | true =>
      rcases hs.duty hs' (h.cleaned ▸ hcleaned) with hrun | hany
      · by_cases hdead : t.1.running m = true
        · exact Or.inl hdead
        · rcases ((h.ends m hrun (by simpa using hdead)).monitor rfl).2 with hdone | hany
          · rw [h.cleaned, hdone] at hcleaned
            cases hcleaned
          · exact Or.inr (h.anyFound.2 hany)
      · exact Or.inr (h.anyFound.2 hany)
    | false => exact Or.inl (hmonitor hs')

theorem rely {q : Pid} (hq : q ≠ p) : HandoverRely cfg m q s t :=
  h.steady.rely
    (fun _ _ hnone => ⟨fun hany => hnone (h.anyFound.1 hany), fun slot hslot hhas => by
      rwa [h.has slot hslot] at hhas⟩)
    (fun _ _ hheir => hheir.imp (fun hcleaned => h.cleaned.trans hcleaned) h.anyFound.2) hq

end Alike

/-! ## The steps of a clean-up -/

/-- A stop finds the container running, which therefore has not exited. -/
theorem find_keeps (hs : HandoverInv cfg m s) (hp : s.1.running p = true)
    (hcommand : (s.1.procs p).role.isCommand = true) (hnot : hasExited s = false) :
    HandoverInv cfg m (s.1, s.2.find p) ∧
      ∀ q, q ≠ p → HandoverRely cfg m q s (s.1, s.2.find p) := by
  have hsteady : Steady cfg m p s (s.1, s.2.find p) :=
    ⟨hs.table.ok, World.Later.refl _, fun _ => id, fun _ => Or.inr rfl, rfl, rfl, id, id,
      fun _ => rfl, fun _ => rfl, fun q hq => by simp [HandoverHistory.find, hq], fun _ _ => id⟩
  have hnever : hasExited (s.1, s.2.find p) ≠ true := fun ht => by
    rw [show hasExited (s.1, s.2.find p) = hasExited s from rfl, hnot] at ht
    cases ht
  refine ⟨⟨?_, hs.waits, fun _ => hs.attended hnot, hs.few, hs.image, hs.rules, fun _ => ?_,
    fun hlate _ => hs.sidecar hlate (Or.inl hnot), fun ht => absurd ht hnever,
    fun ht => absurd ht hnever⟩, fun q hq => ?_⟩
  · exact hs.table.steady hsteady hp fun _ => Or.inr hcommand
  · obtain ⟨hcleaned, hlate, htodo⟩ := hs.fresh hnot
    refine ⟨hcleaned, hlate, fun q slot hq hfound hslot => ?_⟩
    by_cases hqp : q = p
    · subst hqp
      simpa [HandoverHistory.find] using hslot
    · simp only [HandoverHistory.find, Function.update_of_ne hqp] at hfound ⊢
      exact htodo q slot hq hfound hslot
  · exact hsteady.rely (fun _ hs' => absurd hs' (by simp [hnot]))
      (fun _ hs' => absurd hs' (by simp [hnot])) hq

/-- A stop learns whether there is an image. -/
theorem learn_keeps (hs : HandoverInv cfg m s) (hp : s.1.running p = true) (img : Bool)
    (hmnt : s.2.todo p .mnt = false) :
    HandoverInv cfg m (s.1, s.2.setTodo p .mnt img) ∧
      ∀ q, q ≠ p → HandoverRely cfg m q s (s.1, s.2.setTodo p .mnt img) := by
  have hsteady : Steady cfg m p s (s.1, s.2.setTodo p .mnt img) :=
    ⟨hs.table.ok, World.Later.refl _, fun _ => id, fun _ => Or.inr rfl, rfl, rfl, id, id,
      fun _ => rfl, fun _ => rfl, fun q hq => by simp [HandoverHistory.setTodo, hq], fun _ _ => id⟩
  have htodo : ∀ q slot, s.2.todo q slot = true → (s.2.setTodo p .mnt img).todo q slot = true := by
    intro q slot h
    by_cases hqp : q = p
    · subst hqp
      have hslot : slot ≠ .mnt := by
        rintro rfl
        rw [hmnt] at h
        cases h
      simpa [HandoverHistory.setTodo, hslot] using h
    · simpa [HandoverHistory.setTodo, hqp] using h
  refine ⟨⟨?_, hs.waits, hs.attended, hs.few, hs.image, hs.rules, fun hnot => ?_, hs.sidecar,
    fun ht hwho slot hslot hhas => ?_, hs.duty⟩, fun q hq => ?_⟩
  · exact hs.table.steady hsteady hp Or.inl
  · obtain ⟨hcleaned, hlate, hall⟩ := hs.fresh hnot
    exact ⟨hcleaned, hlate, fun q slot hq hfound hslot =>
      htodo q slot (hall q slot hq hfound hslot)⟩
  · rcases hs.kept ht hwho slot hslot hhas with ⟨q, hrun, hfound, h⟩ | hmount
    · exact Or.inl ⟨q, hrun, hfound, htodo q slot h⟩
    · exact Or.inr hmount
  · exact hsteady.rely (fun _ _ hnone => ⟨hnone, fun _ _ => id⟩) (fun _ _ h => h) hq

/-- Who cleans up: a stop that has found the container running, or the monitor when there is
none. -/
structure Cleans (m p : Pid) (s : World N × HandoverHistory) : Prop where
  ended : hasExited s = true
  late : s.2.late p = true
  who : s.2.found p = true ∨ p = m ∧ ¬ AnyFound s

/-- When a clean-up is through and nobody is on his way, nothing is left. -/
theorem HandoverInv.nothing_left (hs : HandoverInv cfg m s) (hended : hasExited s = true)
    (hcleaned : s.2.cleaned = true) (hnone : ¬ AnyFound s) {slot : Slot}
    (hslot : slot.isTaken = true) : s.1.has cfg.name slot = false := by
  have hgone : ∀ slot, slot.isTaken = true → slot ≠ .mnt → s.1.has cfg.name slot = false := by
    intro slot hslot hmnt
    by_contra hhas
    rcases hs.kept hended (Or.inr (Or.inl hcleaned)) slot hslot (by simpa using hhas) with
      ⟨q, hrun, hfound, -⟩ | ⟨h, -⟩
    · exact hnone ⟨q, hrun, hfound⟩
    · exact hmnt h
  by_cases hmnt : slot = .mnt
  · subst hmnt
    by_contra hhas
    rcases hs.kept hended (Or.inr (Or.inl hcleaned)) .mnt rfl (by simpa using hhas) with
      ⟨q, hrun, hfound, -⟩ | ⟨-, hmount⟩
    · exact hnone ⟨q, hrun, hfound⟩
    · rw [hgone .mount rfl (by simp)] at hmount
      cases hmount
  · exact hgone slot hslot hmnt

/-- A clean-up is through with everything that it had to do. -/
theorem finish_keeps (hs : HandoverInv cfg m s) (hp : s.1.running p = true) (hc : Cleans m p s)
    (hdone : ∀ slot, slot.isTaken = true → s.1.has cfg.name slot = true →
      p ≠ m ∧ s.2.todo p slot = false) :
    HandoverInv cfg m (s.1, s.2.finish p) ∧
      ∀ q, q ≠ p → HandoverRely cfg m q s (s.1, s.2.finish p) := by
  have hsteady : Steady cfg m p s (s.1, s.2.finish p) :=
    ⟨hs.table.ok, World.Later.refl _, fun _ => id, fun _ => Or.inr rfl, rfl, rfl, id, id,
      fun _ => rfl, fun _ => rfl, fun q hq => by simp [HandoverHistory.finish, hq], fun _ _ => id⟩
  have hcleaned : (s.2.finish p).cleaned = true := by simp [HandoverHistory.finish, hc.late]
  have hnot : hasExited (s.1, s.2.finish p) ≠ false := by
    rw [show hasExited (s.1, s.2.finish p) = hasExited s from rfl, hc.ended]
    simp
  refine ⟨⟨?_, hs.waits, fun ht => absurd ht hnot, hs.few, hs.image, hs.rules,
    fun ht => absurd ht hnot, fun _ hopen => ?_, fun _ _ slot hslot hhas => ?_, fun _ h => ?_⟩,
    fun q hq => ?_⟩
  · refine hs.table.steady hsteady hp fun hfound => ?_
    simp [HandoverHistory.finish] at hfound
  · rcases hopen with hopen | hopen
    · exact absurd hopen hnot
    · rw [hcleaned] at hopen
      cases hopen.1
  · obtain ⟨hpm, htodo⟩ := hdone slot hslot hhas
    have hfound : s.2.found p = true := hc.who.resolve_right fun h => hpm h.1
    rcases hs.kept hc.ended (Or.inr (Or.inr ⟨p, hp, hfound⟩)) slot hslot hhas with
      ⟨q, hrun, hq, h⟩ | hmount
    · have hqp : q ≠ p := by
        rintro rfl
        rw [htodo] at h
        cases h
      exact Or.inl ⟨q, hrun, by simpa [HandoverHistory.finish, hqp] using hq, h⟩
    · exact Or.inr hmount
  · rw [hcleaned] at h
    cases h
  · refine hsteady.rely (fun hpm _ hnone => ?_) (fun _ _ _ => Or.inl hcleaned) hq
    exact absurd ⟨p, hp, hc.who.resolve_right fun h => hpm h.1⟩ hnone

/-- What is in the way of the sidecar: an image that only it accounts for. -/
def MayUnlink (cfg : Config N) (m p : Pid) (s : World N × HandoverHistory) : Prop :=
  s.1.has cfg.name .mnt = true → s.1.has cfg.name .mount = true →
    p = m ∨ s.2.todo p .mnt = true

/-- A clean-up takes something away. -/
theorem remove_keeps (hs : HandoverInv cfg m s) (hp : s.1.running p = true) (hc : Cleans m p s)
    {slot : Slot} (hmount : slot = .mount → MayUnlink cfg m p s)
    (hsteady : Steady cfg m p s t) (hrun : ∀ q, s.1.running q = true → t.1.running q = true)
    (hgone : t.1.has cfg.name slot = false) (hfew : (t.1.files cfg.name).mnt ≤ 1)
    (hsame : ∀ slot', slot' ≠ slot → t.1.has cfg.name slot' = s.1.has cfg.name slot')
    (hnote : t.2 = s.2.setTodo p slot false) :
    HandoverInv cfg m t ∧ ∀ q, q ≠ p → HandoverRely cfg m q s t := by
  have hhas : ∀ slot', t.1.has cfg.name slot' = true →
      slot' ≠ slot ∧ s.1.has cfg.name slot' = true := by
    intro slot' h
    have hne : slot' ≠ slot := by
      rintro rfl
      rw [hgone] at h
      cases h
    exact ⟨hne, hsame slot' hne ▸ h⟩
  have hfound : t.2.found = s.2.found := by rw [hnote]; rfl
  have hlate : t.2.late = s.2.late := by rw [hnote]; rfl
  have hcleaned : t.2.cleaned = s.2.cleaned := by rw [hnote]; rfl
  have htodo : ∀ q slot', slot' ≠ slot → t.2.todo q slot' = s.2.todo q slot' := by
    intro q slot' hne
    rw [hnote]
    by_cases hqp : q = p
    · subst hqp
      simp [HandoverHistory.setTodo, hne]
    · simp [HandoverHistory.setTodo, hqp]
  have hany : AnyFound t ↔ AnyFound s := by
    constructor
    · rintro ⟨q, hq, hf⟩
      exact ⟨q, hsteady.running q hq, hfound ▸ hf⟩
    · rintro ⟨q, hq, hf⟩
      exact ⟨q, hrun q hq, hfound ▸ hf⟩
  have hended : hasExited t = true := hsteady.ended hc.ended
  have hnot : hasExited t ≠ false := by simp [hended]
  refine ⟨⟨?_, fun hmid => ?_, fun ht => absurd ht hnot, hfew, fun h => hs.image (hhas _ h).2,
    fun h => hs.rules (hhas _ h).2, fun ht => absurd ht hnot, fun hl hopen => ?_,
    fun _ hwho slot' hslot' h => ?_, fun _ hc' => ?_⟩, fun q hq => ?_⟩
  · exact hs.table.steady hsteady hp fun h => Or.inl (hfound ▸ h)
  · obtain ⟨hreported, -, hinit⟩ := hasExited_iff.1 hended
    exact ⟨hreported, hinit⟩
  · -- then the monitor would be the one that cleans up, and it is late
    rcases hopen with hopen | ⟨-, hnone⟩
    · exact absurd hopen hnot
    · rcases hc.who with hf | ⟨rfl, -⟩
      · exact absurd (hany.2 ⟨p, hp, hf⟩) hnone
      · rw [hlate, hc.late] at hl
        cases hl
  · obtain ⟨hne, h'⟩ := hhas slot' h
    have hwho' : s.1.running m = false ∨ s.2.cleaned = true ∨ AnyFound s := by
      refine hwho.imp (fun hdead => ?_) (Or.imp (fun hdone => hcleaned ▸ hdone) hany.1)
      by_contra hm
      rw [hrun m (by simpa using hm)] at hdead
      cases hdead
    have hf : s.2.found p = true := by
      refine hc.who.resolve_right fun ⟨hpm, hnone⟩ => ?_
      rcases hwho' with hdead | hdone | hf
      · rw [← hpm, hp] at hdead
        cases hdead
      · rw [hs.nothing_left hc.ended hdone hnone hslot'] at h'
        cases h'
      · exact hnone hf
    rcases hs.kept hc.ended hwho' slot' hslot' h' with ⟨q, hq, hf', ht⟩ | ⟨rfl, hm⟩
    · exact Or.inl ⟨q, hrun q hq, hfound ▸ hf', (htodo q slot' hne).trans ht⟩
    · by_cases hslot : slot = .mount
      · -- the image that loses its sidecar is known to `p`
        have ht := (hmount hslot h' hm).resolve_left fun hpm => by
          rw [hpm, hs.table.monitor_not_found] at hf
          cases hf
        exact Or.inl ⟨p, hrun p hp, hfound ▸ hf, (htodo p .mnt hne).trans ht⟩
      · exact Or.inr ⟨rfl, (hsame .mount (Ne.symm hslot)).trans hm⟩
  · rcases hs.duty hc.ended (hcleaned ▸ hc') with hm | hf
    · exact Or.inl (hrun m hm)
    · exact Or.inr (hany.2 hf)
  · refine hsteady.rely (fun _ _ hnone => ⟨fun h => hnone (hany.1 h), fun slot' _ h => ?_⟩)
      (fun _ _ h => h.imp (fun hd => hcleaned.trans hd) hany.2) hq
    exact (hhas slot' h).2

/-- A slot is filled while the container is up, or by a stop that will take it away again. -/
theorem fill_keeps (hs : HandoverInv cfg m s) (hp : s.1.running p = true) {slot : Slot}
    (hslot : slot = .pid ∨ slot = .rules ∧ (cfg.net = .nat ∨ cfg.net = .gateway))
    (hwhen : hasExited s = false ∨ s.2.found p = true ∧ s.2.todo p slot = true)
    (hsteady : Steady cfg m p s t) (hrun : ∀ q, s.1.running q = true → t.1.running q = true)
    (hmnt : (t.1.files cfg.name).mnt = (s.1.files cfg.name).mnt)
    (hsame : ∀ slot', slot' ≠ slot → t.1.has cfg.name slot' = s.1.has cfg.name slot')
    (hnote : t.2 = s.2) :
    HandoverInv cfg m t ∧ ∀ q, HandoverRely cfg m q s t := by
  have hany : AnyFound t ↔ AnyFound s := by
    constructor
    · rintro ⟨q, hq, hf⟩
      exact ⟨q, hsteady.running q hq, hnote ▸ hf⟩
    · rintro ⟨q, hq, hf⟩
      exact ⟨q, hrun q hq, hnote ▸ hf⟩
  have hrunning : ∀ q, t.1.running q = s.1.running q := fun q => by
    rw [Bool.eq_iff_iff]
    exact ⟨hsteady.running q, hrun q⟩
  have hended : hasExited t = hasExited s := by
    rw [hasExited, hnote, hrunning]
    rfl
  have hmnt' : t.1.has cfg.name .mnt = s.1.has cfg.name .mnt := by
    rw [World.has, World.has, hmnt]
  have hmount : t.1.has cfg.name .mount = s.1.has cfg.name .mount :=
    hsame .mount (by rcases hslot with rfl | ⟨rfl, -⟩ <;> simp)
  refine ⟨⟨?_, ?_, ?_, ?_, ?_, fun h => ?_, ?_, ?_, fun ht hwho slot' hslot' h => ?_, ?_⟩,
    fun q => ?_⟩
  · exact hs.table.steady hsteady hp fun h => Or.inl (hnote ▸ h)
  · rw [hnote, hrunning, hrunning]
    exact hs.waits
  · rw [hended, hrunning]
    exact hs.attended
  · rw [hmnt]
    exact hs.few
  · rw [hmnt']
    exact hs.image
  · rcases hslot with rfl | ⟨-, hnet⟩
    · exact hs.rules (hsame .rules (by simp) ▸ h)
    · exact hnet
  · rw [hended, hnote]
    simp only [hrunning]
    exact hs.fresh
  · rw [hended, hnote, hany, hmnt', hmount]
    exact hs.sidecar
  · rw [hended] at ht
    rw [hrunning, hnote, hany] at hwho
    by_cases heq : slot' = slot
    · subst heq
      rcases hwhen with hup | ⟨hf, htodo⟩
      · rw [ht] at hup
        cases hup
      · exact Or.inl ⟨p, hrun p hp, hnote ▸ hf, hnote ▸ htodo⟩
    · rw [hsame slot' heq] at h
      rcases hs.kept ht hwho slot' hslot' h with ⟨q, hq, hf, htodo⟩ | ⟨rfl, hm⟩
      · exact Or.inl ⟨q, hrun q hq, hnote ▸ hf, hnote ▸ htodo⟩
      · exact Or.inr ⟨rfl, hmount.trans hm⟩
  · rw [hended, hnote, hrunning, hany]
    exact hs.duty
  · refine hsteady.rely_self hnote (fun ht hnone => ?_) (fun _ h => by rwa [hnote, hany]) q
    rcases hwhen with hup | ⟨hf, -⟩
    · rw [ht] at hup
      cases hup
    · exact absurd ⟨p, hp, hf⟩ hnone

/-! ## Boot cycles -/

/-- What a fork leaves as it is. -/
structure Forked (cfg : Config N) (m c : Pid) (s t : World N × HandoverHistory) : Prop where
  ok : t.1.Ok
  later : s.1.Later t.1
  unborn : (s.1.procs c).life = .unborn
  running : t.1.running c = true
  others : ∀ q, q ≠ c → t.1.running q = s.1.running q ∧
    (t.1.procs q).cgroup = (s.1.procs q).cgroup
  empty : (∀ x, s.1.running x = true → (s.1.procs x).cgroup ≠ some cfg.name) →
    (t.1.procs c).cgroup ≠ some cfg.name
  mnt : (t.1.files cfg.name).mnt = (s.1.files cfg.name).mnt
  has : ∀ slot, t.1.has cfg.name slot = s.1.has cfg.name slot
  found : t.2.found = s.2.found
  todo : t.2.todo = s.2.todo
  late : t.2.late = s.2.late

namespace Forked

variable {c : Pid} (h : Forked cfg m c s t)

include h

theorem ne {q : Pid} (hq : s.1.running q = true) : q ≠ c := fun heq =>
  World.ne_unborn_of_running hq (heq ▸ h.unborn)

theorem found_of_running (hs : TableInv m s) {q : Pid} (hq : t.1.running q = true)
    (hfound : t.2.found q = true) : s.1.running q = true ∧ s.2.found q = true := by
  rw [h.found] at hfound
  have hqc : q ≠ c := by
    rintro rfl
    rw [hs.unborn q h.unborn] at hfound
    cases hfound
  exact ⟨(h.others q hqc).1 ▸ hq, hfound⟩

/-- The newcomer is no command. -/
theorem table (hs : TableInv m s) (hrole : (t.1.procs c).role.isCommand = false)
    (hinits : ∀ q n, t.1.running q = true → (t.1.procs q).role = .init n → q = t.2.init)
    (hinit : (t.1.procs t.2.init).life ≠ .unborn ∧ ∃ n, (t.1.procs t.2.init).role = .init n)
    (hmid : (t.1.procs t.2.mid).life ≠ .unborn ∧
      ∃ n, (t.1.procs t.2.mid).role = .intermediate n) : TableInv m t where
  ok := h.ok
  unborn q hq := by
    rw [h.found]
    refine hs.unborn q ?_
    by_contra hne
    exact (h.later.procs q hne).ne_unborn hne hq
  command q hq := by
    rw [h.found] at hq
    have hborn : (s.1.procs q).life ≠ .unborn := fun hunborn => by
      rw [hs.unborn q hunborn] at hq
      cases hq
    rw [(h.later.procs q hborn).role]
    exact hs.command q hq
  outside q hq hcommand := by
    have hqc : q ≠ c := by
      rintro rfl
      rw [hrole] at hcommand
      cases hcommand
    have hrun : s.1.running q = true := (h.others q hqc).1 ▸ hq
    rw [(h.later.procs q (World.ne_unborn_of_running hrun)).role] at hcommand
    rw [(h.others q hqc).2]
    exact hs.outside q hrun hcommand
  inits := hinits
  init := hinit
  mid := hmid
  monitor := by
    have hlater := h.later.procs _ hs.monitor.1
    exact ⟨hlater.ne_unborn hs.monitor.1, by rw [hlater.role]; exact hs.monitor.2⟩

theorem empty_iff (hs : ∀ x, s.1.running x = true → (s.1.procs x).cgroup ≠ some cfg.name)
    (x : Pid) (hx : t.1.running x = true) : (t.1.procs x).cgroup ≠ some cfg.name := by
  by_cases hxc : x = c
  · subst hxc
    exact h.empty hs
  · rw [(h.others x hxc).2]
    exact hs x ((h.others x hxc).1 ▸ hx)

end Forked

/-- The monitor begins a boot cycle. -/
theorem cycle_keeps {c : Pid} (hs : HandoverInv cfg m s) (hm : s.1.running m = true)
    (hended : hasExited s = true) (hnone : ¬ AnyFound s) (hlate : s.2.late m = false)
    (hmid : s.1.running s.2.mid = false) (h : Forked cfg m c s t)
    (hrole : ∃ n, (t.1.procs c).role = .intermediate n) (hinit : t.2.init = s.2.init)
    (hnewMid : t.2.mid = c) (hreported : t.2.reported = false) (hcleaned : t.2.cleaned = false) :
    HandoverInv cfg m t ∧ ∀ q, q ≠ m → s.1.running q = true → HandoverRely cfg m q s t := by
  have hnever : hasExited t ≠ true := fun ht => by
    rw [(hasExited_iff.1 ht).1] at hreported
    cases hreported
  have hnofound : ∀ q, t.1.running q = true → t.2.found q ≠ true := fun q hq hfound =>
    hnone ⟨q, h.found_of_running hs.table hq hfound⟩
  refine ⟨⟨?_, fun hdead => ?_, fun _ => ?_, ?_, ?_, ?_, fun _ => ?_, fun _ _ hmnt => ?_,
    fun ht => absurd ht hnever, fun ht => absurd ht hnever⟩, fun q hqm hq => ?_⟩
  · obtain ⟨n, hn⟩ := hrole
    refine h.table hs.table (by rw [hn]; rfl) (fun q n' hq hrole' => ?_) ?_ ?_
    · have hqc : q ≠ c := by
        rintro rfl
        rw [hn] at hrole'
        cases hrole'
      have hrun : s.1.running q = true := (h.others q hqc).1 ▸ hq
      rw [(h.later.procs q (World.ne_unborn_of_running hrun)).role] at hrole'
      rw [hinit]
      exact hs.table.inits q n' hrun hrole'
    · rw [hinit]
      have hlater := h.later.procs _ hs.table.init.1
      exact ⟨hlater.ne_unborn hs.table.init.1, by rw [hlater.role]; exact hs.table.init.2⟩
    · rw [hnewMid]
      exact ⟨World.ne_unborn_of_running h.running, n, hn⟩
  · rw [hnewMid, h.running] at hdead
    cases hdead
  · rw [(h.others m (h.ne hm)).1]
    exact hm
  · rw [h.mnt]
    exact hs.few
  · rw [h.has]
    exact hs.image
  · rw [h.has]
    exact hs.rules
  · exact ⟨hcleaned, by rw [h.late]; exact hlate, fun q _ hq hfound =>
      absurd hfound (hnofound q hq)⟩
  · rw [h.has] at hmnt ⊢
    cases hdone : s.2.cleaned with
    | true =>
      rw [hs.nothing_left hended hdone hnone rfl] at hmnt
      cases hmnt
    | false => exact hs.sidecar hlate (Or.inr ⟨hdone, hnone⟩) hmnt
  · refine ⟨h.later, by rw [h.found], by rw [h.todo], by rw [h.late],
      fun slot _ hhas => h.has slot ▸ hhas, h.empty_iff, fun hwho _ => ?_,
      fun hqm' => absurd hqm' hqm, fun hqm' => absurd hqm' hqm, fun hqm' => absurd hqm' hqm,
      fun hqmid => ?_, fun _ => hinit, fun hout => by rw [(h.others q (h.ne hq)).2, hout]⟩
    · exact absurd ⟨q, hq, hwho.resolve_left hqm⟩ hnone
    · rw [← hqmid, hq] at hmid
      cases hmid

/-- The intermediate process forks its init. -/
theorem boot_init_keeps {c : Pid} (hs : HandoverInv cfg m s) (hp : s.1.running s.2.mid = true)
    (hreported : s.2.reported = false) (hdead : s.1.running s.2.init = false)
    (h : Forked cfg m c s t) (hrole : ∃ n, (t.1.procs c).role = .init n)
    (hnote : t.2 = { s.2 with init := c }) :
    HandoverInv cfg m t ∧ ∀ q, q ≠ s.2.mid → s.1.running q = true → HandoverRely cfg m q s t := by
  have hup : hasExited s = false := by simp [hasExited, hreported]
  have hupt : hasExited t = false := by simp [hasExited, hnote, hreported]
  have hnever : hasExited s ≠ true := by simp [hup]
  have hnever' : hasExited t ≠ true := by simp [hupt]
  obtain ⟨hcleaned, hlate, htodo⟩ := hs.fresh hup
  have hmid : t.2.mid = s.2.mid := by rw [hnote]
  refine ⟨⟨?_, fun hgone => ?_, fun _ => ?_, ?_, ?_, ?_, fun _ => ?_, fun _ _ => ?_,
    fun ht => absurd ht hnever', fun ht => absurd ht hnever'⟩, fun q hqmid hq => ?_⟩
  · obtain ⟨n, hn⟩ := hrole
    refine h.table hs.table (by rw [hn]; rfl) (fun q n' hq hrole' => ?_) ?_ ?_
    · have hinit : t.2.init = c := by rw [hnote]
      rw [hinit]
      by_contra hqc
      have hrun : s.1.running q = true := (h.others q hqc).1 ▸ hq
      rw [(h.later.procs q (World.ne_unborn_of_running hrun)).role] at hrole'
      rw [← hs.table.inits q n' hrun hrole', hrun] at hdead
      cases hdead
    · rw [hnote]
      exact ⟨World.ne_unborn_of_running h.running, n, hn⟩
    · rw [hmid]
      have hlater := h.later.procs _ hs.table.mid.1
      exact ⟨hlater.ne_unborn hs.table.mid.1, by rw [hlater.role]; exact hs.table.mid.2⟩
  · rw [hmid, (h.others _ (h.ne hp)).1, hp] at hgone
    cases hgone
  · rw [(h.others m (h.ne (hs.attended hup))).1]
    exact hs.attended hup
  · rw [h.mnt]
    exact hs.few
  · rw [h.has]
    exact hs.image
  · rw [h.has]
    exact hs.rules
  · refine ⟨by rw [hnote]; exact hcleaned, by rw [h.late]; exact hlate, fun q slot hq hfound => ?_⟩
    obtain ⟨hq', hfound'⟩ := h.found_of_running hs.table hq hfound
    rw [h.todo]
    exact htodo q slot hq' hfound'
  · rw [h.has, h.has]
    exact hs.sidecar hlate (Or.inl hup)
  · refine ⟨h.later, by rw [h.found], by rw [h.todo], by rw [h.late],
      fun slot _ hhas => h.has slot ▸ hhas, h.empty_iff, fun _ ht => absurd ht hnever,
      fun _ ht => absurd ht hnever, fun _ ht => absurd ht hnever,
      fun _ => by rw [hnote]; exact ⟨rfl, rfl⟩, fun hqm => absurd hqm hqmid, fun hqinit => ?_,
      fun hout => by rw [(h.others q (h.ne hq)).2, hout]⟩
    rw [← hqinit, hq] at hdead
    cases hdead

/-- A stop is spawned. -/
theorem spawn_keeps {c : Pid} (hs : HandoverInv cfg m s) (h : Forked cfg m c s t)
    (hnote : t.2 = s.2) (hrole : (t.1.procs c).role.isCommand = true)
    (hcgroup : (t.1.procs c).cgroup = none) :
    HandoverInv cfg m t ∧ ∀ q, s.1.running q = true → HandoverRely cfg m q s t := by
  have hborn : ∀ q, (s.1.procs q).life ≠ .unborn →
      t.1.running q = s.1.running q ∧ (t.1.procs q).role = (s.1.procs q).role := fun q hq =>
    ⟨(h.others q fun heq => hq (heq ▸ h.unborn)).1, (h.later.procs q hq).role⟩
  have hmid := hborn _ hs.table.mid.1
  have hinit := hborn _ hs.table.init.1
  have hmonitor := hborn _ hs.table.monitor.1
  have hended : hasExited t = hasExited s := by
    rw [hasExited, hasExited, hnote, hinit.1]
  have hany : AnyFound t ↔ AnyFound s := by
    constructor
    · rintro ⟨q, hq, hfound⟩
      exact ⟨q, h.found_of_running hs.table hq hfound⟩
    · rintro ⟨q, hq, hfound⟩
      exact ⟨q, (hborn q (World.ne_unborn_of_running hq)).1.trans hq, hnote ▸ hfound⟩
  have hcovered : ∀ slot, Covered cfg.name s slot → Covered cfg.name t slot := by
    rintro slot (⟨q, hq, hfound, htodo⟩ | ⟨hmnt, hmount⟩)
    · exact Or.inl ⟨q, (hborn q (World.ne_unborn_of_running hq)).1.trans hq, hnote ▸ hfound,
        hnote ▸ htodo⟩
    · exact Or.inr ⟨hmnt, (h.has .mount).trans hmount⟩
  have htable : TableInv m t := by
    refine ⟨h.ok, fun q hq => ?_, fun q hq => ?_, fun q hq hcommand => ?_, fun q n hq hinit => ?_,
      ?_, ?_, ?_⟩
    · rw [hnote]
      refine hs.table.unborn q ?_
      by_contra hne
      exact (h.later.procs q hne).ne_unborn hne hq
    · rw [hnote] at hq
      have hne : (s.1.procs q).life ≠ .unborn := fun hunborn => by
        rw [hs.table.unborn q hunborn] at hq
        cases hq
      rw [(hborn q hne).2]
      exact hs.table.command q hq
    · by_cases hqc : q = c
      · rw [hqc]
        exact hcgroup
      · obtain ⟨hrun, hsame⟩ := h.others q hqc
        rw [hrun] at hq
        rw [hsame]
        rw [(hborn q (World.ne_unborn_of_running hq)).2] at hcommand
        exact hs.table.outside q hq hcommand
    · by_cases hqc : q = c
      · rw [hqc] at hinit
        rw [hinit] at hrole
        cases hrole
      · rw [(h.others q hqc).1] at hq
        rw [(hborn q (World.ne_unborn_of_running hq)).2] at hinit
        rw [hnote]
        exact hs.table.inits q n hq hinit
    · rw [hnote]
      exact ⟨(h.later.procs _ hs.table.init.1).ne_unborn hs.table.init.1,
        by rw [hinit.2]; exact hs.table.init.2⟩
    · rw [hnote]
      exact ⟨(h.later.procs _ hs.table.mid.1).ne_unborn hs.table.mid.1,
        by rw [hmid.2]; exact hs.table.mid.2⟩
    · exact ⟨(h.later.procs _ hs.table.monitor.1).ne_unborn hs.table.monitor.1,
        by rw [hmonitor.2]; exact hs.table.monitor.2⟩
  refine ⟨⟨htable, ?_, ?_, ?_, ?_, ?_, ?_, ?_, ?_, ?_⟩, fun q hq => ?_⟩
  · rw [hnote, hmid.1, hinit.1]
    exact hs.waits
  · rw [hended, hmonitor.1]
    exact hs.attended
  · rw [h.mnt]
    exact hs.few
  · rw [h.has]
    exact hs.image
  · rw [h.has]
    exact hs.rules
  · intro hup
    rw [hended] at hup
    obtain ⟨hcleaned, hlate, htodo⟩ := hs.fresh hup
    refine ⟨hnote ▸ hcleaned, hnote ▸ hlate, fun q slot hq hfound hslot => ?_⟩
    obtain ⟨hq', hfound'⟩ := h.found_of_running hs.table hq hfound
    rw [hnote]
    exact htodo q slot hq' hfound' hslot
  · rw [hended, hnote, hany, h.has, h.has]
    exact hs.sidecar
  · rw [hended, hmonitor.1, hnote, hany]
    exact fun hended hwho slot hslot hhas =>
      hcovered slot (hs.kept hended hwho slot hslot (h.has slot ▸ hhas))
  · rw [hended, hnote, hmonitor.1, hany]
    exact hs.duty
  · refine ⟨h.later, by rw [hnote], by rw [hnote], by rw [hnote], fun slot _ hh => h.has slot ▸ hh,
      h.empty_iff, fun _ hh => hended.trans hh, fun _ _ hnone => ⟨fun hh => hnone (hany.1 hh),
      fun slot _ hh => h.has slot ▸ hh⟩, fun _ _ hh => by rwa [hnote, hany],
      fun _ => by rw [hnote]; exact ⟨rfl, rfl⟩, fun _ => by rw [hnote]; exact ⟨rfl, rfl, rfl⟩,
      fun _ => by rw [hnote], fun hout => ?_⟩
    rw [(h.others q (h.ne hq)).2, hout]

end Droidspaces
