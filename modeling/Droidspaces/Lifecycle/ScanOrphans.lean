import Droidspaces.Lifecycle.Evolution

/-!
# A scan and the images in use

`scan_containers` first collects the mounts that validated pidfiles name, then unmounts whatever
else is mounted under `/mnt/Droidspaces`.  A start mounts its image long before it saves those
files, and a restart keeps a mount whose pid is dead, so a mount in use need not be among the
collected ones: in `scan_unmounts_starting_image` the scan takes away the image that a start has
just mounted.

The history marks the processes that need a mount (`uses`: a start or restart and everything it
forks) and, among them, those that have not saved their tracking files yet (`pending`).  The guard
`findsImages` asks three things: no start or restart is pending while a scan is between its two
loops' ends; whenever the scan looks at a tracking file of a mount in use it finds it in order; and
what it leaves unread when its table is full is not in use.  Then `scan_spares_images`.

While a scan runs, mounts in use can only become fewer; the proof carries "every mount in use is
tracked or still to be read" through the first loop, and "every mount in use is tracked" through
the second.
-/

namespace Droidspaces

open Transition

variable {N : Type} [DecidableEq N]

/-! ## History -/

structure ScanHistory (N : Type) where
  /-- The name whose image mount the process needs. -/
  uses : Pid → Option N
  /-- A start or restart on its way: it needs the mount and has not saved its tracking files. -/
  pending : Pid → Option N
  /-- A scan between the opening of `Pids/` and its end. -/
  scanning : Pid → Bool
  /-- The name whose pidfile a scan has read last. -/
  reading : Pid → Option N

def Entry.isScan : Entry N → Bool
  | .scanContainers => true
  | _ => false

namespace ScanHistory

def empty : ScanHistory N where
  uses := fun _ => none
  pending := fun _ => none
  scanning := fun _ => false
  reading := fun _ => none

def setUses (g : ScanHistory N) (p : Pid) (uses pending : Option N) : ScanHistory N :=
  { g with
    uses := Function.update g.uses p uses
    pending := Function.update g.pending p pending }

/-- A start needs the mount from the moment it looks for a mount point, a restart from the moment
its stop finds the container running. -/
def note (g : ScanHistory N) (w : World N) (p : Pid) (op : Op N) (r : op.Res) (_ : World N) :
    ScanHistory N :=
  match op, r with
  | .query (.accessMnt n), _ => g.setUses p (some n) (some n)
  | .mark (.admitted n true), _ => g.setUses p (some n) (some n)
  | .mark (.stopping n _ _ true), _ =>
    if 0 < (w.files n).mnt then g.setUses p (some n) (some n) else g
  | .mark (.recorded _), _ => g.setUses p (g.uses p) none
  | .mark (.cleanup _ false), _ => g.setUses p none none
  | .action (.fork _), c => g.setUses c (g.uses p) none
  | .mark .gather, _ =>
    { g with scanning := Function.update g.scanning p (w.procs p).entry.isScan }
  | .mark .swept, _ => { g with scanning := Function.update g.scanning p false }
  | .query (.readPid n), _ => { g with reading := Function.update g.reading p (some n) }
  | _, _ => g

end ScanHistory

def scannedLifecycle :
    Machine Pid (World N × ScanHistory N) (Op N) (Entry N) (HostEvent N) Op.Res :=
  lifecycle.withGhost ScanHistory.note fun g _ _ _ => g

/-! ## The property -/

/-- The mount of `n` is the rootfs of a live, starting or restarting container. -/
def InUse (s : World N × ScanHistory N) (n : N) : Prop :=
  ∃ q, s.1.running q = true ∧ s.2.uses q = some n

/-- The same, over the pids that were ever used. -/
def inUse (s : World N × ScanHistory N) (n : N) : Bool :=
  s.1.pids.any fun q => s.1.running q && s.2.uses q == some n

/-- A scan unmounts nothing in use, and removes no directory that a start is about to mount on. -/
def SparesImages (s : World N × ScanHistory N) (p : Pid) : Op N → Prop
  | .action (.umount n) => s.2.scanning p = true → ¬ InUse s n
  | .action (.rmdirMnt n) => s.2.scanning p = true →
      ∀ q, s.1.running q = true → s.2.pending q ≠ some n
  | _ => True

/-- A start or restart begins to need a mount. -/
def Op.begins : Op N → Bool
  | .query (.accessMnt _) => true
  | .mark (.admitted _ restart) => restart
  | .mark (.stopping _ _ _ skip) => skip
  | _ => false

/-- What a scan finds of a mount in use, where it looks. -/
def findsInOrder (s : World N × ScanHistory N) (p : Pid) : Query N → Bool
  | .listPids => s.1.pids.all fun q =>
      !s.1.running q || (s.2.uses q).all fun n => (s.1.files n).pid.isSome
  | .readPid n => !inUse s n || (s.1.files n).pid.isSome
  | .kill0 c | .validPid c => (s.2.reading p).all fun n => !inUse s n || s.1.valid c
  | .readMount n => !inUse s n || (s.1.files n).mount
  | _ => true

/-- The guard. -/
def findsImages (s : World N × ScanHistory N) (p : Pid) (op : Op N) : Bool :=
  (!op.begins || s.1.pids.all fun q => !s.1.running q || !s.2.scanning q) &&
    match op with
    | .mark .gather => s.1.pids.all fun q => !s.1.running q || (s.2.pending q).isNone
    | .mark (.tableFull rest) => !s.2.scanning p || rest.all fun n => !inUse s n
    | .query q => !s.2.scanning p || findsInOrder s p q
    | _ => true

/-! ## What one operation does to the history -/

section Note

omit [DecidableEq N]

variable {g : ScanHistory N} {w w' : World N} {p q : Pid} {op : Op N} {r : op.Res}

variable (g w w') in
theorem ScanHistory.note_other (hq : q ≠ p) (hch : ∀ e, startedBy op r ≠ some (q, e)) :
    (g.note w p op r w').uses q = g.uses q ∧ (g.note w p op r w').pending q = g.pending q ∧
      (g.note w p op r w').scanning q = g.scanning q ∧
      (g.note w p op r w').reading q = g.reading q := by
  unfold ScanHistory.note
  split
  case h_6 e c =>
    have hqc : q ≠ c := fun heq => hch e (by rw [heq]; rfl)
    simp [ScanHistory.setUses, hqc]
  case h_3 => split <;> simp [ScanHistory.setUses, hq]
  all_goals simp [ScanHistory.setUses, hq]

theorem ScanHistory.note_child {e : Entry N} (hch : startedBy op r = some (q, e)) :
    (g.note w p op r w').uses q = g.uses p ∧ (g.note w p op r w').pending q = none ∧
      (g.note w p op r w').scanning = g.scanning := by
  unfold startedBy at hch
  split at hch
  · obtain ⟨rfl, rfl⟩ := Prod.mk.inj (Option.some.inj hch)
    simp [ScanHistory.note, ScanHistory.setUses]
  · cases hch

/-- Who does not begin to need a mount needs at most what it needed. -/
theorem ScanHistory.note_self (hbegins : op.begins = false)
    (hch : ∀ e, startedBy op r ≠ some (p, e)) :
    ((g.note w p op r w').uses p = g.uses p ∨ (g.note w p op r w').uses p = none) ∧
      ((g.note w p op r w').pending p = g.pending p ∨ (g.note w p op r w').pending p = none) := by
  unfold ScanHistory.note
  split
  case h_6 e c =>
    have hpc : p ≠ c := fun heq => hch e (by rw [heq]; rfl)
    simp [ScanHistory.setUses, hpc]
  all_goals simp_all [ScanHistory.setUses, Op.begins]

theorem ScanHistory.note_scanning (h : (g.note w p op r w').scanning q = true) :
    g.scanning q = true ∨ q = p ∧ op = .mark .gather ∧ (w.procs p).entry.isScan = true := by
  unfold ScanHistory.note at h
  split at h
  case h_3 => split at h <;> exact Or.inl h
  case h_7 =>
    by_cases hq : q = p
    · subst hq
      exact Or.inr ⟨rfl, rfl, by simpa using h⟩
    · exact Or.inl (by simpa [hq] using h)
  case h_8 =>
    by_cases hq : q = p
    · subst hq
      simp at h
    · exact Or.inl (by simpa [hq] using h)
  all_goals exact Or.inl h

theorem ScanHistory.note_scanning_eq (hgather : op ≠ .mark .gather) (hswept : op ≠ .mark .swept) :
    (g.note w p op r w').scanning = g.scanning := by
  unfold ScanHistory.note
  split
  case h_3 => split <;> rfl
  case h_7 => exact absurd rfl hgather
  case h_8 => exact absurd rfl hswept
  all_goals rfl

end Note

/-! ## The contract -/

structure ScanInv (s : World N × ScanHistory N) : Prop where
  ok : s.1.Ok
  unborn : ∀ q, (s.1.procs q).life = .unborn →
    s.2.uses q = none ∧ s.2.pending q = none ∧ s.2.scanning q = false
  /-- While a scan runs, nobody is on its way. -/
  quiet : ∀ p q, s.1.running p = true → s.2.scanning p = true → s.1.running q = true →
    s.2.pending q = none

/-- What a scan relies on: mounts in use only become fewer. -/
structure ScanRely (p : Pid) (s t : World N × ScanHistory N) : Prop where
  later : s.1.Later t.1
  scanning : t.2.scanning p = s.2.scanning p
  reading : t.2.reading p = s.2.reading p
  inUse : s.2.scanning p = true → ∀ n, InUse t n → InUse s n

/-- No scan: what such a process does never matters here. -/
structure NoScan (p : Pid) (s : World N × ScanHistory N) : Prop where
  born : (s.1.procs p).life ≠ .unborn
  entry : (s.1.procs p).entry.isScan = false
  scanning : s.2.scanning p = false

/-- A scan before it opens `Pids/`. -/
structure BeforeScan (p : Pid) (s : World N × ScanHistory N) : Prop where
  born : (s.1.procs p).life ≠ .unborn
  entry : (s.1.procs p).entry.isScan = true
  scanning : s.2.scanning p = false

def scanContract : Contract (scannedLifecycle (N := N)) where
  inv := ScanInv
  rely := ScanRely
  guard s p op := findsImages s p op = true
  guardEnv := Machine.anyEnv
  safe := SparesImages
  pre e p s := e = .exited ∨ NoScan p s ∨ e = .scanContainers ∧ BeforeScan p s
  rely_refl _ _ := ⟨World.Later.refl _, rfl, rfl, fun _ _ h => h⟩
  rely_trans := by
    intro p u v w huv hvw
    refine ⟨huv.later.trans hvw.later, hvw.scanning.trans huv.scanning,
      hvw.reading.trans huv.reading, fun hscan n hn => ?_⟩
    exact huv.inUse hscan n (hvw.inUse (huv.scanning.trans hscan) n hn)

/-! ## Single operations -/

variable {n : N} {p : Pid} {s t : World N × ScanHistory N} {choice : ℕ}

/-- While a scan runs, no operation makes a mount needed. -/
theorem ScanInv.inUse_of_exec {op : Op N} {r : op.Res} (hs : ScanInv s)
    (hrun : s.1.running p = true) (h : scannedLifecycle.exec s p op choice = some (t, r))
    (hguard : findsImages s p op = true) {q : Pid} (hq : s.1.running q = true)
    (hscan : s.2.scanning q = true) (hn : InUse t n) : InUse s n := by
  obtain ⟨hexec, hnote⟩ := exec_of_history h
  obtain ⟨x, hx, huses⟩ := hn
  have hlater := exec_later hrun hexec
  have hbegins : op.begins = false := by
    by_contra hb
    simp only [findsImages, Bool.and_eq_true, Bool.or_eq_true, List.all_eq_true] at hguard
    have := (hguard.1.resolve_left (by simpa using hb)) q
      (hs.ok.pids q (World.ne_unborn_of_running hq)).1
    simp [hq, hscan] at this
  rw [hnote] at huses
  by_cases hch : ∃ e, startedBy op r = some (x, e)
  · obtain ⟨e, he⟩ := hch
    exact ⟨p, hrun, (ScanHistory.note_child he).1 ▸ huses⟩
  · have hxrun : s.1.running x = true :=
      (lifecycle_spawns.exec _ _ _ _ _ _ x hrun hexec hx).resolve_right hch
    have hno : ∀ e, startedBy op r ≠ some (x, e) := fun e he => hch ⟨e, he⟩
    by_cases hxp : x = p
    · subst hxp
      rcases (ScanHistory.note_self hbegins hno).1 with hsame | hnone
      · exact ⟨x, hxrun, hsame ▸ huses⟩
      · rw [hnone] at huses
        cases huses
    · exact ⟨x, hxrun, (ScanHistory.note_other _ _ _ hxp hno).1 ▸ huses⟩

theorem ScanInv.step {op : Op N} {r : op.Res} (hs : ScanInv s) (hrun : s.1.running p = true)
    (h : scannedLifecycle.exec s p op choice = some (t, r)) (hguard : findsImages s p op = true) :
    ScanInv t := by
  obtain ⟨hexec, hnote⟩ := exec_of_history h
  have hlater := exec_later hrun hexec
  simp only [findsImages, Bool.and_eq_true, Bool.or_eq_true, List.all_eq_true] at hguard
  refine ⟨exec_ok hs.ok hrun hexec, fun q hq => ?_, fun a q ha hscan hq => ?_⟩
  · have hunborn : (s.1.procs q).life = .unborn := by
      by_contra hne
      exact (hlater.procs q hne).ne_unborn hne hq
    have hch : ∀ e, startedBy op r ≠ some (q, e) := fun e he => by
      rw [(exec_child hexec he).2] at hq
      cases hq
    have hqp : q ≠ p := fun heq => World.ne_unborn_of_running hrun (heq ▸ hunborn)
    obtain ⟨huses, hpending, hscanning, -⟩ :=
      ScanHistory.note_other s.2 s.1 t.1 hqp hch
    rw [hnote, huses, hpending, hscanning]
    exact hs.unborn q hunborn
  · rw [hnote] at hscan ⊢
    by_cases hch : ∃ e, startedBy op r = some (q, e)
    · obtain ⟨e, he⟩ := hch
      exact (ScanHistory.note_child he).2.1
    have hno : ∀ e, startedBy op r ≠ some (q, e) := fun e he => hch ⟨e, he⟩
    have hqrun : s.1.running q = true :=
      (lifecycle_spawns.exec _ _ _ _ _ _ q hrun hexec hq).resolve_right hch
    -- before the step nobody was on its way, or the step itself opened the scan
    have hquiet : s.2.pending q = none ∧ op.begins = false := by
      rcases ScanHistory.note_scanning hscan with hold | ⟨rfl, rfl, -⟩
      · have harun : s.1.running a = true := by
          by_cases hach : ∃ e, startedBy op r = some (a, e)
          · obtain ⟨e, he⟩ := hach
            rw [(hs.unborn a (exec_child hexec he).1).2.2] at hold
            cases hold
          · exact (lifecycle_spawns.exec _ _ _ _ _ _ a hrun hexec ha).resolve_right hach
        refine ⟨hs.quiet a q harun hold hqrun, ?_⟩
        by_contra hb
        have := (hguard.1.resolve_left (by simpa using hb)) a
          (hs.ok.pids a (World.ne_unborn_of_running harun)).1
        simp [harun, hold] at this
      · have := List.all_eq_true.1 hguard.2 q
          (hs.ok.pids q (World.ne_unborn_of_running hqrun)).1
        simpa [hqrun, Op.begins] using this
    by_cases hqp : q = p
    · subst hqp
      rcases (ScanHistory.note_self hquiet.2 hno).2 with hsame | hnone
      · rw [hsame]
        exact hquiet.1
      · exact hnone
    · rw [(ScanHistory.note_other _ _ _ hqp hno).2.1]
      exact hquiet.1

theorem scanPre_of_born {e : Entry N} {q parent : Pid} {out : Option Pid} {cg : Option N}
    (hq : t.1.procs q = Proc.newborn e parent out cg) (hscan : t.2.scanning q = false) :
    scanContract.pre e q t := by
  have hborn : (t.1.procs q).life ≠ .unborn := by
    rw [hq]
    simp [Proc.newborn]
  cases e with
  | scanContainers => exact Or.inr (Or.inr ⟨rfl, hborn, by rw [hq]; rfl, hscan⟩)
  | _ => exact Or.inr (Or.inl ⟨hborn, by rw [hq]; rfl, hscan⟩)

theorem scan_keeps {op : Op N} {r : op.Res} (hs : ScanInv s) (hrun : s.1.running p = true)
    (h : scannedLifecycle.exec s p op choice = some (t, r)) (hguard : findsImages s p op = true)
    (hsafe : SparesImages s p op) : scanContract.Keeps p s op t r where
  safe := hsafe
  inv := hs.step hrun h hguard
  rely q hq hqrun := by
    obtain ⟨hexec, hnote⟩ := exec_of_history h
    have hno : ∀ e, startedBy op r ≠ some (q, e) := fun e he =>
      World.ne_unborn_of_running hqrun (exec_child hexec he).1
    obtain ⟨-, -, hscanning, hreading⟩ :=
      ScanHistory.note_other s.2 s.1 t.1 hq hno
    refine ⟨exec_later hrun hexec, by rw [hnote, hscanning], by rw [hnote, hreading], ?_⟩
    exact fun hscan n hn => hs.inUse_of_exec hrun h hguard hqrun hscan hn
  child q e hch := by
    obtain ⟨hexec, hnote⟩ := exec_of_history h
    obtain ⟨hunborn, hborn⟩ := exec_child hexec hch
    refine scanPre_of_born hborn ?_
    rw [hnote, (ScanHistory.note_child hch).2.2]
    exact (hs.unborn q hunborn).2.2

/-! ## Programs -/

theorem noScan_stable : (scanContract (N := N)).Stable p (NoScan p) := by
  intro u v _ h hrely _
  have hp := hrely.later.procs p h.born
  exact ⟨hp.ne_unborn h.born, by rw [hp.entry]; exact h.entry, hrely.scanning.trans h.scanning⟩

/-- Processes that are no scans may run any program. -/
theorem noScan_keeps {α : Type} (m : Code N α) (hinv : ScanInv s) (hp : NoScan p s) :
    scanContract.wp p m (fun _ t => NoScan p t) s := by
  refine Contract.wp_of_stable noScan_stable ?_ m hinv hp
  intro v op choice v' r hv hinvv hrun hguard hexec
  have hsafe : SparesImages v p op := by
    unfold SparesImages
    split
    · exact fun hscan => by simp [hv.scanning] at hscan
    · exact fun hscan => by simp [hv.scanning] at hscan
    · trivial
  refine ⟨scan_keeps hinvv hrun hexec hguard hsafe, fun _ => ?_⟩
  obtain ⟨hexec', hnote⟩ := exec_of_history hexec
  have hp := (exec_later hrun hexec').procs p hv.born
  refine ⟨hp.ne_unborn hv.born, by rw [hp.entry]; exact hv.entry, ?_⟩
  rw [hnote, Bool.eq_false_iff]
  intro hscan
  rcases ScanHistory.note_scanning hscan with hold | ⟨-, -, hentry⟩
  · simp [hv.scanning] at hold
  · simp [hv.entry] at hentry

/-- A scan whose mounts in use all have the property `T`. -/
structure Scanning (p : Pid) (T : N → Prop) (s : World N × ScanHistory N) : Prop where
  scanning : s.2.scanning p = true
  inUse : ∀ n, InUse s n → T n

omit [DecidableEq N] in
theorem Scanning.mono {T T' : N → Prop} (h : Scanning p T s) (hT : ∀ n, InUse s n → T n → T' n) :
    Scanning p T' s :=
  ⟨h.scanning, fun n hn => hT n hn (h.inUse n hn)⟩

theorem scanning_stable {T : N → Prop} : scanContract.Stable p (Scanning p T) :=
  fun _ _ _ h hrely _ =>
    ⟨hrely.scanning.trans h.scanning, fun n hn => h.inUse n (hrely.inUse h.scanning n hn)⟩

/-- While a scan has read the pidfile of `n`. -/
structure Reading (p : Pid) (n : N) (T : N → Prop) (s : World N × ScanHistory N) : Prop
    extends Scanning p T s where
  reading : s.2.reading p = some n

theorem reading_stable {T : N → Prop} : scanContract.Stable p (Reading p n T) :=
  fun u v hu h hrely hv =>
    ⟨scanning_stable u v hu h.toScanning hrely hv, hrely.reading.trans h.reading⟩

theorem inUse_eq_true (hs : ScanInv s) : inUse s n = true ↔ InUse s n := by
  simp only [inUse, List.any_eq_true, Bool.and_eq_true, beq_iff_eq, InUse]
  constructor
  · rintro ⟨q, -, hq⟩
    exact ⟨q, hq⟩
  · rintro ⟨q, hq, huses⟩
    exact ⟨q, (hs.ok.pids q (World.ne_unborn_of_running hq)).1, hq, huses⟩

section Steps

variable {α : Type} {Q : α → World N × ScanHistory N → Prop} {T : N → Prop}

/-- A step of a scan, which makes no mount needed. -/
theorem scanning_perform {op : Op N} {k : op.Res → Code N α} (hinv : ScanInv s)
    (hs : Scanning p T s) (hgather : op ≠ .mark .gather) (hswept : op ≠ .mark .swept)
    (hsafe : ∀ v, ScanInv v → v.1.running p = true → Scanning p T v → SparesImages v p op)
    (h : ∀ v choice v' r, ScanInv v → Scanning p T v → findsImages v p op = true →
      exec v.1 p op choice = some (v'.1, r) → v'.2 = v.2.note v.1 p op r v'.1 →
      (∀ m, InUse v' m → InUse v m) → ScanInv v' → Scanning p T v' →
      scanContract.wp p (k r) Q v') :
    scanContract.wp p (Prog.perform op >>= k) Q s := by
  refine Contract.wp_perform scanning_stable hinv hs ?_
  intro v hv hinvv hrun hguard choice v' r hexec
  have hkeeps := scan_keeps hinvv hrun hexec hguard (hsafe v hinvv hrun hv)
  obtain ⟨hexec', hnote⟩ := exec_of_history hexec
  have hfewer : ∀ m, InUse v' m → InUse v m := fun m hm =>
    hinvv.inUse_of_exec hrun hexec hguard hrun hv.scanning hm
  refine ⟨hkeeps, fun _ => h v choice v' r hinvv hv hguard hexec' hnote hfewer hkeeps.inv ⟨?_, ?_⟩⟩
  · rw [hnote, ScanHistory.note_scanning_eq hgather hswept]
    exact hv.scanning
  · exact fun m hm => hv.inUse m (hfewer m hm)

/-- An action of a scan. -/
theorem scanning_act {a : Action N} {k : a.Res → Code N α} (hinv : ScanInv s)
    (hs : Scanning p T s)
    (hsafe : ∀ v, ScanInv v → v.1.running p = true → Scanning p T v → SparesImages v p (.action a))
    (h : ∀ v r, ScanInv v → Scanning p T v → scanContract.wp p (k r) Q v) :
    scanContract.wp p (act a >>= k) Q s :=
  scanning_perform hinv hs (by simp) (by simp) hsafe fun _ _ v' r _ _ _ _ _ _ hinv' hs' =>
    h v' r hinv' hs'

/-- A query of a scan that leaves no trace in the history. -/
theorem scanning_ask {K : World N × ScanHistory N → Prop} {q : Query N} {k : q.Res → Code N α}
    (hstable : scanContract.Stable p K) (hinv : ScanInv s) (hK : K s)
    (haccess : ∀ m, q ≠ .accessMnt m) (hread : ∀ m, q ≠ .readPid m)
    (h : ∀ v choice r, ScanInv v → K v → findsImages v p (.query q) = true →
      answer v.1 p q choice = some r → scanContract.wp p (k r) Q v) :
    scanContract.wp p (ask q >>= k) Q s := by
  refine Contract.wp_perform hstable hinv hK ?_
  intro v hv hinvv hrun hguard choice v' r hexec
  have hkeeps := scan_keeps hinvv hrun hexec hguard trivial
  obtain ⟨hexec', hnote⟩ := exec_of_history hexec
  obtain ⟨hw, hr⟩ := exec_query hexec'
  obtain rfl : v' = v := by
    refine Prod.ext hw (hnote.trans ?_)
    cases q with
    | accessMnt m => exact absurd rfl (haccess m)
    | readPid m => exact absurd rfl (hread m)
    | _ => rfl
  exact ⟨hkeeps, fun _ => h v' choice r hinvv hv hguard hr⟩

theorem scanning_ret {a : α} {T : α → N → Prop} (hinv : ScanInv s) (hs : Scanning p (T a) s) :
    scanContract.wp p (.ret a) (fun a v => Scanning p (T a) v) s :=
  Contract.wp_ret fun v hrely hv => scanning_stable s v hinv hs hrely hv

/-- The guard of a query, for a scan. -/
theorem findsInOrder_of_guard {q : Query N} (hs : s.2.scanning p = true)
    (hguard : findsImages s p (.query q) = true) : findsInOrder s p q = true := by
  simp only [findsImages, Bool.and_eq_true, Bool.or_eq_true] at hguard
  simpa [hs] using hguard.2

end Steps

/-! ### The first loop -/

section Gather

variable {T : N → Prop}

/-- `read_and_validate_pid` in a scan: a mount in use is found running. -/
theorem scanValidate_spec (hinv : ScanInv s) (hs : Scanning p T s) :
    scanContract.wp p (readAndValidatePid n)
      (fun res v => Scanning p (fun m => T m ∧ (res.1 ≠ .running → m ≠ n)) v) s := by
  have hret : ∀ v (res : Verdict × Pid), ScanInv v → Reading p n T v →
      (res.1 ≠ .running → ¬ InUse v n) → scanContract.wp p (.ret res)
        (fun res v => Scanning p (fun m => T m ∧ (res.1 ≠ .running → m ≠ n)) v) v := by
    intro v res hinvv hv hres
    have hv' : Scanning p (fun m => T m ∧ (res.1 ≠ .running → m ≠ n)) v :=
      hv.toScanning.mono fun m hm hT => ⟨hT, fun hne heq => hres hne (heq ▸ hm)⟩
    exact scanning_ret (T := fun (res : Verdict × Pid) m => T m ∧ (res.1 ≠ .running → m ≠ n))
      hinvv hv'
  refine scanning_perform hinv hs (by simp) (by simp) (fun _ _ _ _ => trivial) ?_
  intro v choice v' r hinvv hv hguard hexec hnote hfewer hinv' hs'
  obtain ⟨hw, hr⟩ := exec_query hexec
  obtain rfl : (v.1.files n).pid = r := Option.some.inj hr
  have hreading : Reading p n T v' := ⟨hs', by rw [hnote]; exact Function.update_self _ _ _⟩
  have horder := findsInOrder_of_guard hv.scanning hguard
  cases hpid : (v.1.files n).pid with
  | none =>
    refine hret v' _ hinv' hreading fun _ hn => ?_
    have := (inUse_eq_true hinvv).2 (hfewer n hn)
    simp [findsInOrder, this, hpid] at horder
  | some c =>
    refine scanning_ask reading_stable hinv' hreading (by simp) (by simp) ?_
    intro v₁ _ alive hinv₁ hv₁ hguard₁ hr₁
    obtain rfl : v₁.1.present c = alive := Option.some.inj hr₁
    have horder₁ := findsInOrder_of_guard hv₁.scanning hguard₁
    cases halive : v₁.1.present c with
    | false =>
      refine hret v₁ _ hinv₁ hv₁ fun _ hn => ?_
      have hvalid : v₁.1.valid c = true := by
        simpa [findsInOrder, hv₁.reading, (inUse_eq_true hinv₁).2 hn] using horder₁
      have hrunning : v₁.1.running c = true := by
        simp only [World.valid, Bool.and_eq_true] at hvalid
        exact hvalid.1.1
      simp [World.present, World.running_iff.1 hrunning] at halive
    | true =>
      refine scanning_ask reading_stable hinv₁ hv₁ (by simp) (by simp) ?_
      intro v₂ _ valid hinv₂ hv₂ hguard₂ hr₂
      obtain rfl : v₂.1.valid c = valid := Option.some.inj hr₂
      have horder₂ := findsInOrder_of_guard hv₂.scanning hguard₂
      cases hvalid : v₂.1.valid c with
      | false =>
        refine hret v₂ _ hinv₂ hv₂ fun _ hn => ?_
        simp [findsInOrder, hv₂.reading, (inUse_eq_true hinv₂).2 hn, hvalid] at horder₂
      | true => exact hret v₂ _ hinv₂ hv₂ fun hne => absurd rfl hne

theorem scanPrune_spec {α : Type} {k : Unit → Code N α} {Q : α → World N × ScanHistory N → Prop}
    (hinv : ScanInv s) (hs : Scanning p T s)
    (h : ∀ v, ScanInv v → Scanning p T v → scanContract.wp p (k ()) Q v) :
    scanContract.wp p (pruneStalePidfile n >>= k) Q s := by
  have htrivial : ∀ a, SparesImages (N := N) s p (.action (.unlinkPid a)) := fun _ => trivial
  refine scanning_act hinv hs (fun _ _ _ _ => trivial) fun v _ hinvv hv => ?_
  refine scanning_act hinvv hv (fun _ _ _ _ => trivial) fun v _ hinvv hv => ?_
  exact scanning_act hinvv hv (fun _ _ _ _ => trivial) fun v _ hinvv hv => h v hinvv hv

/-- **The first loop.**  What is in use ends up among the tracked. -/
theorem gatherTracked_spec (names tracked : List N) (hinv : ScanInv s)
    (hs : Scanning p (fun m => m ∈ tracked ∨ m ∈ names) s) :
    scanContract.wp p (gatherTracked tracked names)
      (fun found v => Scanning p (fun m => m ∈ found) v) s := by
  induction names generalizing tracked s with
  | nil =>
    have htracked : Scanning p (fun m => m ∈ tracked) s := hs.mono fun m _ hm =>
      hm.resolve_right (by simp)
    exact scanning_ret (T := fun found m => m ∈ found) hinv htracked
  | cons n rest ih =>
    unfold gatherTracked
    split
    · -- the table is full, and what is left unread is not in use
      refine scanning_perform hinv hs (by simp) (by simp) (fun _ _ _ _ => trivial) ?_
      intro v _ v' _ hinvv hv hguard _ _ hfewer hinv' hs'
      simp only [findsImages, hv.scanning, Bool.and_eq_true, Bool.not_true, Bool.false_or,
        List.all_eq_true, Bool.not_eq_true'] at hguard
      have htracked : Scanning p (fun m => m ∈ tracked) v' := hs'.mono fun m hm hT => by
        refine hT.resolve_right fun hmem => ?_
        have hfalse := hguard.2 m hmem
        rw [(inUse_eq_true hinvv).2 (hfewer m hm)] at hfalse
        cases hfalse
      exact scanning_ret (T := fun found m => m ∈ found) hinv' htracked
    · refine Contract.wp_seq (scanValidate_spec hinv hs) ?_
      rintro ⟨verdict, pid⟩ v hinvv hv
      by_cases hverdict : verdict = .running
      · simp only [if_pos hverdict]
        refine scanning_ask scanning_stable hinvv hv (by simp) (by simp) ?_
        intro v₁ _ mount hinv₁ hv₁ hguard₁ hr₁
        obtain rfl : (v₁.1.files n).mount = mount := Option.some.inj hr₁
        have horder₁ := findsInOrder_of_guard hv₁.scanning hguard₁
        cases hmount : (v₁.1.files n).mount with
        | true =>
          refine ih (n :: tracked) hinv₁ (hv₁.mono fun m _ hm => ?_)
          rcases hm.1 with htracked | hmem
          · exact Or.inl (List.mem_cons_of_mem n htracked)
          · rcases List.mem_cons.1 hmem with rfl | hrest
            · exact Or.inl List.mem_cons_self
            · exact Or.inr hrest
        | false =>
          refine ih tracked hinv₁ (hv₁.mono fun m hm hT => hT.1.imp_right fun hmem => ?_)
          refine (List.mem_cons.1 hmem).resolve_left fun heq => ?_
          simp [findsInOrder, (inUse_eq_true hinv₁).2 (heq ▸ hm), hmount] at horder₁
      · simp only [if_neg hverdict]
        have hnext : Scanning p (fun m => m ∈ tracked ∨ m ∈ rest) v := hv.mono fun m _ hm =>
          hm.1.imp_right fun hmem => (List.mem_cons.1 hmem).resolve_left (hm.2 hverdict)
        by_cases hpid : pid = 0
        · rw [if_pos hpid]
          exact scanPrune_spec hinvv hnext fun v hinvv hv => ih tracked hinvv hv
        · rw [if_neg hpid]
          exact ih tracked hinvv hnext

end Gather

/-! ### The second loop -/

section Sweep

variable {tracked : List N}

omit [DecidableEq N] in
/-- No start is about to mount while a scan runs. -/
theorem sparesImages_rmdir (hinv : ScanInv s) (hrun : s.1.running p = true) :
    SparesImages s p (.action (.rmdirMnt n)) := fun hscan q hq => by
  rw [hinv.quiet p q hrun hscan hq]
  simp

theorem scanRmdir_spec {T : N → Prop} (hinv : ScanInv s) (hs : Scanning p T s) :
    scanContract.wp p (act (.rmdirMnt n)) (fun _ v => Scanning p T v) s :=
  scanning_act (k := .ret) hinv hs (fun _ hv hrun _ => sparesImages_rmdir hv hrun)
    fun _ _ hv hs' => scanning_ret (T := fun _ => T) hv hs'

theorem scanUnmount_spec (hn : n ∉ tracked) (hinv : ScanInv s)
    (hs : Scanning p (fun m => m ∈ tracked) s) :
    scanContract.wp p (unmountRootfsImg n) (fun _ v => Scanning p (fun m => m ∈ tracked) v) s := by
  have humount : ∀ v, ScanInv v → v.1.running p = true → Scanning p (fun m => m ∈ tracked) v →
      SparesImages v p (.action (.umount n)) := fun v _ _ hv _ huse => hn (hv.inUse n huse)
  refine scanning_act hinv hs humount fun v _ hinvv hv => ?_
  refine scanning_ask scanning_stable hinvv hv (by simp) (by simp) fun v _ still hinvv hv _ _ => ?_
  cases still with
  | true => exact scanning_act hinvv hv humount fun v _ hinvv hv => scanRmdir_spec hinvv hv
  | false => exact scanRmdir_spec hinvv hv

/-- **The second loop.**  Only what is not tracked is unmounted. -/
theorem sweepOrphans_spec (names : List N) (hinv : ScanInv s)
    (hs : Scanning p (fun m => m ∈ tracked) s) :
    scanContract.wp p (sweepOrphans tracked names)
      (fun _ v => Scanning p (fun m => m ∈ tracked) v) s := by
  induction names generalizing s with
  | nil => exact scanning_ret (T := fun _ m => m ∈ tracked) hinv hs
  | cons n rest ih =>
    refine scanning_ask scanning_stable hinv hs (by simp) (by simp) ?_
    intro v _ mounted hinvv hv _ _
    cases mounted with
    | true =>
      by_cases hn : n ∈ tracked
      · simp only [if_true, not_not.2 hn, if_false]
        exact ih hinvv hv
      · simp only [if_true, if_pos hn]
        exact Contract.wp_seq (scanUnmount_spec hn hinvv hv)
          fun _ w hinvw hw => ih hinvw hw
    | false =>
      exact Contract.wp_seq (scanRmdir_spec hinvv hv)
        fun _ w hinvw hw => ih hinvw hw

end Sweep

/-! ### The scan -/

theorem beforeScan_stable : (scanContract (N := N)).Stable p (BeforeScan p) := by
  intro u v _ h hrely _
  have hp := hrely.later.procs p h.born
  exact ⟨hp.ne_unborn h.born, by rw [hp.entry]; exact h.entry, hrely.scanning.trans h.scanning⟩

theorem beforeScan_keeping {op : Op N} (hgather : op ≠ .mark .gather) :
    scanContract.Keeping p (BeforeScan p) _ (perform op) := by
  intro s hinv hs
  refine Contract.wp_perform (k := .ret) beforeScan_stable hinv hs ?_
  intro v hv hinvv hrun hguard choice v' r hexec
  have hsafe : SparesImages v p op := by
    unfold SparesImages
    split
    · exact fun hscan => by simp [hv.scanning] at hscan
    · exact fun hscan => by simp [hv.scanning] at hscan
    · trivial
  have hkeeps := scan_keeps hinvv hrun hexec hguard hsafe
  refine ⟨hkeeps, fun _ => Contract.wp_ret_of_stable beforeScan_stable hkeeps.inv ?_⟩
  obtain ⟨hexec', hnote⟩ := exec_of_history hexec
  have hp := (exec_later hrun hexec').procs p hv.born
  refine ⟨hp.ne_unborn hv.born, by rw [hp.entry]; exact hv.entry, ?_⟩
  rw [hnote, Bool.eq_false_iff]
  intro hscan
  rcases ScanHistory.note_scanning hscan with hold | ⟨-, hop, -⟩
  · simp [hv.scanning] at hold
  · exact hgather hop

theorem syncAmong_keeping (pids : List Pid) :
    scanContract.Keeping p (BeforeScan p) _ (syncAmong pids : Code N Unit) := by
  have hcomp := Contract.keeping_compositional (beforeScan_stable (N := N) (p := p))
  have hop : ∀ op : Op N, op ≠ .mark .gather → scanContract.Keeping p (BeforeScan p) _
      (perform op) := fun _ => beforeScan_keeping
  have hsync : ∀ q, scanContract.Keeping p (BeforeScan p) _ (metadataSync q : Code N Unit) := by
    intro q
    unfold metadataSync
    split
    · exact hcomp.ret _
    refine hcomp.bind _ _ (hop _ (by simp)) fun valid => ?_
    split
    · exact hcomp.ret _
    refine hcomp.bind _ _ (hop _ (by simp)) fun name => ?_
    cases name with
    | none => exact hcomp.ret _
    | some n =>
      have hmount : scanContract.Keeping p (BeforeScan p) _ (do
          if ¬ (← ask (.readMount n)) then
            if ← ask (.mountMarker q) then
              act (.writeMount n) : Code N Unit) := by
        refine hcomp.bind _ _ (hop _ (by simp)) fun recorded => ?_
        split
        · refine hcomp.bind _ _ (hop _ (by simp)) fun marker => ?_
          split
          · exact hop _ (by simp)
          · exact hcomp.ret _
        · exact hcomp.ret _
      refine hcomp.bind _ _ (hop _ (by simp)) fun present => ?_
      split
      · exact hcomp.bind _ _ (hop _ (by simp)) fun _ => hmount
      · exact hmount
  induction pids with
  | nil => exact hcomp.ret _
  | cons q rest ih =>
    unfold syncAmong
    split
    · refine hcomp.bind _ _ (hop _ (by simp)) fun valid => ?_
      split
      · exact hcomp.bind _ _ (hsync q) fun _ => ih
      · exact ih
    · exact ih

/-- The opening of `Pids/`. -/
theorem gatherMark_spec {α : Type} {k : Unit → Code N α} {Q : α → World N × ScanHistory N → Prop}
    (hinv : ScanInv s) (hs : BeforeScan p s)
    (h : ∀ v, ScanInv v → Scanning p (fun _ => True) v → scanContract.wp p (k ()) Q v) :
    scanContract.wp p (mark .gather >>= k) Q s := by
  refine Contract.wp_perform beforeScan_stable hinv hs ?_
  intro v hv hinvv hrun hguard choice v' r hexec
  have hkeeps := scan_keeps hinvv hrun hexec hguard trivial
  refine ⟨hkeeps, fun _ => h v' hkeeps.inv ⟨?_, fun _ _ => trivial⟩⟩
  rw [(exec_of_history hexec).2, ScanHistory.note, hv.entry]
  exact Function.update_self _ _ _

theorem scanContainers_spec (hinv : ScanInv s) (hs : BeforeScan p s) :
    scanContract.wp p (scanContainers : Code N Unit) (fun _ _ => True) s := by
  have hcollect : scanContract.Keeping p (BeforeScan p) _ (ask .collectPids : Code N _) :=
    beforeScan_keeping (by simp)
  refine Contract.wp_seq (hcollect s hinv hs) fun pids v hinvv hv => ?_
  refine Contract.wp_seq (syncAmong_keeping pids v hinvv hv) ?_
  refine fun _ v hinvv hv => gatherMark_spec hinvv hv fun v hinvv hv => ?_
  -- whatever is in use is listed
  refine scanning_ask scanning_stable hinvv hv (by simp) (by simp) ?_
  intro v _ names hinvv hv hguard hr
  obtain rfl : (v.1.names.filter fun n => (v.1.files n).pid.isSome) = names := Option.some.inj hr
  have horder := findsInOrder_of_guard hv.scanning hguard
  simp only [findsInOrder, List.all_eq_true] at horder
  have hlisted : Scanning p (fun m => m ∈ ([] : List N) ∨
      m ∈ v.1.names.filter fun n => (v.1.files n).pid.isSome) v := hv.mono fun m hm _ => by
    obtain ⟨q, hq, huses⟩ := hm
    have hpid := horder q (hinvv.ok.pids q (World.ne_unborn_of_running hq)).1
    simp only [hq, huses, Bool.not_true, Bool.false_or, Option.all_some] at hpid
    exact Or.inr (List.mem_filter.2 ⟨hinvv.ok.listed.1 m hpid, hpid⟩)
  refine Contract.wp_seq (gatherTracked_spec _ [] hinvv hlisted) ?_
  intro tracked v hinvv hv
  refine scanning_perform hinvv hv (by simp) (by simp) (fun _ _ _ _ => trivial) ?_
  intro _ _ v _ _ _ _ _ _ _ hinvv hv
  refine scanning_ask scanning_stable hinvv hv (by simp) (by simp) fun v _ mounts hinvv hv _ _ => ?_
  refine Contract.wp_seq (sweepOrphans_spec mounts hinvv hv) ?_
  intro _ v hinvv hv
  refine Contract.wp_perform (k := .ret) scanning_stable hinvv hv ?_
  intro v _ hinvv hrun hguard choice v' r hexec
  exact ⟨scan_keeps hinvv hrun hexec hguard trivial, fun _ => Contract.wp_ret fun _ _ _ => trivial⟩

/-! ## The theorem -/

theorem scan_sound : (scanContract (N := N)).Sound where
  code := by
    rintro e p s hinv (rfl | hno | ⟨rfl, hbefore⟩)
    · exact Contract.wp_ret fun _ _ _ => Or.inl rfl
    · exact Contract.wp_mono (noScan_keeps _ hinv hno) fun _ _ _ h => Or.inr (Or.inl h)
    · refine Contract.wp_seq (scanContainers_spec hinv hbefore) ?_
      intro _ v hinvv _
      refine Contract.wp_perform (Contract.stable_true _ p) hinvv trivial ?_
      intro v _ hinvv hrun hguard choice v' r hexec
      exact ⟨scan_keeps hinvv hrun hexec hguard trivial, fun _ =>
        Contract.wp_ret fun _ _ _ => Or.inl rfl⟩
  env := by
    rintro w e ⟨v, g⟩ ch hinv _ henv
    obtain ⟨hv, hg⟩ := hostEnv_of_history henv
    obtain rfl : g = w.2 := hg
    have hlater := hostEnv_later hv
    have hfewer : ∀ q, v.running q = true → w.2.uses q ≠ none ∨ w.2.pending q ≠ none ∨
        w.2.scanning q = true → w.1.running q = true := by
      intro q hq hsome
      refine hlater.running (fun hunborn => ?_) hq
      obtain ⟨huses, hpending, hscanning⟩ := hinv.unborn q hunborn
      rcases hsome with h | h | h
      · exact h huses
      · exact h hpending
      · rw [hscanning] at h
        cases h
    refine ⟨⟨hostEnv_ok hinv.ok hv, fun q hq => ?_, fun p q hp hscan hq => ?_⟩, fun q hq => ?_, ?_⟩
    · refine hinv.unborn q ?_
      by_contra hne
      exact (hlater.procs q hne).ne_unborn hne hq
    · by_contra hsome
      exact hsome (hinv.quiet p q (hfewer p hp (Or.inr (Or.inr hscan))) hscan
        (hfewer q hq (Or.inr (Or.inl hsome))))
    · refine ⟨hlater, rfl, rfl, fun _ n ⟨x, hx, huses⟩ => ⟨x, hfewer x hx (Or.inl ?_), huses⟩⟩
      rw [huses]
      simp
    · rintro q e' rfl
      obtain ⟨hunborn, hborn, -⟩ := hostEnv_child hv
      exact scanPre_of_born hborn (hinv.unborn q hunborn).2.2

/-- Nothing has happened yet. -/
def scannedStart (w : World N) :
    Machine.State Pid (World N × ScanHistory N) (Op N) (Entry N) Op.Res :=
  ⟨(w, .empty), fun _ => .ret .exited⟩

/-- **A scan spares images in use.**  In every run from a booted host whose scans run while no start
or restart is on its way and find the tracking files of the mounts in use in order, no scan
unmounts an image in use or removes the directory that a start is about to mount on. -/
theorem scan_spares_images (w : World N) (hw : w.Booted)
    (es : List (Machine.Event Pid (HostEvent N)))
    (hguard : scannedLifecycle.GuardedBy (fun s p op => findsImages s p op = true)
      Machine.anyEnv (scannedStart w) es) :
    scannedLifecycle.toSystem.Along (fun s e _ => Machine.admits SparesImages Machine.anyEnv s e)
      (scannedStart w) es := by
  have hspawns := (lifecycle_spawns (N := N)).withGhost ScanHistory.note fun g _ _ _ => g
  have hholds : scanContract.Holds (scannedStart w) := by
    refine ⟨⟨hw.ok, ?_, ?_⟩, fun p hp => absurd (hw.unborn p) (World.ne_unborn_of_running hp)⟩ <;>
      simp [scannedStart, ScanHistory.empty]
  exact scan_sound.along hspawns hholds hguard

/-! ## A scan beside a start -/

section ScanBesideStart

open Machine

/-- A scan unmounts an image that a process needs. -/
def unmountsInUse (s : World N × ScanHistory N) (p : Pid) : Op N → Bool
  | .action (.umount n) => s.2.scanning p && inUse s n
  | _ => false

theorem SparesImages.of_unmountsInUse (s : World N × ScanHistory N) (p : Pid)
    (op : Op N) (h : SparesImages s p op) : unmountsInUse s p op = false := by
  unfold unmountsInUse
  split
  · rw [Bool.and_eq_false_iff, or_iff_not_imp_left, Bool.not_eq_false]
    intro hscan
    rw [Bool.eq_false_iff]
    intro hin
    simp only [inUse, List.any_eq_true, Bool.and_eq_true, beq_iff_eq] at hin
    obtain ⟨q, -, hq⟩ := hin
    exact h hscan ⟨q, hq⟩
  · rfl

/-- **A scan unmounts the image of a start.**  The start has mounted its image and has not forked
yet; the scan finds a mount that no pidfile accounts for. -/
theorem scan_unmounts_starting_image :
    ∃ es, ¬ (scannedLifecycle (N := Unit)).toSystem.Along
      (fun s e _ => Machine.admits SparesImages Machine.anyEnv s e)
      (scannedStart (World.idle aBoot)) es := by
  refine ⟨.env (.spawn 1 (.start (.image ()))) :: turns 1 7 ++
    .env (.spawn 50 .scanContainers) :: turns 50 8, fun halong => ?_⟩
  have hnone : (scannedLifecycle (N := Unit)).toSystem.Along
      (fun s e _ => Machine.admits (fun s p op => unmountsInUse s p op = false) Machine.anyEnv s e)
      _ _ := System.along_mono _ (fun s e _ => admits_mono SparesImages.of_unmountsInUse) halong
  revert hnone
  decide +kernel

/-- The start has saved its tracking files before the scan runs. -/
theorem scan_spares_images_inTurn :
    (∃ t, (scannedLifecycle (N := Unit)).toSystem.run (scannedStart (World.idle aBoot))
        (imageBoot ++ .env (.spawn 50 .scanContainers) :: turns 50 19) = some t ∧
      (t.world.1.files ()).mnt = 1 ∧ inUse t.world () = true) ∧
    (scannedLifecycle (N := Unit)).toSystem.Along
      (fun s e _ => Machine.admits SparesImages Machine.anyEnv s e)
      (scannedStart (World.idle aBoot))
      (imageBoot ++ .env (.spawn 50 .scanContainers) :: turns 50 19) := by
  refine ⟨?_, scan_spares_images _ (World.idle_booted aBoot) _ (by decide +kernel)⟩
  have hturn : (((scannedLifecycle (N := Unit)).toSystem.run (scannedStart (World.idle aBoot))
      (imageBoot ++ .env (.spawn 50 .scanContainers) :: turns 50 19)).any fun t =>
        (t.world.1.files ()).mnt == 1 && inUse t.world ()) = true := by
    decide +kernel
  obtain ⟨t, hrun, ht⟩ := (Option.any_eq_true _ _).1 hturn
  simp only [Bool.and_eq_true, beq_iff_eq] at ht
  exact ⟨t, hrun, ht.1, ht.2⟩

end ScanBesideStart

end Droidspaces
