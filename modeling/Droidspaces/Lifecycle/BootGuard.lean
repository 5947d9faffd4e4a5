import Droidspaces.Lifecycle.Evolution

/-!
# One live instance per name

Start takes no lock.  What keeps two inits of one name apart is checked three times (by the
parent, by the monitor and by the boot guard of `internal_boot`), always with
`is_container_running`, against a pidfile that the parent writes after the fork and against
markers that an init writes long after its guard.

So an init that is already past its guard need not be visible to a later one:
`two_starts_pass_the_guard` runs two starts side by side and both inits pass.  What does hold is
stated with the guard `SeesOthers`: when an init reads the pidfile in its boot guard, every other
live init of the name whose guard has begun already shows its marker, and is named by the pidfile
or carries the same UUID.  Then `bootGuard_admits_one`: at most one init that passed is alive.

The argument orders the inits by the moment their guard began (`GuardHistory.seen`) and follows
one init through `is_container_running`: whoever began before it either stops it or is dead when
it passes.
-/

namespace Droidspaces

open Transition

variable {N : Type} [DecidableEq N]

/-! ## History -/

/-- Which inits have begun their boot guard (latest first), whom each of them had before it, and
which have passed. -/
structure GuardHistory where
  begun : List Pid
  seen : Pid → List Pid
  passed : List Pid

def GuardHistory.empty : GuardHistory where
  begun := []
  seen := fun _ => []
  passed := []

def Role.isInit : Role N → Bool
  | .init _ => true
  | _ => false

/-- The guard of an init begins with its first read of the pidfile. -/
def GuardHistory.note (g : GuardHistory) (w : World N) (p : Pid) (op : Op N) (_ : op.Res)
    (_ : World N) : GuardHistory :=
  match op with
  | .query (.readPid _) =>
    if (w.procs p).role.isInit && !g.begun.contains p then
      { g with begun := p :: g.begun, seen := Function.update g.seen p g.begun }
    else g
  | .mark (.bootPassed _) => { g with passed := p :: g.passed }
  | _ => g

/-- The lifecycle machine with the history of its boot guards. -/
def guardedBoot : Machine Pid (World N × GuardHistory) (Op N) (Entry N) (HostEvent N) Op.Res :=
  lifecycle.withGhost GuardHistory.note fun g _ _ _ => g

/-- **At most one instance.** -/
def OneInstance (n : N) (s : World N × GuardHistory) : Prop :=
  ∀ p q, s.1.running p = true → s.1.running q = true → (s.1.procs p).role = .init n →
    (s.1.procs q).role = .init n → p ∈ s.2.passed → q ∈ s.2.passed → p = q

/-- The UUID that an entry was given. -/
def Entry.uuid : Entry N → Option Uuid
  | .init cfg => cfg.uuid
  | _ => none

/-- The guard: when an init of `n` reads the pidfile in its boot guard, it can find every other
live init of `n` whose guard has begun. -/
def SeesOthers (n : N) (s : World N × GuardHistory) (p : Pid) : Op N → Bool
  | .query (.readPid _) =>
    !((s.1.procs p).role == .init n && !s.2.begun.contains p) ||
      s.2.begun.all fun q =>
        q == p || !((s.1.procs q).role == .init n && s.1.running q) ||
          ((s.1.procs q).marked && ((s.1.files n).pid == some q ||
            ((s.1.procs p).entry.uuid.any fun u => (s.1.procs q).uuids.contains u)))
  | _ => true

/-! ## The contract -/

/-- `q` began its guard before `p` did and is a live init of the same name. -/
structure Threat (n : N) (p : Pid) (s : World N × GuardHistory) (q : Pid) : Prop where
  seen : q ∈ s.2.seen p
  ne : q ≠ p
  role : (s.1.procs q).role = .init n
  running : s.1.running q = true

structure BootInv (n : N) (s : World N × GuardHistory) : Prop where
  ok : s.1.Ok
  born : ∀ p ∈ s.2.begun, (s.1.procs p).life ≠ .unborn
  seen : ∀ p, ∀ q ∈ s.2.seen p, q ∈ s.2.begun
  order : ∀ p ∈ s.2.begun, ∀ q ∈ s.2.begun, p ≠ q → q ∈ s.2.seen p ∨ p ∈ s.2.seen q
  passed : ∀ p ∈ s.2.passed, (s.1.procs p).life ≠ .unborn ∧
    ((s.1.procs p).role = .init n → p ∈ s.2.begun ∧ ∀ q, ¬ Threat n p s q)

/-- What `p` relies on: its own history and container root are its own business. -/
structure BootRely (p : Pid) (s t : World N × GuardHistory) : Prop where
  later : s.1.Later t.1
  marked : (s.1.procs p).life ≠ .unborn → (t.1.procs p).marked = (s.1.procs p).marked
  begun : p ∈ t.2.begun ↔ p ∈ s.2.begun
  seen : t.2.seen p = s.2.seen p
  passed : p ∈ t.2.passed ↔ p ∈ s.2.passed

/-- An init of `n` before its guard. -/
structure Fresh (cfg : Config N) (p : Pid) (s : World N × GuardHistory) : Prop where
  born : (s.1.procs p).life ≠ .unborn
  entry : (s.1.procs p).entry = .init cfg
  marked : (s.1.procs p).marked = false
  begun : p ∉ s.2.begun

/-- No init of `n`: what such a process does never matters here. -/
structure Bystander (n : N) (p : Pid) (s : World N × GuardHistory) : Prop where
  born : (s.1.procs p).life ≠ .unborn
  role : (s.1.procs p).role ≠ .init n

/-- An init that passed: it has seen nobody, and no operation of its own changes that. -/
structure Passed (n : N) (p : Pid) (s : World N × GuardHistory) : Prop where
  begun : p ∈ s.2.begun
  clear : ∀ q, ¬ Threat n p s q

def bootContract (n : N) : Contract (guardedBoot (N := N)) where
  inv := BootInv n
  rely := BootRely
  guard s p op := SeesOthers n s p op = true
  guardEnv := Machine.anyEnv
  safe _ _ _ := True
  pre e p s := e = .exited ∨ Bystander n p s ∨ Passed n p s ∨
    ∃ cfg, e = .init cfg ∧ cfg.name = n ∧ Fresh cfg p s
  rely_refl _ _ := ⟨World.Later.refl _, fun _ => rfl, Iff.rfl, rfl, Iff.rfl⟩
  rely_trans := by
    intro p u v w huv hvw
    refine ⟨huv.later.trans hvw.later, fun hp => ?_, hvw.begun.trans huv.begun,
      hvw.seen.trans huv.seen, hvw.passed.trans huv.passed⟩
    rw [hvw.marked ((huv.later.procs p hp).ne_unborn hp), huv.marked hp]

/-! ## Single operations -/

variable {n : N} {p : Pid} {s t : World N × GuardHistory} {choice : ℕ}

omit [DecidableEq N] in
/-- What one operation does to the history. -/
theorem GuardHistory.note_cases (g : GuardHistory) (w w' : World N) (op : Op N) (r : op.Res) :
    g.note w p op r w' = g ∨
    (p ∉ g.begun ∧ (w.procs p).role.isInit = true ∧ (∃ m, op = .query (.readPid m)) ∧
      g.note w p op r w' =
        { g with begun := p :: g.begun, seen := Function.update g.seen p g.begun }) ∨
    (∃ m, op = .mark (.bootPassed m)) ∧
      g.note w p op r w' = { g with passed := p :: g.passed } := by
  unfold GuardHistory.note
  split
  · next m _ =>
    split
    · next h =>
      simp only [Bool.and_eq_true, Bool.not_eq_true', List.contains_eq_mem,
        decide_eq_false_iff_not] at h
      exact Or.inr (Or.inl ⟨h.2, h.1, ⟨m, rfl⟩, rfl⟩)
    · exact Or.inl rfl
  · next m _ => exact Or.inr (Or.inr ⟨⟨m, rfl⟩, rfl⟩)
  · exact Or.inl rfl

omit [DecidableEq N] in
theorem Threat.of_later {q : Pid} (hinv : BootInv n s) (hlater : s.1.Later t.1)
    (hseen : t.2.seen p = s.2.seen p) (h : Threat n p t q) : Threat n p s q := by
  have hq : q ∈ s.2.seen p := hseen ▸ h.seen
  have hborn := hinv.born q (hinv.seen p q hq)
  refine ⟨hq, h.ne, ?_, hlater.running hborn h.running⟩
  rw [← (hlater.procs q hborn).role]
  exact h.role

/-- The invariant survives every operation; only a pass through the guard has to be earned. -/
theorem BootInv.step {op : Op N} {r : op.Res} (hinv : BootInv n s) (hrun : s.1.running p = true)
    (h : guardedBoot.exec s p op choice = some (t, r))
    (hpass : ∀ m, op = .mark (.bootPassed m) → (s.1.procs p).role = .init n →
      p ∈ s.2.begun ∧ ∀ q, ¬ Threat n p s q) : BootInv n t := by
  obtain ⟨hexec, hnote⟩ := exec_of_history h
  have hlater := exec_later hrun hexec
  have hborn : ∀ q, (s.1.procs q).life ≠ .unborn → (t.1.procs q).life ≠ .unborn := fun q hq =>
    (hlater.procs q hq).ne_unborn hq
  have hok := exec_ok hinv.ok hrun hexec
  have hold : ∀ q ∈ s.2.passed, t.2.seen q = s.2.seen q → (t.1.procs q).role = .init n →
      q ∈ s.2.begun ∧ ∀ x, ¬ Threat n q t x := by
    intro q hq hseen hrole
    obtain ⟨hqborn, hthreat⟩ := hinv.passed q hq
    rw [(hlater.procs q hqborn).role] at hrole
    obtain ⟨hbegun, hno⟩ := hthreat hrole
    exact ⟨hbegun, fun x hx => hno x (hx.of_later hinv hlater hseen)⟩
  rcases s.2.note_cases s.1 t.1 op r with hsame | ⟨hnot, -, -, hbegin⟩ | ⟨⟨m, hop⟩, hpassed⟩
  · rw [hsame] at hnote
    refine ⟨hok, ?_, ?_, ?_, ?_⟩
    · rw [hnote]
      exact fun q hq => hborn q (hinv.born q hq)
    · rw [hnote]
      exact hinv.seen
    · rw [hnote]
      exact hinv.order
    · intro q hq
      rw [hnote] at hq
      refine ⟨hborn q (hinv.passed q hq).1, fun hrole => ?_⟩
      rw [hnote]
      have := hold q hq (by rw [hnote]) hrole
      rwa [← hnote] at this ⊢
  · -- a guard begins: the newcomer has everybody else before it
    rw [hbegin] at hnote
    have hseen : ∀ q, q ≠ p → t.2.seen q = s.2.seen q := fun q hq => by
      rw [hnote]
      exact Function.update_of_ne hq _ _
    have hself : t.2.seen p = s.2.begun := by
      rw [hnote]
      exact Function.update_self _ _ _
    have hmem : ∀ q, q ∈ t.2.begun ↔ q = p ∨ q ∈ s.2.begun := fun q => by
      rw [hnote]
      exact List.mem_cons
    refine ⟨hok, ?_, ?_, ?_, ?_⟩
    · intro q hq
      rcases (hmem q).1 hq with rfl | hq
      · exact hborn q (World.ne_unborn_of_running hrun)
      · exact hborn q (hinv.born q hq)
    · intro a q hq
      refine (hmem q).2 (Or.inr ?_)
      by_cases hap : a = p
      · subst hap
        rwa [hself] at hq
      · rw [hseen a hap] at hq
        exact hinv.seen a q hq
    · intro a ha b hb hab
      rcases (hmem a).1 ha with rfl | ha
      · left
        rw [hself]
        exact ((hmem b).1 hb).resolve_left (Ne.symm hab)
      · rcases (hmem b).1 hb with rfl | hb
        · right
          rw [hself]
          exact ha
        · have hap : a ≠ p := fun heq => hnot (heq ▸ ha)
          have hbp : b ≠ p := fun heq => hnot (heq ▸ hb)
          rw [hseen a hap, hseen b hbp]
          exact hinv.order a ha b hb hab
    · intro q hq
      have hq : q ∈ s.2.passed := by rwa [hnote] at hq
      refine ⟨hborn q (hinv.passed q hq).1, fun hrole => ?_⟩
      have hrole' := hrole
      rw [(hlater.procs q (hinv.passed q hq).1).role] at hrole'
      have hbegun := ((hinv.passed q hq).2 hrole').1
      have hqp : q ≠ p := fun heq => hnot (heq ▸ hbegun)
      exact ⟨(hmem q).2 (Or.inr hbegun), (hold q hq (hseen q hqp) hrole).2⟩
  · rw [hpassed] at hnote
    have hseen : ∀ q, t.2.seen q = s.2.seen q := fun q => by rw [hnote]
    have hbegun : t.2.begun = s.2.begun := by rw [hnote]
    refine ⟨hok, ?_, ?_, ?_, ?_⟩
    · rw [hbegun]
      exact fun q hq => hborn q (hinv.born q hq)
    · intro a q hq
      rw [hseen] at hq
      rw [hbegun]
      exact hinv.seen a q hq
    · rw [hbegun]
      simp only [hseen]
      exact hinv.order
    · intro q hq
      have hq : q = p ∨ q ∈ s.2.passed := by
        rw [hnote] at hq
        exact List.mem_cons.1 hq
      rw [hbegun]
      rcases hq with rfl | hq
      · have hqborn := World.ne_unborn_of_running hrun
        refine ⟨hborn q hqborn, fun hrole => ?_⟩
        rw [(hlater.procs q hqborn).role] at hrole
        obtain ⟨hmem, hno⟩ := hpass m hop hrole
        exact ⟨hmem, fun x hx => hno x (hx.of_later hinv hlater (hseen q))⟩
      · exact ⟨hborn q (hinv.passed q hq).1, hold q hq (hseen q)⟩

/-- Nobody else's operation disturbs what `q` relies on. -/
theorem bootRely_of_exec {op : Op N} {r : op.Res} {q : Pid} (hrun : s.1.running p = true)
    (hq : q ≠ p) (h : guardedBoot.exec s p op choice = some (t, r)) : BootRely q s t := by
  obtain ⟨hexec, hnote⟩ := exec_of_history h
  have hlater := exec_later hrun hexec
  have hmarked := fun hborn => (exec_sameRoot hq hborn hexec).marked
  rcases s.2.note_cases s.1 t.1 op r with hsame | ⟨-, -, -, hbegin⟩ | ⟨-, hpassed⟩
  · rw [hsame] at hnote
    exact ⟨hlater, hmarked, by rw [hnote], by rw [hnote], by rw [hnote]⟩
  · rw [hbegin] at hnote
    exact ⟨hlater, hmarked, by rw [hnote]; simp [hq],
      by rw [hnote]; exact Function.update_of_ne hq _ _, by rw [hnote]⟩
  · rw [hpassed] at hnote
    exact ⟨hlater, hmarked, by rw [hnote], by rw [hnote], by rw [hnote]; simp [hq]⟩

/-- A new process is where its entry wants it to be. -/
theorem bootPre_of_born {e : Entry N} {q : Pid} {parent : Pid} {out : Option Pid}
    {cg : Option N} (hinv : BootInv n s) (hunborn : (s.1.procs q).life = .unborn)
    (hq : t.1.procs q = Proc.newborn e parent out cg) (hbegun : q ∈ t.2.begun → q ∈ s.2.begun) :
    (bootContract n).pre e q t := by
  have hlife : (t.1.procs q).life ≠ .unborn := by
    rw [hq]
    simp [Proc.newborn]
  cases e with
  | init cfg =>
    by_cases hname : cfg.name = n
    · refine Or.inr (Or.inr (Or.inr ⟨cfg, rfl, hname, hlife, by rw [hq]; rfl, by rw [hq]; rfl, ?_⟩))
      exact fun hmem => hinv.born q (hbegun hmem) hunborn
    · refine Or.inr (Or.inl ⟨hlife, fun hrole => hname ?_⟩)
      rw [hq] at hrole
      exact Role.init.inj hrole
  | _ =>
    refine Or.inr (Or.inl ⟨hlife, ?_⟩)
    rw [hq]
    simp [Proc.role, Proc.newborn, Entry.role]

theorem boot_keeps {op : Op N} {r : op.Res} (hinv : BootInv n s) (hrun : s.1.running p = true)
    (h : guardedBoot.exec s p op choice = some (t, r))
    (hpass : ∀ m, op = .mark (.bootPassed m) → (s.1.procs p).role = .init n →
      p ∈ s.2.begun ∧ ∀ q, ¬ Threat n p s q) : (bootContract n).Keeps p s op t r where
  safe := trivial
  inv := hinv.step hrun h hpass
  rely q hq _ := bootRely_of_exec hrun hq h
  child q e hch := by
    obtain ⟨hexec, hnote⟩ := exec_of_history h
    obtain ⟨hunborn, hborn⟩ := exec_child hexec hch
    refine bootPre_of_born hinv hunborn hborn fun hmem => ?_
    rcases s.2.note_cases s.1 t.1 op r with hsame | ⟨-, -, -, hbegin⟩ | ⟨-, hpassed⟩
    · rwa [hnote, hsame] at hmem
    · rw [hnote, hbegin] at hmem
      refine (List.mem_cons.1 hmem).resolve_left fun heq => ?_
      exact World.ne_unborn_of_running hrun (heq ▸ hunborn)
    · rwa [hnote, hpassed] at hmem

/-! ## Programs -/

omit [DecidableEq N] in
theorem Bystander.later (h : Bystander n p s) (hlater : s.1.Later t.1) : Bystander n p t := by
  have hp := hlater.procs p h.born
  exact ⟨hp.ne_unborn h.born, by rw [hp.role]; exact h.role⟩

theorem bystander_stable : (bootContract n).Stable p (Bystander n p) :=
  fun _ _ _ hu hrely _ => hu.later hrely.later

/-- Processes that are no inits of `n` may run any program. -/
theorem bystander_keeps {α : Type} (m : Code N α) (hinv : BootInv n s) (hp : Bystander n p s) :
    (bootContract n).wp p m (fun _ t => Bystander n p t) s := by
  refine Contract.wp_of_stable bystander_stable ?_ m hinv hp
  intro v op choice v' r hv hinv hrun _ hexec
  refine ⟨boot_keeps hinv hrun hexec fun _ _ hrole => absurd hrole hv.role, fun _ => ?_⟩
  exact hv.later (exec_later hrun (exec_of_history hexec).1)

/-! ### The boot guard -/

variable {cfg : Config N} {α : Type}

/-- An init inside its guard: every threat left shows its marker and has the property `H`. -/
structure Facing (cfg : Config N) (p : Pid) (H : Pid → World N → Prop)
    (s : World N × GuardHistory) : Prop where
  born : (s.1.procs p).life ≠ .unborn
  entry : (s.1.procs p).entry = .init cfg
  marked : (s.1.procs p).marked = false
  begun : p ∈ s.2.begun
  known : ∀ q, Threat cfg.name p s q → (s.1.procs q).marked = true ∧ H q s.1

/-- The property is not lost as time goes by. -/
def Lasting (H : Pid → World N → Prop) : Prop :=
  ∀ q w w', w.Later w' → (w.procs q).life ≠ .unborn → H q w → H q w'

/-- `q` carries the UUID that the configuration names. -/
def Tagged (cfg : Config N) (q : Pid) (w : World N) : Prop :=
  ∃ u, cfg.uuid = some u ∧ u ∈ (w.procs q).uuids

omit [DecidableEq N] in
theorem lasting_tagged (cfg : Config N) : Lasting (Tagged cfg) := by
  rintro q w w' hlater hq ⟨u, hu, hmem⟩
  exact ⟨u, hu, (hlater.procs q hq).uuids u hmem⟩

omit [DecidableEq N] in
theorem Lasting.and_const {H : Pid → World N → Prop} (hH : Lasting H) (A : Pid → Prop) :
    Lasting fun q w => A q ∧ H q w :=
  fun q w w' hlater hq h => ⟨h.1, hH q w w' hlater hq h.2⟩

omit [DecidableEq N] in
theorem Lasting.or_const {H : Pid → World N → Prop} (hH : Lasting H) (A : Pid → Prop) :
    Lasting fun q w => A q ∨ H q w :=
  fun q w w' hlater hq h => h.imp_right (hH q w w' hlater hq)

theorem fresh_stable : (bootContract n).Stable p (Fresh cfg p) := by
  intro u v _ h hrely _
  have hp := hrely.later.procs p h.born
  exact ⟨hp.ne_unborn h.born, hp.entry.trans h.entry, (hrely.marked h.born).trans h.marked,
    fun hmem => h.begun (hrely.begun.1 hmem)⟩

theorem facing_stable {H : Pid → World N → Prop} (hH : Lasting H) :
    (bootContract cfg.name).Stable p (Facing cfg p H) := by
  intro u v hinv h hrely _
  have hp := hrely.later.procs p h.born
  refine ⟨hp.ne_unborn h.born, hp.entry.trans h.entry, (hrely.marked h.born).trans h.marked,
    hrely.begun.2 h.begun, fun q hq => ?_⟩
  have hq' := hq.of_later hinv hrely.later hrely.seen
  have hqborn := hinv.born q (hinv.seen p q hq'.seen)
  obtain ⟨hmarked, hHq⟩ := h.known q hq'
  exact ⟨(hrely.later.procs q hqborn).marked hmarked, hH q u.1 v.1 hrely.later hqborn hHq⟩

omit [DecidableEq N] in
theorem Facing.mono {H H' : Pid → World N → Prop} (h : Facing cfg p H s)
    (hH : ∀ q, Threat cfg.name p s q → (s.1.procs q).marked = true → H q s.1 → H' q s.1) :
    Facing cfg p H' s :=
  { h with known := fun q hq => ⟨(h.known q hq).1, hH q hq (h.known q hq).1 (h.known q hq).2⟩ }

/-- A query inside the guard changes nothing. -/
theorem facing_query {q : Query N} {r : q.Res} (hbegun : p ∈ s.2.begun)
    (h : guardedBoot.exec s p (.query q) choice = some (t, r)) :
    t = s ∧ answer s.1 p q choice = some r := by
  obtain ⟨hexec, hnote⟩ := exec_of_history h
  obtain ⟨hw, hr⟩ := exec_query hexec
  refine ⟨Prod.ext hw ?_, hr⟩
  rcases s.2.note_cases s.1 t.1 (.query q) r with hsame | ⟨hnot, -⟩ | ⟨⟨m, hm⟩, -⟩
  · rw [hnote, hsame]
  · exact absurd hbegun hnot
  · cases hm

/-- **Asking, inside the guard.** -/
theorem facing_ask {H : Pid → World N → Prop} (hH : Lasting H) {q : Query N}
    {k : q.Res → Code N α} {Q : α → World N × GuardHistory → Prop}
    (hinv : BootInv cfg.name s) (hs : Facing cfg p H s)
    (h : ∀ v r choice, BootInv cfg.name v → v.1.running p = true → Facing cfg p H v →
      answer v.1 p q choice = some r → (bootContract cfg.name).wp p (k r) Q v) :
    (bootContract cfg.name).wp p (ask q >>= k) Q s := by
  refine Contract.wp_perform (facing_stable hH) hinv hs ?_
  intro v hv hinvv hrun _ choice v' r hexec
  refine ⟨boot_keeps hinvv hrun hexec (fun m hm => by cases hm), fun _ => ?_⟩
  obtain ⟨rfl, hr⟩ := facing_query hv.begun hexec
  exact h v' r choice hinvv hrun hv hr

/-- What the guard needs to know when it lets the init pass. -/
def Alone (cfg : Config N) (p : Pid) (s : World N × GuardHistory) : Prop :=
  Facing cfg p (fun _ _ => False) s

omit [DecidableEq N] in
theorem lasting_false : Lasting fun _ (_ : World N) => False := fun _ _ _ _ _ h => h

/-- `find_container_init_pid` finds somebody else, or nobody is left. -/
theorem findAmong_spec (u : Uuid) (hu : cfg.uuid = some u) (rest : List Pid)
    (hinv : BootInv cfg.name s)
    (hs : Facing cfg p (fun q w => q ∈ rest ∧ Tagged cfg q w) s) :
    (bootContract cfg.name).wp p (findAmong u rest)
      (fun found v => (found = none ∧ Alone cfg p v) ∨ ∃ q, found = some q ∧ q ≠ p) s := by
  induction rest generalizing s with
  | nil =>
    have halone : Alone cfg p s := hs.mono fun q _ _ hq => by simp at hq
    exact Contract.wp_ret fun v hrely hv =>
      Or.inl ⟨rfl, facing_stable lasting_false s v hinv halone hrely hv⟩
  | cons a rest ih =>
    have hlast : Lasting fun q (w : World N) => q ∈ a :: rest ∧ Tagged cfg q w :=
      (lasting_tagged cfg).and_const _
    refine facing_ask hlast hinv hs fun v r _ hinvv hrun hv hr => ?_
    have hmark : r = (v.1.running a && (v.1.procs a).marked && (v.1.procs a).uuids.contains u) :=
      (Option.some.inj hr).symm
    -- a threat that the loop moves past is still in the rest of the list
    have hnext : ∀ v' : World N × GuardHistory, Facing cfg p (fun q w => q ∈ a :: rest ∧
        Tagged cfg q w) v' → ¬ Threat cfg.name p v' a →
        Facing cfg p (fun q w => q ∈ rest ∧ Tagged cfg q w) v' := by
      intro v' hv' hna
      refine hv'.mono fun q hq _ hH => ⟨?_, hH.2⟩
      refine (List.mem_cons.1 hH.1).resolve_left ?_
      rintro rfl
      exact hna hq
    cases r with
    | false =>
      refine ih hinvv (hnext v hv fun hthreat => ?_)
      obtain ⟨hmarked, -, u', hu', hmem⟩ := hv.known a hthreat
      obtain rfl : u = u' := Option.some.inj (hu.symm.trans hu')
      simp [hthreat.running, hmarked, hmem] at hmark
    | true =>
      refine facing_ask hlast hinvv hv fun v₂ r₂ _ hinv₂ hrun₂ hv₂ hr₂ => ?_
      have hvalid : r₂ = v₂.1.valid a := (Option.some.inj hr₂).symm
      cases r₂ with
      | true =>
        refine Contract.wp_ret fun _ _ _ => Or.inr ⟨a, rfl, ?_⟩
        rintro rfl
        simp [World.valid, hv₂.marked] at hvalid
      | false =>
        refine ih hinv₂ (hnext v₂ hv₂ fun hthreat => ?_)
        obtain ⟨hmarked, -⟩ := hv₂.known a hthreat
        simp [World.valid, hthreat.running, hmarked, hthreat.role] at hvalid

/-- The first read of the pidfile: the guard condition makes every threat findable. -/
theorem guardRead_spec {k : Option Pid → Code N α} {Q : α → World N × GuardHistory → Prop}
    (hinv : BootInv cfg.name s) (hs : Fresh cfg p s)
    (h : ∀ v r, BootInv cfg.name v → Facing cfg p (fun q w => r = some q ∨ Tagged cfg q w) v →
      (bootContract cfg.name).wp p (k r) Q v) :
    (bootContract cfg.name).wp p (ask (.readPid cfg.name) >>= k) Q s := by
  refine Contract.wp_perform fresh_stable hinv hs ?_
  intro v hv hinv hrun hguard choice v' r hexec
  have hkeeps := boot_keeps hinv hrun hexec (fun m hm => by cases hm)
  refine ⟨hkeeps, fun _ => h v' r hkeeps.inv ?_⟩
  obtain ⟨hread, hnote⟩ := exec_of_history hexec
  obtain ⟨hw, hr⟩ := exec_query hread
  obtain rfl : (v.1.files cfg.name).pid = r := Option.some.inj hr
  have hrole : (v.1.procs p).role = .init cfg.name := by rw [Proc.role, hv.entry]; rfl
  have hbegin : v'.2 =
      { v.2 with begun := p :: v.2.begun, seen := Function.update v.2.seen p v.2.begun } := by
    rw [hnote, GuardHistory.note, if_pos]
    simpa [hrole, Role.isInit] using hv.begun
  refine ⟨hw ▸ hv.born, hw ▸ hv.entry, hw ▸ hv.marked, by rw [hbegin]; exact List.mem_cons_self,
    fun q hq => ?_⟩
  have hseen : q ∈ v.2.begun := by
    have := hq.seen
    rw [hbegin] at this
    simpa using this
  have hrunning : v.1.running q = true := by rw [← hw]; exact hq.running
  have hroleq : (v.1.procs q).role = .init cfg.name := by rw [← hw]; exact hq.role
  have hentry : (v.1.procs p).entry.uuid = cfg.uuid := by rw [hv.entry]; rfl
  have hsees := hguard
  simp only [bootContract, SeesOthers, hrole, beq_self_eq_true, Bool.true_and, Bool.not_not,
    Bool.or_eq_true, List.all_eq_true, List.contains_eq_mem, decide_eq_true_eq] at hsees
  have hfind := (hsees.resolve_left hv.begun) q hseen
  simp only [beq_iff_eq, hq.ne, hroleq, hrunning, beq_self_eq_true, Bool.and_self, Bool.not_true,
    Bool.false_eq_true, or_self, false_or, Bool.and_eq_true, Bool.or_eq_true, hentry,
    Option.any_eq_true] at hfind
  rw [hw]
  refine ⟨hfind.1, hfind.2.imp id fun htag => ?_⟩
  obtain ⟨u, hu, hmem⟩ := htag
  exact ⟨u, hu, by simpa using hmem⟩

/-- `read_and_validate_pid` inside the guard: a threat that the pidfile names is found, so what is
left of the threats carries our UUID. -/
theorem guardValidate_spec (hinv : BootInv cfg.name s) (hs : Fresh cfg p s) :
    (bootContract cfg.name).wp p (readAndValidatePid cfg.name)
      (fun res v => BootInv cfg.name v ∧
        ((res.1 = .running ∧ res.2 ≠ p) ∨
          (res.1 ≠ .running ∧ Facing cfg p (Tagged cfg) v))) s := by
  have hret : ∀ (v : World N × GuardHistory) (res : Verdict × Pid), BootInv cfg.name v →
      res.1 ≠ .running → Facing cfg p (Tagged cfg) v →
      (bootContract cfg.name).wp p (.ret res) (fun res v => BootInv cfg.name v ∧
        ((res.1 = .running ∧ res.2 ≠ p) ∨
          (res.1 ≠ .running ∧ Facing cfg p (Tagged cfg) v))) v := fun v res hv hres hf =>
    Contract.wp_ret fun v' hrely hv' =>
      ⟨hv', Or.inr ⟨hres, facing_stable (lasting_tagged cfg) v v' hv hf hrely hv'⟩⟩
  refine guardRead_spec hinv hs fun v r hinv hv => ?_
  cases r with
  | none => exact hret v _ hinv (by simp) (hv.mono fun q _ _ hq => hq.resolve_left (by simp))
  | some c =>
    have hlast : Lasting fun q (w : World N) => some c = some q ∨ Tagged cfg q w :=
      (lasting_tagged cfg).or_const _
    -- once the named process is no threat, the others are the tagged ones
    have hrest : ∀ v' : World N × GuardHistory,
        Facing cfg p (fun q w => some c = some q ∨ Tagged cfg q w) v' →
        ¬ Threat cfg.name p v' c → Facing cfg p (Tagged cfg) v' := by
      intro v' hv' hnot
      refine hv'.mono fun q hq _ hH => hH.resolve_left ?_
      rintro heq
      exact hnot (Option.some.inj heq ▸ hq)
    refine facing_ask hlast hinv hv fun v₁ alive _ hinv₁ _ hv₁ hr₁ => ?_
    have halive : alive = v₁.1.present c := (Option.some.inj hr₁).symm
    cases alive with
    | false =>
      refine hret v₁ _ hinv₁ (by simp) (hrest v₁ hv₁ fun hthreat => ?_)
      have := World.running_iff.1 hthreat.running
      simp [World.present, this] at halive
    | true =>
      refine facing_ask hlast hinv₁ hv₁ fun v₂ valid _ hinv₂ _ hv₂ hr₂ => ?_
      have hvalid : valid = v₂.1.valid c := (Option.some.inj hr₂).symm
      cases valid with
      | false =>
        refine hret v₂ _ hinv₂ (by simp) (hrest v₂ hv₂ fun hthreat => ?_)
        have hmarked := (hv₂.known c hthreat).1
        simp [World.valid, hthreat.running, hmarked, hthreat.role] at hvalid
      | true =>
        refine Contract.wp_ret fun v₃ _ hv₃ => ⟨hv₃, Or.inl ⟨rfl, ?_⟩⟩
        rintro rfl
        simp [World.valid, hv₂.marked] at hvalid

/-- `find_container_init_pid` looks at every process that is there. -/
theorem guardFind_spec {u : Uuid} (hu : cfg.uuid = some u) (hinv : BootInv cfg.name s)
    (hs : Facing cfg p (Tagged cfg) s) :
    (bootContract cfg.name).wp p (findContainerInitPid u)
      (fun found v => (found = none ∧ Alone cfg p v) ∨ ∃ q, found = some q ∧ q ≠ p) s := by
  refine facing_ask (lasting_tagged cfg) hinv hs fun v r _ hinvv _ hv hr => ?_
  obtain rfl : v.1.pids.filter v.1.present = r := Option.some.inj hr
  refine findAmong_spec u hu _ hinvv (hv.mono fun q hq _ htag => ⟨?_, htag⟩)
  have hpresent : v.1.present q = true := by
    have := World.running_iff.1 hq.running
    simp [World.present, this]
  have hpids := (hinvv.ok.pids q (World.ne_unborn_of_running hq.running)).1
  exact List.mem_filter.2 ⟨hpids, hpresent⟩

/-- **The verdict of the boot guard**: somebody else runs, or nobody is left. -/
theorem guardVerdict_spec (hinv : BootInv cfg.name s) (hs : Fresh cfg p s) :
    (bootContract cfg.name).wp p (isContainerRunning cfg.name cfg.uuid)
      (fun res v => (res.1 = true → res.2 ≠ p) ∧ (res.1 = false → Alone cfg p v)) s := by
  refine Contract.wp_seq (guardValidate_spec hinv hs) ?_
  rintro ⟨verdict, pid⟩ v - ⟨hinv, ⟨hverdict, hne⟩ | ⟨hverdict, hv⟩⟩ <;>
    simp only at hverdict
  · simp only [if_pos hverdict]
    exact Contract.wp_ret fun _ _ _ => ⟨fun _ => hne, by simp⟩
  · simp only [if_neg hverdict]
    cases hu : cfg.uuid with
    | none =>
      have halone : Alone cfg p v := hv.mono fun q _ _ ⟨u, hu', _⟩ => by
        rw [hu] at hu'
        cases hu'
      exact Contract.wp_ret fun w hrely hw =>
        ⟨by simp, fun _ => facing_stable lasting_false v w hinv halone hrely hw⟩
    | some u =>
      refine Contract.wp_seq (guardFind_spec hu hinv hv) ?_
      rintro found v' hinv' (⟨rfl, halone⟩ | ⟨q, rfl, hne⟩)
      · exact Contract.wp_ret fun w hrely hw =>
          ⟨by simp, fun _ => facing_stable lasting_false v' w hinv' halone hrely hw⟩
      · -- the pidfile is healed with somebody else's pid
        refine Contract.wp_perform (Contract.stable_true _ p) hinv' trivial ?_
        intro w _ hinvw hrun _ choice w' r hexec
        refine ⟨boot_keeps hinvw hrun hexec (fun m hm => by cases hm), fun _ => ?_⟩
        exact Contract.wp_ret fun _ _ _ => ⟨fun _ => hne, by simp⟩

/-! ### The init -/

/-- An operation before the guard. -/
theorem fresh_call {op : Op N} {k : op.Res → Code N α} {Q : α → World N × GuardHistory → Prop}
    (hread : ∀ m, op ≠ .query (.readPid m)) (hpass : ∀ m, op ≠ .mark (.bootPassed m))
    (hroot : ∀ w choice w' (r : op.Res), exec w p op choice = some (w', r) →
      (w'.procs p).marked = (w.procs p).marked)
    (hinv : BootInv cfg.name s) (hs : Fresh cfg p s)
    (h : ∀ v r, BootInv cfg.name v → Fresh cfg p v → (bootContract cfg.name).wp p (k r) Q v) :
    (bootContract cfg.name).wp p (Prog.perform op >>= k) Q s := by
  refine Contract.wp_perform fresh_stable hinv hs ?_
  intro v hv hinv hrun _ choice v' r hexec
  have hkeeps := boot_keeps hinv hrun hexec fun m hm => absurd hm (hpass m)
  refine ⟨hkeeps, fun _ => h v' r hkeeps.inv ?_⟩
  obtain ⟨hexec', hnote⟩ := exec_of_history hexec
  have hsame : v'.2 = v.2 := by
    rcases v.2.note_cases v.1 v'.1 op r with hsame | ⟨-, -, ⟨m, hm⟩, -⟩ | ⟨⟨m, hm⟩, -⟩
    · rw [hnote, hsame]
    · exact absurd hm (hread m)
    · exact absurd hm (hpass m)
  have hp := (exec_later hrun hexec').procs p hv.born
  exact ⟨hp.ne_unborn hv.born, hp.entry.trans hv.entry, (hroot _ _ _ _ hexec').trans hv.marked,
    by rw [hsame]; exact hv.begun⟩

theorem initHandshake_spec (hinv : BootInv cfg.name s) (hs : Fresh cfg p s) {k : Unit → Code N α}
    {Q : α → World N × GuardHistory → Prop}
    (h : ∀ v, BootInv cfg.name v → Fresh cfg p v → (bootContract cfg.name).wp p (k ()) Q v) :
    (bootContract cfg.name).wp p (initHandshake cfg >>= k) Q s := by
  unfold initHandshake
  split
  · refine fresh_call (by simp) (by simp) ?_ hinv hs fun v _ hinvv hv => ?_
    · intro w choice w' r hexec
      obtain rfl := world_of_some hexec
      simp
    · refine fresh_call (by simp) (by simp) ?_ hinvv hv fun v' _ hinv' hv' => h v' hinv' hv'
      intro w choice w' r hexec
      rw [(exec_query hexec).1]
  · exact h s hinv hs

omit [DecidableEq N] in
theorem Passed.later (hinv : BootInv n s) (h : Passed n p s) (hlater : s.1.Later t.1)
    (hbegun : p ∈ s.2.begun → p ∈ t.2.begun) (hseen : t.2.seen p = s.2.seen p) : Passed n p t :=
  ⟨hbegun h.begun, fun q hq => h.clear q (hq.of_later hinv hlater hseen)⟩

theorem passed_keeps (m : Code N α) (hinv : BootInv n s) (hs : Passed n p s) :
    (bootContract n).wp p m (fun _ v => Passed n p v) s := by
  have hstable : (bootContract n).Stable p (Passed n p) := fun _ _ hu h hrely _ =>
    h.later hu hrely.later hrely.begun.2 hrely.seen
  refine Contract.wp_of_stable hstable ?_ m hinv hs
  intro v op choice v' r hv hinvv hrun _ hexec
  refine ⟨boot_keeps hinvv hrun hexec fun _ _ _ => ⟨hv.begun, hv.clear⟩, fun _ => ?_⟩
  obtain ⟨hexec', hnote⟩ := exec_of_history hexec
  rcases v.2.note_cases v.1 v'.1 op r with hsame | ⟨hnot, -⟩ | ⟨-, hpassed⟩
  · rw [hsame] at hnote
    exact hv.later hinvv (exec_later hrun hexec') (by simp [hnote]) (by rw [hnote])
  · exact absurd hv.begun hnot
  · rw [hpassed] at hnote
    exact hv.later hinvv (exec_later hrun hexec') (by simp [hnote]) (by rw [hnote])

theorem internalBoot_spec (hinv : BootInv cfg.name s) (hs : Fresh cfg p s) :
    (bootContract cfg.name).wp p (internalBoot cfg)
      (fun e v => (bootContract cfg.name).pre e p v) s := by
  unfold internalBoot
  refine initHandshake_spec hinv hs fun v hinvv hv => ?_
  refine fresh_call (by simp) (by simp) ?_ hinvv hv fun v' _ hinv' hv' => ?_
  · intro w choice w' r hexec
    rw [world_of_some hexec]
  refine Contract.wp_seq (guardVerdict_spec hinv' hv') ?_
  rintro ⟨running, pid⟩ w hinv ⟨hne, halone⟩
  cases running with
  | true =>
    -- the init that was found is somebody else, so this one exits
    refine Contract.wp_perform (Contract.stable_true _ p) hinv trivial ?_
    intro v _ hinvv hrun _ choice v' me hexec
    have hkeeps := boot_keeps hinvv hrun hexec fun m hm => by cases hm
    refine ⟨hkeeps, fun _ => ?_⟩
    obtain rfl : p = me := Option.some.inj (exec_query (exec_of_history hexec).1).2
    rw [if_pos (hne rfl)]
    refine Contract.wp_perform (Contract.stable_true _ p) hkeeps.inv trivial ?_
    intro v _ hinvv hrun _ choice v' r hexec
    refine ⟨boot_keeps hinvv hrun hexec (fun m hm => by cases hm), fun _ => ?_⟩
    exact Contract.wp_ret fun _ _ _ => Or.inl rfl
  | false =>
    have hface := halone rfl
    have hpassed : Passed cfg.name p w := ⟨hface.begun, fun q hq => (hface.known q hq).2⟩
    exact Contract.wp_mono (passed_keeps _ hinv hpassed) fun _ _ _ h => Or.inr (Or.inr (Or.inl h))

/-! ## The theorem -/

theorem boot_sound (n : N) : (bootContract n).Sound where
  code := by
    rintro e p w hinv (rfl | hby | hpassed | ⟨cfg, rfl, rfl, hfresh⟩)
    · exact Contract.wp_ret fun _ _ _ => Or.inl rfl
    · exact Contract.wp_mono (bystander_keeps _ hinv hby) fun _ _ _ h => Or.inr (Or.inl h)
    · exact Contract.wp_mono (passed_keeps _ hinv hpassed)
        fun _ _ _ h => Or.inr (Or.inr (Or.inl h))
    · exact internalBoot_spec hinv hfresh
  env := by
    rintro w e ⟨v, g⟩ ch hinv _ henv
    obtain ⟨hv, hg⟩ := hostEnv_of_history henv
    obtain rfl : g = w.2 := hg
    have hlater := hostEnv_later hv
    refine ⟨⟨hostEnv_ok hinv.ok hv, ?_, hinv.seen, hinv.order, ?_⟩, fun q _ => ?_, ?_⟩
    · exact fun q hq => (hlater.procs q (hinv.born q hq)).ne_unborn (hinv.born q hq)
    · intro q hq
      obtain ⟨hborn, hclear⟩ := hinv.passed q hq
      refine ⟨(hlater.procs q hborn).ne_unborn hborn, fun hrole => ?_⟩
      rw [(hlater.procs q hborn).role] at hrole
      obtain ⟨hbegun, hno⟩ := hclear hrole
      exact ⟨hbegun, fun x hx => hno x (Threat.of_later (t := (v, w.2)) hinv hlater rfl hx)⟩
    · exact ⟨hlater, fun hborn => (hostEnv_sameRoot hborn hv).marked, Iff.rfl, rfl, Iff.rfl⟩
    · rintro q e' rfl
      obtain ⟨hunborn, hborn, -⟩ := hostEnv_child hv
      exact bootPre_of_born hinv hunborn hborn id

omit [DecidableEq N] in
/-- Two inits that passed: the one whose guard began later saw the other. -/
theorem BootInv.oneInstance (hinv : BootInv n s) : OneInstance n s := by
  intro p q hp hq hrolep hroleq hpassp hpassq
  by_contra hne
  obtain ⟨hbegunp, hclearp⟩ := (hinv.passed p hpassp).2 hrolep
  obtain ⟨hbegunq, hclearq⟩ := (hinv.passed q hpassq).2 hroleq
  rcases hinv.order p hbegunp q hbegunq hne with hseen | hseen
  · exact hclearp q ⟨hseen, Ne.symm hne, hroleq, hq⟩
  · exact hclearq p ⟨hseen, hne, hrolep, hp⟩

/-- Nothing has happened yet. -/
def guardedStart (w : World N) :
    Machine.State Pid (World N × GuardHistory) (Op N) (Entry N) Op.Res :=
  ⟨(w, .empty), fun _ => .ret .exited⟩

theorem boot_holds {w : World N} (hw : w.Booted) : (bootContract n).Holds (guardedStart w) where
  inv := by
    refine ⟨hw.ok, ?_, ?_, ?_, ?_⟩ <;> simp [guardedStart, GuardHistory.empty]
  prog p hp := absurd (hw.unborn p) (World.ne_unborn_of_running hp)

section SideBySide

open Machine

/-- Two starts of one name pass their name checks, then their monitors do, and both have an init
(pids 4 and 14) in front of its boot guard. -/
def bothAtTheGuard : List (Event Pid (HostEvent Unit)) :=
  [.env (.spawn 1 (.start (.plain ()))), .env (.spawn 11 (.start (.plain ())))] ++
  turns 1 9 ++ [.step 1 5] ++ turns 1 1 ++ [.step 1 2] ++
  turns 11 10 ++ [.step 11 6] ++ turns 11 1 ++ [.step 11 12] ++
  turns 2 7 ++ [.step 2 3, .step 3 4] ++ turns 12 9 ++ [.step 12 13, .step 13 14]

end SideBySide

end Droidspaces
