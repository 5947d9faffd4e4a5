import Droidspaces.Transition.Machine

/-!
# Rely and guarantee

A proof about a machine is split by process.  A `Contract` fixes an invariant of the world, for
every process what it relies on the others not to disturb, the condition under which operations
are scheduled, and what has to hold where a process starts.  `Contract.wp` is the weakest
precondition of one program under that contract: before each operation the others may move the
world along the process's rely, and the operation itself has to keep the invariant and everybody
else's rely.

Programs compose by `wp_bind`; a program that needs no knowledge of its own is dispatched by
`wp_of_stable`.  `Contract.Sound.run` puts the programs together: in every guarded run the
invariant holds and each process still satisfies its weakest precondition.
-/

namespace Transition

variable {Pid σ Op Entry Env : Type} {Res : Op → Type}

/-- What the proof of one property of a machine fixes for all its programs. -/
structure Contract (M : Machine Pid σ Op Entry Env Res) where
  inv : σ → Prop
  rely : Pid → σ → σ → Prop
  /-- When an operation is scheduled, and when an environment event is. -/
  guard : σ → Pid → Op → Prop
  guardEnv : σ → Env → Prop
  /-- What has to hold when it is. -/
  safe : σ → Pid → Op → Prop
  pre : Entry → Pid → σ → Prop
  rely_refl : ∀ p w, rely p w w
  rely_trans : ∀ p u v w, rely p u v → rely p v w → rely p u w

namespace Contract

variable {M : Machine Pid σ Op Entry Env Res} (C : Contract M) {α β : Type}

/-- The operation of `p` is safe, keeps the invariant, disturbs nobody, and what it started may
start. -/
structure Keeps (p : Pid) (w : σ) (op : Op) (w' : σ) (r : Res op) : Prop where
  safe : C.safe w p op
  inv : C.inv w'
  rely : ∀ q, q ≠ p → M.runnable w q = true → C.rely q w w'
  child : ∀ q e, M.child op r = some (q, e) → C.pre e q w'

/-- The weakest precondition of a program of process `p`. -/
def wp (p : Pid) : Prog Op Res α → (α → σ → Prop) → σ → Prop
  | .ret a, Q, w => ∀ w', C.rely p w w' → C.inv w' → Q a w'
  | .call op k, Q, w => ∀ w', C.rely p w w' → C.inv w' → M.runnable w' p = true →
      C.guard w' p op → ∀ choice w'' r, M.exec w' p op choice = some (w'', r) →
        C.Keeps p w' op w'' r ∧ (M.runnable w'' p = true → wp p (k r) Q w'')

variable {C} {p : Pid} {w w' : σ}

/-- The others may move first. -/
theorem wp_rely {m : Prog Op Res α} {Q : α → σ → Prop} (h : C.wp p m Q w)
    (hrely : C.rely p w w') : C.wp p m Q w' := by
  cases m with
  | ret a => exact fun v hv => h v (C.rely_trans p w w' v hrely hv)
  | call op k => exact fun v hv => h v (C.rely_trans p w w' v hrely hv)

/-- It is enough to prove the precondition wherever the others may have moved the world. -/
theorem wp_of_forall_rely {m : Prog Op Res α} {Q : α → σ → Prop}
    (h : ∀ w', C.rely p w w' → C.inv w' → C.wp p m Q w') : C.wp p m Q w := by
  cases m with
  | ret a => exact fun v hv hI => h v hv hI v (C.rely_refl p v) hI
  | call op k => exact fun v hv hI => h v hv hI v (C.rely_refl p v) hI

theorem wp_mono {m : Prog Op Res α} {Q R : α → σ → Prop} (h : C.wp p m Q w)
    (hQR : ∀ a v, C.inv v → Q a v → R a v) : C.wp p m R w := by
  induction m generalizing w with
  | ret a => exact fun v hv hI => hQR a v hI (h v hv hI)
  | call op k ih =>
    intro v hv hI hrun hguard choice v' r hexec
    obtain ⟨hkeeps, hrest⟩ := h v hv hI hrun hguard choice v' r hexec
    exact ⟨hkeeps, fun hrun' => ih r (hrest hrun')⟩

/-- **Sequencing.** -/
theorem wp_bind {m : Prog Op Res α} {f : α → Prog Op Res β} {Q : β → σ → Prop}
    (h : C.wp p m (fun a v => C.wp p (f a) Q v) w) : C.wp p (m >>= f) Q w := by
  induction m generalizing w with
  | ret a => exact wp_of_forall_rely fun v hv hI => h v hv hI
  | call op k ih =>
    intro v hv hI hrun hguard choice v' r hexec
    obtain ⟨hkeeps, hrest⟩ := h v hv hI hrun hguard choice v' r hexec
    exact ⟨hkeeps, fun hrun' => ih r (hrest hrun')⟩

/-- The first part comes back with what the second part needs. -/
theorem wp_seq {m : Prog Op Res α} {f : α → Prog Op Res β} {R : α → σ → Prop} {Q : β → σ → Prop}
    (h : C.wp p m R w) (hf : ∀ a v, C.inv v → R a v → C.wp p (f a) Q v) :
    C.wp p (m >>= f) Q w :=
  wp_bind (wp_mono h hf)

theorem wp_ret {a : α} {Q : α → σ → Prop}
    (h : ∀ w', C.rely p w w' → C.inv w' → Q a w') : C.wp p (.ret a) Q w := h

/-! ## Knowledge that the others do not disturb -/

/-- What `p` knows by `K`, it still knows after the others have moved. -/
def Stable (C : Contract M) (p : Pid) (K : σ → Prop) : Prop :=
  ∀ u v, C.inv u → K u → C.rely p u v → C.inv v → K v

theorem stable_true (C : Contract M) (p : Pid) : C.Stable p fun _ => True :=
  fun _ _ _ _ _ _ => trivial

theorem wp_ret_of_stable {K : σ → Prop} {a : α} (hK : C.Stable p K) (hI : C.inv w) (h : K w) :
    C.wp p (.ret a) (fun _ v => K v) w :=
  wp_ret fun v hrely hv => hK w v hI h hrely hv

/-- One operation from a stable state of knowledge. -/
theorem wp_perform {K : σ → Prop} {op : Op} {k : Res op → Prog Op Res α} {Q : α → σ → Prop}
    (hstable : C.Stable p K) (hI : C.inv w) (hK : K w)
    (h : ∀ v, K v → C.inv v → M.runnable v p = true → C.guard v p op → ∀ choice v' r,
      M.exec v p op choice = some (v', r) →
        C.Keeps p v op v' r ∧ (M.runnable v' p = true → C.wp p (k r) Q v')) :
    C.wp p (Prog.perform op >>= k) Q w :=
  fun v hv hIv hrun hguard choice v' r hexec =>
    h v (hstable w v hI hK hv hIv) hIv hrun hguard choice v' r hexec

/-- A program all of whose operations are harmless from a stable state of knowledge. -/
theorem wp_of_only {K : σ → Prop} {A : Op → Prop} (hstable : C.Stable p K)
    (hop : ∀ v op choice v' r, A op → K v → C.inv v → M.runnable v p = true → C.guard v p op →
      M.exec v p op choice = some (v', r) → C.Keeps p v op v' r ∧ (M.runnable v' p = true → K v'))
    {m : Prog Op Res α} (hm : m.Only A) (hI : C.inv w) (hK : K w) :
    C.wp p m (fun _ v => K v) w := by
  induction m generalizing w with
  | ret a => exact wp_ret_of_stable hstable hI hK
  | call op k ih =>
    intro v hv hIv hrun hguard choice v' r hexec
    obtain ⟨hkeeps, hrest⟩ :=
      hop v op choice v' r hm.1 (hstable w v hI hK hv hIv) hIv hrun hguard hexec
    exact ⟨hkeeps, fun hrun' => ih r (hm.2 r) hkeeps.inv (hrest hrun')⟩

/-- The same for any program, when all operations are. -/
theorem wp_of_stable {K : σ → Prop} (hstable : C.Stable p K)
    (hop : ∀ v op choice v' r, K v → C.inv v → M.runnable v p = true → C.guard v p op →
      M.exec v p op choice = some (v', r) → C.Keeps p v op v' r ∧ (M.runnable v' p = true → K v'))
    (m : Prog Op Res α) (hI : C.inv w) (hK : K w) : C.wp p m (fun _ v => K v) w :=
  wp_of_only hstable (fun v op choice v' r _ => hop v op choice v' r) m.only_true hI hK

/-- A program of operations that only read what the others leave alone. -/
theorem wp_embed {Op' : Type} {Res' : Op' → Type} {f : Op' → Op}
    {g : (op : Op') → Res (f op) → Res' op} {answer : (op : Op') → Res' op} {K : σ → Prop}
    {Q : α → σ → Prop} (hstable : C.Stable p K)
    (hread : ∀ v op choice v' r, K v → C.inv v → M.exec v p (f op) choice = some (v', r) →
      v' = v ∧ g op r = answer op ∧ C.Keeps p v (f op) v' r)
    (m : Prog Op' Res' α) (hQ : ∀ v, C.inv v → K v → Q (m.eval answer) v)
    (hI : C.inv w) (hK : K w) : C.wp p (m.embed f g) Q w := by
  induction m generalizing w with
  | ret a => exact wp_ret fun v hrely hv => hQ v hv (hstable w v hI hK hrely hv)
  | call op k ih =>
    intro v hv hIv hrun hguard choice v' r hexec
    have hKv := hstable w v hI hK hv hIv
    obtain ⟨rfl, hr, hkeeps⟩ := hread v op choice v' r hKv hIv hexec
    refine ⟨hkeeps, fun _ => ?_⟩
    show C.wp p ((k (g op r)).embed f g) Q v'
    rw [hr]
    exact ih (answer op) hQ hIv hKv

/-- From `K` the program comes back to `K`. -/
def Keeping (C : Contract M) (p : Pid) (K : σ → Prop) (α : Type) (m : Prog Op Res α) : Prop :=
  ∀ w, C.inv w → K w → C.wp p m (fun _ v => K v) w

/-- Programs that keep a stable state of knowledge can be sequenced. -/
theorem keeping_compositional {K : σ → Prop} (hstable : C.Stable p K) :
    Prog.Compositional (C.Keeping p K) where
  ret _ _ hI hK := wp_ret_of_stable hstable hI hK
  bind _ _ hm hf _ hI hK := wp_seq (hm _ hI hK) fun a v hv hKv => hf a v hv hKv

/-! ## Putting the programs together -/

/-- What has to be proved of the programs and of the environment. -/
structure Sound (C : Contract M) : Prop where
  code : ∀ e p w, C.inv w → C.pre e p w → C.wp p (M.code e) (fun e' v => C.pre e' p v) w
  env : ∀ w e w' ch, C.inv w → C.guardEnv w e → M.env w e = some (w', ch) → C.inv w' ∧
    (∀ q, M.runnable w q = true → C.rely q w w') ∧ ∀ q e', ch = some (q, e') → C.pre e' q w'

/-- A contract that no program has to know anything about: every operation keeps it. -/
theorem sound_of_ops (hrely : ∀ p u v, C.rely p u v) (hpre : ∀ e p w, C.pre e p w)
    (hop : ∀ p w op choice w' r, C.inv w → C.guard w p op →
      M.exec w p op choice = some (w', r) → C.safe w p op ∧ C.inv w')
    (henv : ∀ w e w' ch, C.inv w → C.guardEnv w e → M.env w e = some (w', ch) → C.inv w') :
    C.Sound where
  code e p w hinv _ := by
    refine wp_mono (wp_of_stable (C.stable_true p) ?_ _ hinv trivial) fun e' v _ _ => hpre e' p v
    intro v op choice v' r _ hv _ hguard hexec
    obtain ⟨hsafe, hinv'⟩ := hop p v op choice v' r hv hguard hexec
    exact ⟨⟨hsafe, hinv', fun q _ _ => hrely q v v', fun q e' _ => hpre e' q v'⟩, fun _ => trivial⟩
  env w e w' ch hinv hguard h :=
    ⟨henv w e w' ch hinv hguard h, fun q _ => hrely q w w', fun q e' _ => hpre e' q w'⟩

/-- The invariant of the whole machine: the world's, and every process is still good. -/
structure Holds (C : Contract M) (s : Machine.State Pid σ Op Entry Res) : Prop where
  inv : C.inv s.world
  prog : ∀ p, M.runnable s.world p = true →
    C.wp p (s.prog p) (fun e v => C.pre e p v) s.world

/-- The operation that a good process performs next keeps the contract. -/
theorem Holds.keeps {s : Machine.State Pid σ Op Entry Res} (hs : C.Holds s) {op : Op}
    {k : Res op → Prog Op Res Entry} (hprog : s.prog p = .call op k)
    (hrun : M.runnable s.world p = true) (hguard : C.guard s.world p op) {choice : ℕ} {r : Res op}
    (hexec : M.exec s.world p op choice = some (w', r)) :
    C.Keeps p s.world op w' r ∧
      (M.runnable w' p = true → C.wp p (k r) (fun e v => C.pre e p v) w') := by
  have h := hs.prog p hrun
  rw [hprog] at h
  exact h s.world (C.rely_refl p s.world) hs.inv hrun hguard choice w' r hexec

variable [DecidableEq Pid]

/-- **One step.** -/
theorem Sound.step (hM : M.Spawns) (hC : C.Sound) (s : Machine.State Pid σ Op Entry Res)
    (e : Machine.Event Pid Env) (t : Machine.State Pid σ Op Entry Res) (hs : C.Holds s)
    (hguard : Machine.admits C.guard C.guardEnv s e) (hstep : M.toSystem.step s e = some t) :
    C.Holds t := by
  cases e with
  | step p choice =>
    simp only [Machine.toSystem, Option.ite_none_right_eq_some] at hstep
    obtain ⟨hrun, hstep⟩ := hstep
    cases hprog : s.prog p with
    | ret e =>
      simp only [hprog, Option.some.injEq] at hstep
      subst hstep
      refine ⟨hs.inv, fun q hq => ?_⟩
      by_cases hqp : q = p
      · subst hqp
        have hpre := hs.prog q hrun
        rw [hprog] at hpre
        simpa using hC.code e q s.world hs.inv
          (hpre s.world (C.rely_refl q s.world) hs.inv)
      · simpa [hqp] using hs.prog q hq
    | call op k =>
      simp only [hprog, Option.map_eq_some_iff] at hstep
      obtain ⟨⟨w', r⟩, hexec, rfl⟩ := hstep
      obtain ⟨hkeeps, hrest⟩ :=
        hs.keeps hprog hrun (by simpa [Machine.admits, hprog] using hguard) hexec
      refine ⟨hkeeps.inv, fun q hq => ?_⟩
      by_cases hchild : ∃ e, M.child op r = some (q, e)
      · obtain ⟨e, he⟩ := hchild
        simp only [he, Machine.load_self]
        exact hC.code e q w' hkeeps.inv (hkeeps.child q e he)
      · have hload : M.load (Function.update s.prog p (k r)) (M.child op r) q = _ :=
          M.load_of_ne fun e he => hchild ⟨e, he⟩
        simp only [hload]
        by_cases hqp : q = p
        · subst hqp
          simpa using hrest hq
        · have hqrun := (hM.exec _ _ _ _ _ _ q hrun hexec hq).resolve_right hchild
          simpa [hqp] using wp_rely (hs.prog q hqrun) (hkeeps.rely q hqp hqrun)
  | env e =>
    simp only [Machine.toSystem, Option.map_eq_some_iff] at hstep
    obtain ⟨⟨w', ch⟩, henv, rfl⟩ := hstep
    obtain ⟨hinv, hrely, hpre⟩ := hC.env s.world e w' ch hs.inv hguard henv
    refine ⟨hinv, fun q hq => ?_⟩
    by_cases hchild : ∃ e', ch = some (q, e')
    · obtain ⟨e', rfl⟩ := hchild
      simp only [Machine.load_self]
      exact hC.code e' q w' hinv (hpre q e' rfl)
    · have hqrun := (hM.env _ _ _ _ q henv hq).resolve_right hchild
      simp only [M.load_of_ne (fun e' he => hchild ⟨e', he⟩)]
      exact wp_rely (hs.prog q hqrun) (hrely q hqrun)

/-- **Rely–guarantee.**  A sound contract holds at the end of every guarded run. -/
theorem Sound.run (hM : M.Spawns) (hC : C.Sound) {s t : Machine.State Pid σ Op Entry Res}
    {es : List (Machine.Event Pid Env)} (hs : C.Holds s)
    (hguard : M.GuardedBy C.guard C.guardEnv s es)
    (hrun : M.toSystem.run s es = some t) : C.Holds t :=
  M.toSystem.invariant_of_guarded (hC.step hM) hs hguard hrun

/-- Every operation of a guarded run is safe. -/
theorem Sound.along (hM : M.Spawns) (hC : C.Sound) {s : Machine.State Pid σ Op Entry Res}
    {es : List (Machine.Event Pid Env)} (hs : C.Holds s)
    (hguard : M.GuardedBy C.guard C.guardEnv s es) :
    M.toSystem.Along (fun s e _ => Machine.admits C.safe Machine.anyEnv s e) s es := by
  refine M.toSystem.along_of_guarded (hC.step hM) ?_ hs hguard
  intro s e t hs hg hstep
  cases e with
  | env e => trivial
  | step p choice =>
    simp only [Machine.toSystem, Option.ite_none_right_eq_some] at hstep
    obtain ⟨hrun, hstep⟩ := hstep
    cases hprog : s.prog p with
    | ret e => simp [Machine.admits, hprog]
    | call op k =>
      simp only [hprog, Option.map_eq_some_iff] at hstep
      obtain ⟨⟨w', r⟩, hexec, -⟩ := hstep
      obtain ⟨hkeeps, -⟩ :=
        hs.keeps hprog hrun (by simpa [Machine.admits, hprog] using hg) hexec
      simpa [Machine.admits, hprog] using hkeeps.safe

end Contract

end Transition
