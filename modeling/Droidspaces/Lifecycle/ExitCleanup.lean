import Droidspaces.Lifecycle.CleanupContract

/-!
# Every exit is cleaned up, if the looks agree

The programs of stop, monitor, intermediate process and init under the contract of the hand-over,
and the theorem `exit_is_cleaned_up`.

The two looks need not agree.  A stop holds the lock from before it looks for the container, so a
monitor that looks at the lock in between leaves the clean-up to a stop that is not going to do
any: `exit_beside_stop_left`.
-/

namespace Droidspaces

open Transition

variable {N : Type} {cfg : Config N} {m p : Pid} {s t : World N × HandoverHistory} {choice : ℕ}
variable [DecidableEq N]

/-! ## `stop_rootfs_with_timeout` -/

omit [DecidableEq N] in
theorem TableInv.of_command (hs : TableInv m s) (h : (s.1.procs p).role.isCommand = true) :
    p ≠ m ∧ p ≠ s.2.mid := by
  obtain ⟨n, hm⟩ := hs.monitor.2
  obtain ⟨n', hmid⟩ := hs.mid.2
  constructor <;> rintro rfl
  · rw [hm] at h
    cases h
  · rw [hmid] at h
    cases h

omit [DecidableEq N] in
theorem Calm.mayEnd (hs : HandoverInv cfg m s) (h : Calm p s) : MayEnd m s p := by
  obtain ⟨hm, hmid⟩ := hs.table.of_command h.command
  exact ⟨h.found, fun heq => absurd heq hmid, fun heq => absurd heq hm⟩

/-- A stop learns whether there is an image. -/
theorem stopping_mark {α : Type} {Q : α → World N × HandoverHistory → Prop} {n : N} {q : Pid}
    {img skip : Bool} {k : Unit → Code N α} (hs : HandoverInv cfg m s) (hfound : Found p s)
    (himg : img = true ∨ s.1.has cfg.name .mount = false)
    (h : ∀ v, HandoverInv cfg m v → Beginning cfg m p img v →
      (handoverContract cfg m).wp p (k ()) Q v) :
    (handoverContract cfg m).wp p (mark (.stopping n q img skip) >>= k) Q s := by
  refine Contract.wp_perform
    (K := fun v => Found p v ∧ (img = true ∨ v.1.has cfg.name .mount = false))
    (fun u v hu h hrely hv => ⟨found_stable u v hu h.1 hrely hv, h.2.imp_right (hrely.stays rfl)⟩)
    hs ⟨hfound, himg⟩ ?_
  rintro v ⟨hv, himg⟩ hinv hrun - choice v' r hexec
  obtain ⟨hexec', hnote⟩ := exec_of_history hexec
  obtain rfl : v' = (v.1, v.2.setTodo p .mnt img) :=
    Prod.ext (world_of_some hexec').symm hnote
  have htodo : (v.2.setTodo p .mnt img).todo p .mnt = img := by
    simp [HandoverHistory.setTodo]
  have hkeeps : (handoverContract cfg m).Keeps p v (.mark (.stopping n q img skip))
      (v.1, v.2.setTodo p .mnt img) () :=
    keeps_of_inv rfl (learn_keeps hinv hrun img hv.image)
  refine ⟨hkeeps, fun _ => h _ hkeeps.inv ⟨Or.inl hv.found, ?_, ?_, fun _ hknown => ?_⟩⟩
  · exact hinv.table.outside p hrun (hinv.table.command p hv.found)
  · exact Or.inr (himg.imp_left fun himg => htodo.trans himg)
  · exact htodo.symm.trans hknown

theorem stopRootfsWithTimeout_spec {c : Config N} (hname : c.name = cfg.name)
    (hnet : c.net = cfg.net) (hs : HandoverInv cfg m s) (hc : Calm p s) :
    (handoverContract cfg m).wp p (stopRootfsWithTimeout c false) (fun _ v => Calm p v) s := by
  have hrelease : ∀ ok : Bool, ∀ v, HandoverInv cfg m v → Calm p v → (handoverContract cfg m).wp p
      (releaseExternalLock cfg.name >>= fun _ => pure ok) (fun _ v => Calm p v) v := by
    intro ok v hv hc
    refine Contract.wp_seq
      (quiet_only (release_quiet _ _) calm_stable v hv hc) fun _ v hv hc => ?_
    exact Contract.wp_ret_of_stable calm_stable hv hc
  have hm : p ≠ m := (hs.table.of_command hc.command).1
  unfold stopRootfsWithTimeout
  rw [hname]
  refine Contract.wp_seq
    (quiet_only (acquire_quiet _ _) calm_stable s hs hc) fun ok v hv hc => ?_
  cases ok with
  | false => exact Contract.wp_ret_of_stable calm_stable hv hc
  | true =>
    refine Contract.wp_seq
      (looks_stop.isContainerRunning cfg.name c.uuid hv hc) ?_
    rintro ⟨running, pid⟩ v hv h
    cases running with
    | false => exact hrelease false v hv h
    | true =>
      obtain ⟨hfound, hpid⟩ := h
      have hgo : ¬ (!true || decide (pid = 0)) = true := by simp [hpid]
      dsimp only
      rw [if_neg hgo]
      refine quiet_ask rfl found_stable hv hfound fun v imgMount _ hv hfound _ _ hr => ?_
      have himg : imgMount = true ∨ v.1.has cfg.name .mount = false := by
        rw [World.has, show (v.1.files cfg.name).mount = imgMount from Option.some.inj hr]
        exact Bool.eq_false_or_eq_true imgMount
      refine stopping_mark hv hfound himg fun v hv hb => ?_
      -- whether the init is gone or not, its resources are cleaned up
      have hclean : ∀ killed : Bool, ∀ v, HandoverInv cfg m v → Beginning cfg m p imgMount v →
          (handoverContract cfg m).wp p
            (cleanupContainerResources c imgMount false (!killed) >>= fun _ =>
              releaseExternalLock cfg.name >>= fun _ => pure true) (fun _ v => Calm p v) v := by
        intro killed v hv hb
        refine Contract.wp_seq
          (cleanupContainerResources_spec _ hname hnet (fun h => absurd h hm) hv hb) ?_
        exact fun _ v hv hdone => hrelease true v hv (hdone.command hm)
      refine quiet_ask rfl (beginning_stable imgMount) hv hb fun v stopped _ hv hb _ _ _ => ?_
      cases stopped with
      | true => exact hclean true v hv hb
      | false =>
        refine quiet_ask rfl (beginning_stable imgMount) hv hb fun v killed _ hv hb _ _ _ => ?_
        exact hclean killed v hv hb

theorem stopCommand_spec {c : Config N} (hname : c.name = cfg.name) (hnet : c.net = cfg.net)
    (hs : HandoverInv cfg m s) (hc : Calm p s) (Q : Entry N → World N × HandoverHistory → Prop) :
    (handoverContract cfg m).wp p (stopCommand c) Q s :=
  Contract.wp_seq (stopRootfsWithTimeout_spec hname hnet hs hc) fun _ _ hv hc =>
    exit_spec calm_stable (fun _ hv hc _ => Calm.mayEnd hv hc) hv hc

/-! ## The monitor -/

/-- What the monitor knows while a boot cycle is under way. -/
structure InCycle (m mid : Pid) (settled : Bool) (s : World N × HandoverHistory) : Prop where
  mid : s.2.mid = mid
  settled : s.2.settled = settled
  late : s.2.late m = false

/-- The cycle is over, and so is the container. -/
structure Exited (m : Pid) (s : World N × HandoverHistory) : Prop where
  ended : hasExited s = true
  late : s.2.late m = false
  mid : s.1.running s.2.mid = false

theorem inCycle_stable (mid : Pid) (settled : Bool) :
    (handoverContract cfg m).Stable m (InCycle m mid settled) := by
  intro u v _ h hrely _
  obtain ⟨hsettled, hmid⟩ := hrely.monitor rfl
  exact ⟨hmid.trans h.mid, hsettled.trans h.settled, by rw [hrely.late]; exact h.late⟩

theorem exited_stable : (handoverContract cfg m).Stable m (Exited m) := by
  intro u v hu h hrely _
  refine ⟨hrely.ended (Or.inl rfl) h.ended, by rw [hrely.late]; exact h.late, ?_⟩
  rw [(hrely.monitor rfl).2, Bool.eq_false_iff]
  intro hrun
  have := h.mid
  rw [hrely.later.running hu.table.mid.1 hrun] at this
  cases this

theorem betweenCycles_stable : (handoverContract cfg m).Stable m (BetweenCycles m) := by
  intro u v hu h hrely hv
  obtain ⟨hended, hlate, hmid⟩ :=
    exited_stable u v hu ⟨h.ended, h.late, h.mid⟩ hrely hv
  exact ⟨hended, (hrely.alone rfl h.ended h.nobody).1, hlate, hmid⟩

/-- The monitor knows that somebody cleans up, or has done so. -/
structure Yields (s : World N × HandoverHistory) : Prop where
  ended : hasExited s = true
  heir : s.2.cleaned = true ∨ AnyFound s

theorem yields_stable : (handoverContract cfg m).Stable m Yields := fun _ _ _ h hrely _ =>
  ⟨hrely.ended (Or.inl rfl) h.ended, hrely.heir rfl h.ended h.heir⟩

omit [DecidableEq N] in
theorem Yields.mayEnd (hs : HandoverInv cfg m s) (h : Yields s) : MayEnd m s m := by
  refine ⟨hs.table.monitor_not_found, fun _ => ?_, fun _ => ⟨h.ended, h.heir⟩⟩
  obtain ⟨hreported, -, hinit⟩ := hasExited_iff.1 h.ended
  exact ⟨hreported, hinit⟩

/-- `is_external_lock_active`, under the guard: the lock is held while a stop is on its way, or has
been since the exit. -/
theorem isExternalLockActive_handover {n : N} (hs : HandoverInv cfg m s) (h : Exited m s) :
    (handoverContract cfg m).wp m (isExternalLockActive n)
      (fun held v => if held = true then Yields v else BetweenCycles m v) s := by
  have hfree : ∀ v q, HandoverInv cfg m v → Exited m v → handsOver cfg m v m (.query q) = true →
      q.lockHeld v.1 = some false → BetweenCycles m v := by
    intro v q hv h hguard hheld
    refine ⟨h.ended, fun hany => ?_, h.late, h.mid⟩
    simp only [handsOver, hheld, ne_eq, not_true_eq_false, decide_false, Bool.false_or,
      (anyFound_iff hv.table.ok).2 hany] at hguard
    cases hguard
  have hend : ∀ v, HandoverInv cfg m v → BetweenCycles m v → (handoverContract cfg m).wp m
      (mark (.lockReturn n) >>= fun _ => pure false)
      (fun held v => if held = true then Yields v else BetweenCycles m v) v := by
    intro v hv h
    refine quiet_next rfl betweenCycles_stable hv h fun v _ hv h => ?_
    exact Contract.wp_ret fun u hrely hu => betweenCycles_stable v u hv h hrely hu
  have hunlink : ∀ v, HandoverInv cfg m v → BetweenCycles m v → (handoverContract cfg m).wp m
      (act (.unlinkLock n) >>= fun _ => mark (.lockReturn n) >>= fun _ => pure false)
      (fun held v => if held = true then Yields v else BetweenCycles m v) v := fun v hv h =>
    quiet_next (Op.isQuiet_unlinkLock cfg.name n) betweenCycles_stable hv h fun v _ hv h =>
      hend v hv h
  unfold isExternalLockActive
  refine quiet_ask rfl exited_stable hs h fun v there _ hv h _ hguard hr => ?_
  cases there with
  | false =>
    have hno : (v.1.files n).lock.isSome = false := Option.some.inj hr
    exact hend v hv (hfree v _ hv h hguard (by simp [Query.lockHeld, hno]))
  | true =>
    refine quiet_ask rfl exited_stable hv h fun v buf _ hv h _ hguard hr => ?_
    have hbuf : (v.1.files n).lock.map (readFile 64) = buf := Option.some.inj hr
    cases buf with
    | none => exact hunlink v hv (hfree v _ hv h hguard (by simp [Query.lockHeld, hbuf]))
    | some buf =>
      cases buf with
      | nil => exact hunlink v hv (hfree v _ hv h hguard (by simp [Query.lockHeld, hbuf]))
      | cons c cs =>
        refine quiet_ask rfl exited_stable hv h fun v holder _ hv h _ hguard hr => ?_
        have hholder : lockHolderIfAlive v.1.boot v.1.present (c :: cs) = holder :=
          Option.some.inj hr
        cases holder with
        | none => exact hunlink v hv (hfree v _ hv h hguard (by simp [Query.lockHeld, hholder]))
        | some x =>
          have hheir : Yields v := by
            refine ⟨h.ended, ?_⟩
            simp only [handsOver, Query.lockHeld, hholder, Option.isSome_some, ne_eq,
              not_true_eq_false, decide_false, Bool.false_or, Bool.or_eq_true,
              anyFound_iff hv.table.ok] at hguard
            exact hguard
          refine quiet_next rfl yields_stable hv hheir fun v _ hv h => ?_
          exact Contract.wp_ret fun u hrely hu => yields_stable v u hv h hrely hu

/-- What a fork does, when its note concerns neither stops nor clean-ups. -/
theorem forked_of_exec {e : Entry N} {c : Pid} (hs : HandoverInv cfg m s)
    (hrun : s.1.running p = true) (hexec : exec s.1 p (.action (.fork e)) choice = some (t.1, c))
    (hfound : t.2.found = s.2.found) (htodo : t.2.todo = s.2.todo) (hlate : t.2.late = s.2.late) :
    Forked cfg m c s t := by
  obtain ⟨hunborn, hborn⟩ := exec_fork hexec
  refine ⟨exec_ok hs.table.ok hrun hexec, exec_later hrun hexec, hunborn, ?_,
    fun q hq => fork_sameTable hexec hq, fun hvacated => ?_,
    exec_mnt (by simp [Op.slot, Action.slot]) hexec,
    fun slot => exec_has (by simp [Op.slot, Action.slot]) hexec, hfound, htodo, hlate⟩
  · rw [World.running_iff, hborn]
    rfl
  · rw [hborn]
    exact hvacated p hrun

/-- The monitor leaves its cgroup before it cleans up. -/
theorem cgroupLeave_spec {α : Type} {Q : α → World N × HandoverHistory → Prop}
    {k : Unit → Code N α} (img : Bool) (hs : HandoverInv cfg m s) (h : BetweenCycles m s)
    (hk : ∀ v, HandoverInv cfg m v → Beginning cfg m m img v →
      (handoverContract cfg m).wp m (k ()) Q v) :
    (handoverContract cfg m).wp m (act .cgroupLeave >>= k) Q s := by
  refine Contract.wp_perform betweenCycles_stable hs h ?_
  intro v hv hinv hrun _ choice v' r hexec
  obtain ⟨hexec', hnote⟩ := exec_of_history hexec
  have hworld : v'.1 = v.1.setProc m fun q => { q with cgroup := none } :=
    (world_of_some hexec').symm
  have hrunning : ∀ q, v'.1.running q = v.1.running q := fun q => by
    rw [hworld]
    by_cases hq : q = m
    · subst hq
      simp [World.running]
    · simp [World.running, World.setProc_of_ne hq]
  have halike : Alike cfg m m v v' := by
    refine alike_of_files (exec_ok hinv.table.ok hrun hexec') (exec_later hrun hexec')
      (by rw [hworld]; rfl) hnote (fun q hq => (hrunning q).symm.trans hq) (fun q => ?_)
      (fun q hq hdead => ?_)
    · rw [hworld]
      by_cases hq : q = m
      · subst hq
        exact Or.inl (by simp)
      · exact Or.inr (by rw [World.setProc_of_ne hq])
    · rw [hrunning, hq] at hdead
      cases hdead
  have hinv' := halike.inv hrun hinv
  have hb := betweenCycles_stable v v' hinv hv (halike.rely_self hnote m) hinv'
  refine ⟨⟨trivial, hinv', fun q hq _ => halike.rely hq, fun q e hch => by cases hch⟩, fun _ =>
    hk v' hinv' ⟨Or.inr ⟨rfl, hb.ended, hb.nobody⟩, ?_, Or.inl rfl, fun hm => absurd rfl hm⟩⟩
  rw [hworld, World.setProc_self]

theorem afterCycle_spec {c : Config N} {how : Exit} (hname : c.name = cfg.name)
    (hnet : c.net = cfg.net) (himg : c.img = cfg.img) (hs : HandoverInv cfg m s)
    (h : Exited m s) :
    (handoverContract cfg m).wp m (afterCycle c how)
      (fun e v => (handoverContract cfg m).pre e m v) s := by
  unfold afterCycle
  refine Contract.wp_seq (isExternalLockActive_handover hs h) ?_
  intro held v hv h
  cases held with
  | true => exact exit_spec yields_stable (fun _ hv h _ => Yields.mayEnd hv h) hv h
  | false =>
    cases how with
    | normal =>
      refine cgroupLeave_spec c.img hv h fun v hv hb => ?_
      refine Contract.wp_seq
        (cleanupContainerResources_spec false hname hnet (fun _ => himg) hv hb) fun _ v hv h => ?_
      obtain ⟨hended, hheir⟩ := h.monitor rfl
      exact exit_spec yields_stable (fun _ hv h _ => Yields.mayEnd hv h) hv ⟨hended, hheir⟩
    | reboot =>
      have hlooks : Looks cfg m m (BetweenCycles m) fun _ => False := by
        refine looks_of_ended betweenCycles_stable (fun v hv _ _ => Or.inl ?_) fun _ h => h.ended
        obtain ⟨n, hrole⟩ := hv.table.monitor.2
        rw [hrole]
        rfl
      refine Contract.wp_seq (hlooks.readAndValidatePid c.name hv h) ?_
      rintro ⟨verdict, pid⟩ v hv h
      have hb : BetweenCycles m v := by
        cases hverdict : decide (verdict = .running) with
        | false =>
          simp only [hverdict] at h
          exact h
        | true =>
          simp only [hverdict] at h
          exact h.1.elim
      refine quiet_ask rfl betweenCycles_stable hv hb fun v loaded _ hv hb _ _ _ => ?_
      exact Contract.wp_ret fun u hrely hu =>
        ⟨rfl, hname, himg, betweenCycles_stable v u hv hb hrely hu⟩

/-- The end of a cycle. -/
theorem waitMid_spec {α : Type} {Q : α → World N × HandoverHistory → Prop} {mid : Pid}
    {k : Exit → Code N α} (hs : HandoverInv cfg m s) (h : InCycle m mid true s)
    (hk : ∀ how v, HandoverInv cfg m v → Exited m v → (handoverContract cfg m).wp m (k how) Q v) :
    (handoverContract cfg m).wp m (ask (.waitMid mid) >>= k) Q s := by
  refine quiet_ask rfl (inCycle_stable mid true) hs h fun v how _ hv h _ _ hr => ?_
  have hgone : v.1.running v.2.mid = false := by
    simp only [answer, Option.ite_none_right_eq_some] at hr
    rw [h.mid, World.running, hr.1]
    rfl
  obtain ⟨hreported, hinit⟩ := hv.waits hgone
  exact hk how v hv ⟨hasExited_iff.2 ⟨hreported, h.settled, hinit⟩, h.late, hgone⟩

/-- The monitor notes that it has nothing more to set up. -/
theorem settle_op {op : Op N} {r : op.Res} {mid : Pid} (hs : HandoverInv cfg m s)
    (hrun : s.1.running m = true) (h : InCycle m mid false s)
    (hexec : (handoverMachine cfg.name).exec s m op choice = some (t, r))
    (hstill : op.isStill = true) (hslot : op.slot = none)
    (hnote : t.2 = { s.2 with settled := true }) :
    (handoverContract cfg m).Keeps m s op t r ∧ InCycle m mid true t := by
  obtain ⟨hexec', -⟩ := exec_of_history hexec
  have htable := exec_sameTable hstill hexec'
  have hhas : ∀ slot, t.1.has cfg.name slot = s.1.has cfg.name slot := fun slot =>
    exec_has (by simp [hslot]) hexec'
  have halike : Alike cfg m m s t := by
    refine ⟨steady_of_isStill hs hrun hexec hstill (fun slot _ hh => hhas slot ▸ hh) ?_ ?_ ?_ ?_ ?_,
      exec_mnt (by simp [hslot]) hexec', fun slot _ => hhas slot, ?_, ?_, ?_, ?_,
      fun q hq hdead => ?_⟩
    any_goals rw [hnote]
    · exact Or.inl rfl
    · exact Or.inr ⟨rfl, rfl⟩
    · exact fun _ _ => ⟨rfl, rfl, rfl⟩
    · exact Or.inl rfl
    · rw [htable.running, hq] at hdead
      cases hdead
  refine ⟨keeps_of_inv hstill ⟨halike.inv hrun hs, fun q hq => halike.rely hq⟩, ?_, ?_, ?_⟩ <;>
    rw [hnote]
  · exact h.mid
  · exact h.late

/-- The handshake ends in any case with a container that is set up. -/
theorem monitorHandshake_spec {c : Config N} {mid : Pid} (hname : c.name = cfg.name)
    (hnet : c.net = cfg.net) (hs : HandoverInv cfg m s) (h : InCycle m mid false s) :
    (handoverContract cfg m).wp m (monitorHandshake c mid) (fun _ v => InCycle m mid true v) s := by
  have hdone : ∀ init v, HandoverInv cfg m v → InCycle m mid false v →
      (handoverContract cfg m).wp m (act (.netDoneWrite init))
        (fun _ v => InCycle m mid true v) v := by
    intro init v hv h
    refine Contract.wp_perform (k := .ret) (inCycle_stable mid false) hv h ?_
    intro v h hinv hrun _ choice v' r hexec
    obtain ⟨hkeeps, hcycle⟩ := settle_op hinv hrun h hexec rfl rfl (exec_of_history hexec).2
    exact ⟨hkeeps, fun _ => Contract.wp_ret_of_stable (inCycle_stable mid true) hkeeps.inv hcycle⟩
  refine Contract.wp_perform (inCycle_stable mid false) hs h ?_
  intro v h hinv hrun _ choice v' init hexec
  obtain ⟨hexec', hnote⟩ := exec_of_history hexec
  cases init with
  | none =>
    obtain ⟨hkeeps, hcycle⟩ := settle_op hinv hrun h hexec rfl rfl hnote
    exact ⟨hkeeps, fun _ => Contract.wp_ret_of_stable (inCycle_stable mid true) hkeeps.inv hcycle⟩
  | some init =>
    obtain rfl : v' = v := Prod.ext (exec_query hexec').1 hnote
    refine ⟨keeps_of_inv rfl ⟨hinv, fun q _ => (handoverContract cfg m).rely_refl q v'⟩,
      fun _ => ?_⟩
    refine quiet_ask rfl (inCycle_stable mid false) hinv h fun v _ _ hv h _ _ _ => ?_
    rw [hnet]
    split
    · next hrules =>
      refine Contract.wp_perform (inCycle_stable mid false) hv h ?_
      intro v h hinv hrun _ choice v' r hexec
      have hup : hasExited v = false := by simp [hasExited, h.settled]
      obtain ⟨hkeeps, hrely⟩ :=
        fill_op hinv hrun (Or.inr ⟨rfl, hrules⟩) hname (Or.inl hup) hexec
      exact ⟨hkeeps, fun _ => hdone init v' hkeeps.inv
        (inCycle_stable mid false v v' hinv h hrely hkeeps.inv)⟩
    · exact hdone init v hv h

theorem rebootLoop_spec {c : Config N} (hname : c.name = cfg.name) (himg : c.img = cfg.img)
    (hs : HandoverInv cfg m s) (h : BetweenCycles m s) :
    (handoverContract cfg m).wp m (rebootLoop c true)
      (fun e v => (handoverContract cfg m).pre e m v) s := by
  refine Contract.wp_perform betweenCycles_stable hs h ?_
  intro v h hinv hrun hguard choice v' mid hexec
  obtain ⟨hexec', hnote⟩ := exec_of_history hexec
  have hnet : c.net = cfg.net := eq_of_beq hguard
  have hforked : Forked cfg m mid v v' :=
    forked_of_exec hinv hrun hexec' (by rw [hnote]; rfl) (by rw [hnote]; rfl) (by rw [hnote]; rfl)
  have hrole : (v'.1.procs mid).role = .intermediate c.name := by
    rw [(exec_fork hexec').2]
    rfl
  obtain ⟨hinv', hrely⟩ := cycle_keeps hinv hrun h.ended h.nobody h.late h.mid hforked ⟨_, hrole⟩
    (by rw [hnote]; rfl) (by rw [hnote]; rfl) (by rw [hnote]; rfl) (by rw [hnote]; rfl)
  have hchildless : Childless mid v' := by
    refine ⟨by rw [hnote]; rfl, by rw [hnote]; rfl, ?_⟩
    have hinit : v'.2.init = v.2.init := by rw [hnote]; rfl
    have hne : v.2.init ≠ mid := fun heq => hinv.table.init.1 (heq ▸ hforked.unborn)
    rw [hinit, (hforked.others _ hne).1]
    exact (hasExited_iff.1 h.ended).2.2
  refine ⟨⟨trivial, hinv', fun q hq hq' => hrely q hq hq', fun q e hch => ?_⟩, fun _ => ?_⟩
  · obtain ⟨rfl, rfl⟩ := Prod.mk.inj (Option.some.inj hch)
    exact ⟨hname, hchildless⟩
  have hcycle : InCycle m mid (c.net == .host) v' :=
    ⟨by rw [hnote]; rfl, by rw [hnote]; rfl, by rw [hnote]; exact h.late⟩
  have hend : ∀ v, HandoverInv cfg m v → InCycle m mid true v → (handoverContract cfg m).wp m
      (ask (.waitMid mid) >>= fun how => afterCycle c how)
      (fun e v => (handoverContract cfg m).pre e m v) v := fun v hv h =>
    waitMid_spec hv h fun how v hv h => afterCycle_spec hname hnet himg hv h
  by_cases hhost : c.net ≠ .host
  · rw [beq_eq_false_iff_ne.2 hhost] at hcycle
    simp only [if_pos hhost]
    refine Contract.wp_seq (monitorHandshake_spec hname hnet hinv' hcycle) ?_
    exact fun _ v hv h => hend v hv h
  · rw [beq_iff_eq.2 (not_not.1 hhost)] at hcycle
    simp only [if_neg hhost]
    exact hend v' hinv' hcycle

/-! ## The intermediate process -/

/-- The intermediate process after its fork. -/
structure Parent (p init : Pid) (reported : Bool) (s : World N × HandoverHistory) : Prop where
  mid : p = s.2.mid
  init : s.2.init = init
  reported : s.2.reported = reported

/-- It has waited for its init. -/
structure Waited (p : Pid) (s : World N × HandoverHistory) : Prop where
  mid : p = s.2.mid
  reported : s.2.reported = true
  init : s.1.running s.2.init = false

theorem parent_stable (init : Pid) (reported : Bool) :
    (handoverContract cfg m).Stable p (Parent p init reported) := by
  intro u v _ h hrely _
  obtain ⟨hmid, hinit, hreported⟩ := hrely.mid h.mid
  exact ⟨h.mid.trans hmid.symm, hinit.trans h.init, hreported.trans h.reported⟩

theorem waited_stable : (handoverContract cfg m).Stable p (Waited p) := by
  intro u v hu h hrely _
  obtain ⟨hmid, hinit, hreported⟩ := hrely.mid h.mid
  refine ⟨h.mid.trans hmid.symm, hreported.trans h.reported, ?_⟩
  rw [hinit, Bool.eq_false_iff]
  intro hrun
  have := h.init
  rw [hrely.later.running hu.table.init.1 hrun] at this
  cases this

theorem childless_stable : (handoverContract cfg m).Stable p (Childless p) := by
  intro u v hu h hrely _
  obtain ⟨hmid, hinit, hreported⟩ := hrely.mid h.mid
  refine ⟨h.mid.trans hmid.symm, hreported.trans h.reported, ?_⟩
  rw [hinit, Bool.eq_false_iff]
  intro hrun
  have := h.init
  rw [hrely.later.running hu.table.init.1 hrun] at this
  cases this

omit [DecidableEq N] in
theorem Waited.mayEnd (hs : HandoverInv cfg m s) (h : Waited p s) : MayEnd m s p := by
  obtain ⟨n, hrole⟩ := hs.table.mid.2
  refine ⟨?_, fun _ => ⟨h.reported, h.init⟩, fun hm => ?_⟩
  · by_contra hfound
    have hcommand := hs.table.command p (by simpa using hfound)
    rw [h.mid, hrole] at hcommand
    cases hcommand
  · obtain ⟨n', hmonitor⟩ := hs.table.monitor.2
    rw [← hm, h.mid, hrole] at hmonitor
    cases hmonitor

/-- The end of the intermediate process. -/
theorem waitInit_spec {init : Pid} {k : Exit → Code N (Entry N)}
    {Q : Entry N → World N × HandoverHistory → Prop} (hs : HandoverInv cfg m s)
    (h : Parent p init true s)
    (hk : ∀ how v, HandoverInv cfg m v → Waited p v → (handoverContract cfg m).wp p (k how) Q v) :
    (handoverContract cfg m).wp p (act (.waitInit init) >>= k) Q s := by
  refine quiet_op rfl (parent_stable init true) hs h ?_
  intro v v' how _ _ h _ _ hexec hnote hv' h'
  refine hk how v' hv' ⟨h'.mid, h'.reported, ?_⟩
  have hdead : v.1.running init = false := by
    simp only [exec, effect, Option.ite_none_right_eq_some] at hexec
    rcases hexec.1 with hz | hg
    · rw [World.running, hz]
      rfl
    · rw [World.running, hg]
      rfl
  rw [h'.init, (exec_sameTable rfl hexec).running]
  exact hdead

/-- The intermediate process reports its init. -/
theorem reported_mark {α : Type} {Q : α → World N × HandoverHistory → Prop} {n : N} {init : Pid}
    {k : Unit → Code N α} (hs : HandoverInv cfg m s) (h : Parent p init false s)
    (hk : ∀ v, HandoverInv cfg m v → Parent p init true v →
      (handoverContract cfg m).wp p (k ()) Q v) :
    (handoverContract cfg m).wp p (mark (.reported n) >>= k) Q s := by
  refine Contract.wp_perform (parent_stable init false) hs h ?_
  intro v h hinv hrun _ choice v' r hexec
  obtain ⟨hexec', hnote⟩ := exec_of_history hexec
  obtain rfl : v' = (v.1, { v.2 with reported := true }) :=
    Prod.ext (world_of_some hexec').symm hnote
  have halike : Alike cfg m p v (v.1, { v.2 with reported := true }) := by
    refine ⟨⟨hinv.table.ok, World.Later.refl _, fun _ => id, fun _ => Or.inr rfl, rfl, rfl,
      fun _ => rfl, id, fun hp => absurd h.mid hp, fun _ => rfl, fun _ _ => ⟨rfl, rfl, rfl⟩,
      fun _ _ => id⟩, rfl, fun _ _ => rfl, rfl, rfl, rfl, Or.inl rfl, fun q hq hdead => ?_⟩
    rw [hq] at hdead
    cases hdead
  exact ⟨keeps_of_inv rfl ⟨halike.inv hrun hinv, fun q hq => halike.rely hq⟩, fun _ =>
    hk _ (halike.inv hrun hinv) ⟨h.mid, h.init, rfl⟩⟩

theorem intermediate_spec {c : Config N} (hname : c.name = cfg.name) (hs : HandoverInv cfg m s)
    (h : Childless p s) (Q : Entry N → World N × HandoverHistory → Prop) :
    (handoverContract cfg m).wp p (intermediate c true) Q s := by
  refine Contract.wp_perform childless_stable hs h ?_
  intro v h hinv hrun _ choice v' init hexec
  obtain ⟨hexec', hnote⟩ := exec_of_history hexec
  have hforked : Forked cfg m init v v' :=
    forked_of_exec hinv hrun hexec' (by rw [hnote]; rfl) (by rw [hnote]; rfl) (by rw [hnote]; rfl)
  have hrole : (v'.1.procs init).role = .init c.name := by
    rw [(exec_fork hexec').2]
    rfl
  obtain ⟨hinv', hrely⟩ :=
    boot_init_keeps hinv (h.mid ▸ hrun) h.reported h.init hforked ⟨_, hrole⟩ hnote
  refine ⟨⟨trivial, hinv', fun q hq hq' => hrely q (h.mid ▸ hq) hq', fun q e hch => ?_⟩,
    fun _ => ?_⟩
  · obtain ⟨rfl, rfl⟩ := Prod.mk.inj (Option.some.inj hch)
    exact ⟨hname, by rw [hnote]; rfl⟩
  have hparent : Parent p init false v' :=
    ⟨by rw [hnote]; exact h.mid, by rw [hnote]; rfl, by rw [hnote]; exact h.reported⟩
  have hend : ∀ v, HandoverInv cfg m v → Parent p init false v → (handoverContract cfg m).wp p
      (act (.writePid c.name init) >>= fun _ => mark (.reported c.name) >>= fun _ =>
        act (.waitInit init) >>= fun how => act (.exit how) >>= fun _ => pure .exited) Q v := by
    intro v hv h
    refine Contract.wp_perform (parent_stable init false) hv h ?_
    intro v h hinv hrun _ choice v' r hexec
    have hup : hasExited v = false := by simp [hasExited, h.reported]
    obtain ⟨hkeeps, hrely⟩ := fill_op hinv hrun (Or.inl ⟨init, rfl⟩) hname (Or.inl hup) hexec
    refine ⟨hkeeps, fun _ => reported_mark hkeeps.inv
      (parent_stable init false v v' hinv h hrely hkeeps.inv) fun v hv h => ?_⟩
    exact waitInit_spec hv h fun how v hv h =>
      exit_spec waited_stable (fun _ hv h _ => Waited.mayEnd hv h) hv h
  by_cases hhost : c.net ≠ .host
  · simp only [if_pos hhost]
    exact quiet_next rfl (parent_stable init false) hinv' hparent fun v _ hv h => hend v hv h
  · simp only [if_neg hhost]
    exact hend v' hinv' hparent

/-! ## The init -/

theorem init_stable : (handoverContract cfg m).Stable p fun s => p = s.2.init :=
  fun _ _ _ h hrely _ => h.trans (hrely.init h).symm

omit [DecidableEq N] in
theorem TableInv.of_init (hs : TableInv m s) (h : p = s.2.init) :
    (s.1.procs p).role.isCommand = false ∧ p ≠ m ∧ p ≠ s.2.mid := by
  obtain ⟨n, hinit⟩ := hs.init.2
  obtain ⟨n', hm⟩ := hs.monitor.2
  obtain ⟨n'', hmid⟩ := hs.mid.2
  rw [← h] at hinit
  refine ⟨by rw [hinit]; rfl, ?_, ?_⟩ <;> intro heq
  · rw [← heq, hinit] at hm
    cases hm
  · rw [← heq, hinit] at hmid
    cases hmid

omit [DecidableEq N] in
theorem HandoverInv.init_mayEnd (hs : HandoverInv cfg m s) (h : p = s.2.init) :
    MayEnd m s p := by
  obtain ⟨hrole, hm, hmid⟩ := hs.table.of_init h
  refine ⟨?_, fun heq => absurd heq hmid, fun heq => absurd heq hm⟩
  by_contra hfound
  rw [hs.table.command p (by simpa using hfound)] at hrole
  cases hrole

theorem bootRootfs_spec {c : Config N} (hs : HandoverInv cfg m s) (h : p = s.2.init) :
    (handoverContract cfg m).wp p (bootRootfs c)
      (fun e v => (handoverContract cfg m).pre e p v) s := by
  have hidentity : ∀ v, HandoverInv cfg m v → p = v.2.init → (handoverContract cfg m).wp p
      (act (.markIdentity c.img) >>= fun _ => (pure .exited : Code N (Entry N)))
      (fun e v => (handoverContract cfg m).pre e p v) v := fun v hv h =>
    quiet_next rfl init_stable hv h fun _ _ _ _ => Contract.wp_ret fun _ _ _ => trivial
  unfold bootRootfs
  refine quiet_ask rfl init_stable hs h fun v ok _ hv h _ _ _ => ?_
  cases ok with
  | false => exact exit_spec init_stable (fun _ hv h _ => HandoverInv.init_mayEnd hv h) hv h
  | true =>
    refine quiet_next rfl init_stable hv h fun v _ hv h => ?_
    cases c.uuid with
    | none => exact hidentity v hv h
    | some u => exact quiet_next rfl init_stable hv h fun v _ hv h => hidentity v hv h

theorem internalBoot_handover {c : Config N} (hs : HandoverInv cfg m s) (h : p = s.2.init) :
    (handoverContract cfg m).wp p (internalBoot c)
      (fun e v => (handoverContract cfg m).pre e p v) s := by
  have hlooks : Looks cfg m p (fun v => p = v.2.init) fun v => p = v.2.init :=
    looks_init init_stable (fun _ hv h _ => (hv.table.of_init h).1) fun _ h => h
  have hpassed : ∀ v, HandoverInv cfg m v → p = v.2.init → (handoverContract cfg m).wp p
      (mark (.bootPassed c.name) >>= fun _ => bootRootfs c)
      (fun e v => (handoverContract cfg m).pre e p v) v := fun v hv h =>
    quiet_next rfl init_stable hv h fun v _ hv h => bootRootfs_spec hv h
  have hguard : ∀ v, HandoverInv cfg m v → p = v.2.init → (handoverContract cfg m).wp p
      (mark (.bootGuard c.name) >>= fun _ => isContainerRunning c.name c.uuid >>= fun a =>
        if a.1 = true then ask .self >>= fun self =>
          if a.2 ≠ self then act (.exit .normal) >>= fun _ => pure Entry.exited
          else mark (.bootPassed c.name) >>= fun _ => bootRootfs c
        else mark (.bootPassed c.name) >>= fun _ => bootRootfs c)
      (fun e v => (handoverContract cfg m).pre e p v) v := by
    intro v hv h
    refine quiet_next rfl init_stable hv h fun v _ hv h => ?_
    refine Contract.wp_seq (hlooks.isContainerRunning c.name c.uuid hv h) ?_
    rintro ⟨running, pid⟩ v hv h
    cases running with
    | false => exact hpassed v hv h
    | true =>
      refine quiet_ask rfl init_stable hv h.1 fun v self _ hv h _ _ _ => ?_
      by_cases hself : pid = self
      · rw [if_neg (not_not.2 hself)]
        exact hpassed v hv h
      · rw [if_pos hself]
        exact exit_spec init_stable (fun _ hv h _ => HandoverInv.init_mayEnd hv h) hv h
  unfold internalBoot initHandshake
  by_cases hhost : c.net ≠ .host
  · simp only [if_pos hhost]
    refine quiet_next rfl init_stable hs h fun v _ hv h => ?_
    refine quiet_ask rfl init_stable hv h fun v _ _ hv h _ _ _ => ?_
    exact hguard v hv h
  · simp only [if_neg hhost]
    exact hguard s hs h

/-! ## The theorem -/

theorem handover_sound : (handoverContract cfg m).Sound where
  code e p s hs hpre := by
    cases e with
    | exited => exact Contract.wp_ret fun _ _ _ => trivial
    | stop c =>
      obtain ⟨hname, hnet, hcalm⟩ := hpre
      exact stopCommand_spec hname hnet hs hcalm _
    | rebootLoop c rebootCycle =>
      cases rebootCycle with
      | false => exact hpre.elim
      | true =>
        obtain ⟨rfl, hname, himg, hbetween⟩ := hpre
        exact rebootLoop_spec hname himg hs hbetween
    | intermediate c rebootCycle =>
      cases rebootCycle with
      | false => exact hpre.elim
      | true => exact intermediate_spec hpre.1 hs hpre.2 _
    | init c => exact internalBoot_handover hs hpre.2
    | _ => exact hpre.elim
  env := by
    rintro s e t ch hs hguard henv
    obtain ⟨henv', hnote⟩ := hostEnv_of_history henv
    have hnote : t.2 = s.2 := hnote
    cases e with
    | spawn c e =>
      cases e with
      | stop c' =>
        have hstop : (decide (c'.name = cfg.name) && c'.net == cfg.net) = true := hguard
        simp only [Bool.and_eq_true, decide_eq_true_eq, beq_iff_eq] at hstop
        simp only [hostEnv, Option.ite_none_right_eq_some, Option.map_eq_some_iff] at henv'
        obtain ⟨-, v, hv, heq⟩ := henv'
        obtain ⟨hworld, rfl⟩ := Prod.mk.inj heq
        obtain ⟨hunborn, -, -, hafter⟩ := World.born_eq_some hv
        have hself : t.1.procs c = Proc.newborn (.stop c') 0 none none := by
          rw [← hworld, hafter]
          exact Function.update_self _ _ _
        have hforked : Forked cfg m c s t := by
          refine ⟨hworld ▸ hs.table.ok.born hv (Or.inl rfl), hworld ▸ World.later_born hv, hunborn,
            ?_, fun q hq => ?_, fun _ => ?_, ?_, fun slot => ?_, by rw [hnote], by rw [hnote],
            by rw [hnote]⟩
          · rw [World.running, hself]
            rfl
          · rw [← hworld, hafter]
            simp [World.running, hq]
          · rw [hself]
            simp [Proc.newborn]
          · rw [← hworld, hafter]
          · rw [← hworld, hafter]
            cases slot <;> rfl
        obtain ⟨hinv, hrely⟩ :=
          spawn_keeps hs hforked hnote (by rw [hself]; rfl) (by rw [hself]; rfl)
        refine ⟨hinv, hrely, fun q e' hch => ?_⟩
        obtain ⟨rfl, rfl⟩ := Prod.mk.inj (Option.some.inj hch)
        refine ⟨hstop.1, hstop.2, World.ne_unborn_of_running hforked.running, ?_, ?_⟩
        · rw [hself]
          rfl
        · rw [hnote]
          exact hs.table.unborn _ hunborn
      | _ => cases hguard
    | die c how =>
      simp only [hostEnv, Option.ite_none_right_eq_some, Option.some.injEq, Prod.mk.injEq] at henv'
      obtain ⟨hrun, hworld, rfl⟩ := henv'
      have hexit : isStopOrExit cfg s (.die c how) = true := hguard
      have hinit : c = s.2.init := by
        simp only [isStopOrExit] at hexit
        split at hexit
        · next n hrole => exact hs.table.inits c n hrun hrole
        · cases hexit
      have halike : Alike cfg m c s t :=
        alike_of_kill hs hrun hworld.symm hnote (HandoverInv.init_mayEnd hs hinit)
      exact ⟨halike.inv hrun hs, fun q _ => halike.rely_self hnote q, fun q e' hch => by cases hch⟩

/-- The container is up: its start is through, its init runs, and monitor and intermediate process
wait for it. -/
structure Up (cfg : Config N) (m i c : Pid)
    (s : Machine.State Pid (World N) (Op N) (Entry N) Op.Res) : Prop where
  ok : s.world.Ok
  monitor : (s.world.procs m).role = .monitor cfg.name
  mid : (s.world.procs i).role = .intermediate cfg.name
  init : (s.world.procs c).role = .init cfg.name
  running : ∀ q, s.world.running q = true ↔ q = m ∨ q = i ∨ q = c
  few : (s.world.files cfg.name).mnt ≤ 1
  image : s.world.has cfg.name .mnt = true → cfg.img = true
  sidecar : s.world.has cfg.name .mnt = true → s.world.has cfg.name .mount = true
  rules : s.world.has cfg.name .rules = true → cfg.net = .nat ∨ cfg.net = .gateway
  waitsMid : s.prog m = ask (.waitMid i) >>= fun how => afterCycle cfg how
  waitsInit : s.prog i =
    act (.waitInit c) >>= fun how => act (.exit how) >>= fun _ => pure .exited
  boots : s.prog c = .ret .exited

/-- With the history of its exit. -/
def withHandover (i c : Pid) (s : Machine.State Pid (World N) (Op N) (Entry N) Op.Res) :
    Machine.State Pid (World N × HandoverHistory) (Op N) (Entry N) Op.Res :=
  ⟨(s.world, .up i c), s.prog⟩

omit [DecidableEq N] in
theorem Up.inv {i c : Pid} {s : Machine.State Pid (World N) (Op N) (Entry N) Op.Res}
    (h : Up cfg m i c s) : HandoverInv cfg m (s.world, .up i c) := by
  have hm : s.world.running m = true := (h.running m).2 (Or.inl rfl)
  have hi : s.world.running i = true := (h.running i).2 (Or.inr (Or.inl rfl))
  have hc : s.world.running c = true := (h.running c).2 (Or.inr (Or.inr rfl))
  have hrole : ∀ q, s.world.running q = true → (s.world.procs q).role = .monitor cfg.name ∨
      (s.world.procs q).role = .intermediate cfg.name ∨ q = c := by
    intro q hq
    rcases (h.running q).1 hq with rfl | rfl | rfl
    · exact Or.inl h.monitor
    · exact Or.inr (Or.inl h.mid)
    · exact Or.inr (Or.inr rfl)
  have hended : hasExited (s.world, .up i c) ≠ true := by
    simp [hasExited, HandoverHistory.up, hc]
  refine ⟨⟨h.ok, fun _ _ => rfl, fun q hq => ?_, fun q hq hcommand => ?_,
    fun q n hq hinit => ?_, ?_, ?_, ?_⟩, fun hdead => ?_, fun _ => hm, h.few, h.image, h.rules,
    fun _ => ?_, fun _ _ => h.sidecar, fun hh => absurd hh hended, fun hh => absurd hh hended⟩
  · cases hq
  · change (s.world.procs q).role.isCommand = true at hcommand
    rcases hrole q hq with hq | hq | rfl
    · rw [hq] at hcommand
      cases hcommand
    · rw [hq] at hcommand
      cases hcommand
    · rw [h.init] at hcommand
      cases hcommand
  · change (s.world.procs q).role = .init n at hinit
    rcases hrole q hq with hq | hq | hq
    · rw [hq] at hinit
      cases hinit
    · rw [hq] at hinit
      cases hinit
    · exact hq
  · exact ⟨World.ne_unborn_of_running hc, _, h.init⟩
  · exact ⟨World.ne_unborn_of_running hi, _, h.mid⟩
  · exact ⟨World.ne_unborn_of_running hm, _, h.monitor⟩
  · change s.world.running i = false at hdead
    rw [hi] at hdead
    cases hdead
  · exact ⟨rfl, rfl, fun q slot _ hfound => by cases hfound⟩

theorem Up.holds {i c : Pid} {s : Machine.State Pid (World N) (Op N) (Entry N) Op.Res}
    (h : Up cfg m i c s) : (handoverContract cfg m).Holds (withHandover i c s) := by
  refine ⟨h.inv, fun p hp => ?_⟩
  change (handoverContract cfg m).wp p (s.prog p) _ (s.world, .up i c)
  rcases (h.running p).1 hp with rfl | rfl | rfl
  · rw [h.waitsMid]
    exact waitMid_spec h.inv ⟨rfl, rfl, rfl⟩ fun how v hv hexited =>
      afterCycle_spec rfl rfl rfl hv hexited
  · rw [h.waitsInit]
    exact waitInit_spec h.inv ⟨rfl, rfl, rfl⟩ fun how v hv hwaited =>
      exit_spec waited_stable (fun _ hv h _ => Waited.mayEnd hv h) hv hwaited
  · rw [h.boots]
    exact Contract.wp_ret fun _ _ _ => trivial

/-- **Somebody cleans up.**  A container is up, and there are stops for it, in any number and in
any order with its exits and reboots.  If the monitor finds the lock held exactly while a stop is on
its way that has found the container running (or has been through with its clean-up since the exit),
every stop begins its clean-up after the exit, the network mode stays the same and nothing keeps the
cgroup alive, then whenever monitor and stops have ended a clean-up has been completed after the
last exit, and nothing that it takes away is left. -/
theorem exit_is_cleaned_up (cfg : Config N) (m i c : Pid)
    (s : Machine.State Pid (World N) (Op N) (Entry N) Op.Res) (hs : Up cfg m i c s)
    (es : List (Machine.Event Pid (HostEvent N)))
    (t : Machine.State Pid (World N × HandoverHistory) (Op N) (Entry N) Op.Res)
    (hguard : (handoverMachine cfg.name).GuardedBy (fun s p op => handsOver cfg m s p op = true)
      (fun s e => isStopOrExit cfg s e = true) (withHandover i c s) es)
    (hrun : (handoverMachine cfg.name).toSystem.run (withHandover i c s) es = some t)
    (hmonitor : t.world.1.running m = false)
    (hstops : ∀ q, t.world.1.running q = true → (t.world.1.procs q).role.isCommand = false) :
    t.world.1.running t.world.2.init = false ∧ t.world.2.cleaned = true ∧
      ∀ slot : Slot, slot.isTaken = true → t.world.1.has cfg.name slot = false := by
  have hspawns := (lifecycle_spawns (N := N)).withGhost (HandoverHistory.note cfg.name)
    fun g _ _ _ => g
  have hinv : HandoverInv cfg m t.world :=
    (handover_sound.run hspawns hs.holds hguard hrun).inv
  have hended : hasExited t.world = true := by
    by_contra hup
    rw [hinv.attended (by simpa using hup)] at hmonitor
    cases hmonitor
  have hnone : ¬ AnyFound t.world := by
    rintro ⟨q, hq, hfound⟩
    have hcommand := hinv.table.command q hfound
    rw [hstops q hq] at hcommand
    cases hcommand
  have hcleaned : t.world.2.cleaned = true := by
    by_contra hopen
    rcases hinv.duty hended (by simpa using hopen) with hm | hany
    · rw [hmonitor] at hm
      cases hm
    · exact hnone hany
  exact ⟨(hasExited_iff.1 hended).2.2, hcleaned, fun slot hslot =>
    hinv.nothing_left hended hcleaned hnone hslot⟩

/-! ## An exit beside a stop -/

section ExitBesideStop

open Machine

/-- The container that `plainBoot` boots. -/
def bootedPlain : Config Unit := { Config.plain () with uuid := some 5 }

/-- The host before the boot. -/
def beforeBoot : Machine.State Pid (World Unit) (Op Unit) (Entry Unit) Op.Res :=
  ⟨World.idle aBoot, fun _ => .ret .exited⟩

/-- The boot, and the report of the intermediate process. -/
def upEvents : List (Machine.Event Pid (HostEvent Unit)) := plainBoot ++ turns 3 1

/-- The container is up. -/
def plainUp : Machine.State Pid (World Unit) (Op Unit) (Entry Unit) Op.Res :=
  ((lifecycle (N := Unit)).toSystem.run beforeBoot upEvents).getD beforeBoot

theorem plainUp_run : (lifecycle (N := Unit)).toSystem.run beforeBoot upEvents = some plainUp := by
  have hsome : ((lifecycle (N := Unit)).toSystem.run beforeBoot upEvents).isSome = true := by
    decide +kernel
  obtain ⟨t, ht⟩ := Option.isSome_iff_exists.1 hsome
  rw [plainUp, ht]
  rfl

theorem plainUp_up : Up bootedPlain 2 3 4 plainUp := by
  obtain ⟨g, hrun⟩ := withGhost_run _ (HandoverHistory.note ()) (fun g _ _ _ => g) plainUp_run
    (.up 3 4)
  have hok : plainUp.world.Ok := ok_of_run (World.idle_booted aBoot).ok hrun
  refine ⟨hok, by decide +kernel, by decide +kernel, by decide +kernel, fun q => ⟨fun hq => ?_, ?_⟩,
    by decide +kernel, by decide +kernel, by decide +kernel, by decide +kernel, rfl, rfl, rfl⟩
  · have hall : plainUp.world.pids.all fun q =>
        !plainUp.world.running q || (q == 2 || q == 3 || q == 4) := by decide +kernel
    have := List.all_eq_true.1 hall q (hok.pids q (World.ne_unborn_of_running hq)).1
    simpa [hq, or_assoc] using this
  · rintro (rfl | rfl | rfl) <;> decide +kernel

/-- Whether every process of the run has ended. -/
def allEnded (t : Machine.State Pid (World Unit × HandoverHistory) (Op Unit) (Entry Unit) Op.Res) :
    Bool :=
  t.world.1.pids.all fun q => !t.world.1.running q

theorem not_running_of_allEnded {es : List (Machine.Event Pid (HostEvent Unit))}
    {t : Machine.State Pid (World Unit × HandoverHistory) (Op Unit) (Entry Unit) Op.Res}
    (hrun : (handoverMachine ()).toSystem.run (withHandover 3 4 plainUp) es = some t)
    (h : allEnded t = true) (q : Pid) : t.world.1.running q = false := by
  have hok : t.world.1.Ok := ok_of_run (s := withHandover 3 4 plainUp) plainUp_up.ok hrun
  by_contra hq
  have hmem := (hok.pids q (World.ne_unborn_of_running (by simpa using hq))).1
  exact hq (by simpa using List.all_eq_true.1 h q hmem)

/-- The container exits.  A stop takes the lock and finds nobody running; the monitor finds the lock
held and leaves the clean-up to the stop; the stop returns the lock. -/
def exitBesideStop : List (Machine.Event Pid (HostEvent Unit)) :=
  .env (.die 4 .normal) :: turns 3 2 ++ .env (.spawn 10 (.stop bootedPlain)) :: turns 10 5 ++
    turns 2 6 ++ turns 10 7

/-- **An exit that nobody cleans up.**  The stop holds the lock while it looks for the container,
and that is when the monitor looks at the lock. -/
theorem exit_beside_stop_left :
    Up bootedPlain 2 3 4 plainUp ∧
      ¬ ∀ es t, (handoverMachine ()).GuardedBy (fun _ _ _ => True)
          (fun s e => isStopOrExit bootedPlain s e = true) (withHandover 3 4 plainUp) es →
        (handoverMachine ()).toSystem.run (withHandover 3 4 plainUp) es = some t →
        (∀ q, t.world.1.running q = false) →
        t.world.2.cleaned = true ∧
          ∀ slot : Slot, slot.isTaken = true → t.world.1.has () slot = false := by
  refine ⟨plainUp_up, fun hclaim => ?_⟩
  have hbad : (((handoverMachine ()).toSystem.run (withHandover 3 4 plainUp) exitBesideStop).any
      fun t => allEnded t && t.world.1.has () .pid) = true := by decide +kernel
  obtain ⟨t, hrun, ht⟩ := (Option.any_eq_true _ _).1 hbad
  obtain ⟨hended, hpid⟩ := Bool.and_eq_true_iff.1 ht
  obtain ⟨-, hgone⟩ := hclaim exitBesideStop t (by decide +kernel) hrun
    (not_running_of_allEnded hrun hended)
  rw [hgone .pid rfl] at hpid
  cases hpid

/-- A stop finds the container running, waits for its end and cleans up; the monitor leaves it to
the stop. -/
def stopBeforeExit : List (Machine.Event Pid (HostEvent Unit)) :=
  .env (.spawn 10 (.stop bootedPlain)) :: turns 10 8 ++ .env (.die 4 .normal) :: turns 3 2 ++
    turns 2 6 ++ turns 10 15

theorem exit_after_stop_cleaned_up :
    ∃ t, (handoverMachine ()).toSystem.run (withHandover 3 4 plainUp) stopBeforeExit = some t ∧
      t.world.1.running t.world.2.init = false ∧ t.world.2.cleaned = true ∧
      ∀ slot : Slot, slot.isTaken = true → t.world.1.has () slot = false := by
  have hall : (((handoverMachine ()).toSystem.run (withHandover 3 4 plainUp) stopBeforeExit).any
      allEnded) = true := by decide +kernel
  obtain ⟨t, hrun, hended⟩ := (Option.any_eq_true _ _).1 hall
  have hdead := not_running_of_allEnded hrun hended
  refine ⟨t, hrun, exit_is_cleaned_up bootedPlain 2 3 4 plainUp plainUp_up stopBeforeExit t
    (by decide +kernel) hrun (hdead 2) fun q hq => ?_⟩
  rw [hdead q] at hq
  cases hq

end ExitBesideStop

end Droidspaces
