import Droidspaces.Lifecycle.Handover

/-!
# The clean-up, under the hand-over contract

The contract of the hand-over, the operations that do not matter to it (`Op.isQuiet`), the look at
a pid, by which a stop finds the container running, and `cleanup_container_resources`: whoever
begins it after the exit (`Beginning`) ends it with everything gone that it had to take away
(`CleanedUp`).
-/

namespace Droidspaces

open Transition

variable {N : Type} {cfg : Config N} {m p : Pid} {s t : World N × HandoverHistory} {choice : ℕ}
variable [DecidableEq N]

/-! ## The contract -/

/-- A stop before it has found the container running, or after its clean-up. -/
structure Calm (p : Pid) (s : World N × HandoverHistory) : Prop where
  born : (s.1.procs p).life ≠ .unborn
  command : (s.1.procs p).role.isCommand = true
  found : s.2.found p = false

/-- The monitor between two boot cycles. -/
structure BetweenCycles (m : Pid) (s : World N × HandoverHistory) : Prop where
  ended : hasExited s = true
  nobody : ¬ AnyFound s
  late : s.2.late m = false
  mid : s.1.running s.2.mid = false

/-- An intermediate process that has not forked its init yet. -/
structure Childless (p : Pid) (s : World N × HandoverHistory) : Prop where
  mid : p = s.2.mid
  reported : s.2.reported = false
  init : s.1.running s.2.init = false

/-- The contract of the hand-over for the container `cfg` and its monitor `m`. -/
def handoverContract (cfg : Config N) (m : Pid) : Contract (handoverMachine cfg.name) where
  inv := HandoverInv cfg m
  rely := HandoverRely cfg m
  guard s p op := handsOver cfg m s p op = true
  guardEnv s e := isStopOrExit cfg s e = true
  safe _ _ _ := True
  pre e p s := match e with
    | .exited => True
    | .stop c => c.name = cfg.name ∧ c.net = cfg.net ∧ Calm p s
    | .rebootLoop c true => p = m ∧ c.name = cfg.name ∧ c.img = cfg.img ∧ BetweenCycles m s
    | .intermediate c true => c.name = cfg.name ∧ Childless p s
    | .init c => c.name = cfg.name ∧ p = s.2.init
    | _ => False
  rely_refl _ _ := ⟨World.Later.refl _, rfl, rfl, rfl, fun _ _ => id, id, fun _ => id,
    fun _ _ h => ⟨h, fun _ _ => id⟩, fun _ _ => id, fun _ => ⟨rfl, rfl⟩, fun _ => ⟨rfl, rfl, rfl⟩,
    fun _ => rfl, id⟩
  rely_trans := by
    intro p u v w huv hvw
    refine ⟨huv.later.trans hvw.later, hvw.found.trans huv.found, hvw.todo.trans huv.todo,
      hvw.late.trans huv.late,
      fun slot hslot h => huv.lasting slot hslot (hvw.lasting slot hslot h),
      fun h => hvw.empty (huv.empty h), fun hp h => ?_, fun hp h hnone => ?_, fun hp h hheir => ?_,
      fun hp => ?_, fun hp => ?_, fun hp => ?_, fun h => hvw.outside (huv.outside h)⟩
    · exact hvw.ended (hp.imp_right fun hf => huv.found.trans hf) (huv.ended hp h)
    · obtain ⟨hnone', hhas⟩ := huv.alone hp h hnone
      obtain ⟨hnone'', hhas'⟩ := hvw.alone hp (huv.ended (Or.inl hp) h) hnone'
      exact ⟨hnone'', fun slot hslot hw => hhas slot hslot (hhas' slot hslot hw)⟩
    · exact hvw.heir hp (huv.ended (Or.inl hp) h) (huv.heir hp h hheir)
    · obtain ⟨hsettled, hmid⟩ := huv.monitor hp
      obtain ⟨hsettled', hmid'⟩ := hvw.monitor hp
      exact ⟨hsettled'.trans hsettled, hmid'.trans hmid⟩
    · obtain ⟨hmid, hinit, hreported⟩ := huv.mid hp
      obtain ⟨hmid', hinit', hreported'⟩ := hvw.mid (hp.trans hmid.symm)
      exact ⟨hmid'.trans hmid, hinit'.trans hinit, hreported'.trans hreported⟩
    · exact (hvw.init (hp.trans (huv.init hp).symm)).trans (huv.init hp)

/-! ## Single operations -/

omit [DecidableEq N] in
theorem startedBy_of_isStill {op : Op N} {r : op.Res} (hop : op.isStill = true) :
    startedBy op r = none := by
  unfold startedBy
  split
  · cases hop
  · rfl

omit [DecidableEq N] in
/-- What does not touch the history or the files touches nothing that anybody relies on. -/
theorem Alike.rely_self (h : Alike cfg m p s t) (hnote : t.2 = s.2) (q : Pid) :
    HandoverRely cfg m q s t :=
  h.steady.rely_self hnote
    (fun _ hnone => ⟨fun hany => hnone (h.anyFound.1 hany), fun slot hslot hhas => by
      rwa [h.has slot hslot] at hhas⟩)
    (fun _ hheir => hheir.imp (fun hcleaned => h.cleaned.trans hcleaned) h.anyFound.2) q

/-- An operation that leaves slots and processes alone. -/
theorem steady_of_isStill {op : Op N} {r : op.Res} (hs : HandoverInv cfg m s)
    (hrun : s.1.running p = true)
    (h : (handoverMachine cfg.name).exec s p op choice = some (t, r)) (hstill : op.isStill = true)
    (hlasting : ∀ slot, slot.lasts = true → t.1.has cfg.name slot = true →
      s.1.has cfg.name slot = true)
    (hmid : t.2.mid = s.2.mid) (hinit : t.2.init = s.2.init)
    (hreported : t.2.reported = s.2.reported ∨ t.2.reported = true ∧ p = s.2.mid)
    (hsettled : t.2.settled = s.2.settled ∨ t.2.settled = true ∧ p = m)
    (hown : ∀ q, q ≠ p → t.2.found q = s.2.found q ∧ t.2.todo q = s.2.todo q ∧
      t.2.late q = s.2.late q) : Steady cfg m p s t := by
  obtain ⟨hexec, -⟩ := exec_of_history h
  have htable := exec_sameTable hstill hexec
  refine ⟨exec_ok hs.table.ok hrun hexec, exec_later hrun hexec,
    fun q hq => htable.running q ▸ hq, fun q => Or.inr (htable.cgroup q), hmid, hinit,
    fun hr => ?_, fun hr => ?_, fun hp => ?_, fun hp => ?_, hown, hlasting⟩
  · exact hreported.elim (fun h => h.trans hr) fun h => h.1
  · exact hsettled.elim (fun h => h.trans hr) fun h => h.1
  · exact hreported.resolve_right fun h => hp h.2
  · exact hsettled.resolve_right fun h => hp h.2

/-- An operation that leaves slots, processes and history alone. -/
theorem quiet_alike {op : Op N} {r : op.Res} (hs : HandoverInv cfg m s)
    (hrun : s.1.running p = true)
    (h : (handoverMachine cfg.name).exec s p op choice = some (t, r)) (hstill : op.isStill = true)
    (hslot : ∀ slot, slot.isTaken = true → op.slot ≠ some (cfg.name, slot)) (hnote : t.2 = s.2) :
    Alike cfg m p s t := by
  obtain ⟨hexec, -⟩ := exec_of_history h
  have htable := exec_sameTable hstill hexec
  have hhas : ∀ slot, slot.isTaken = true → t.1.has cfg.name slot = s.1.has cfg.name slot :=
    fun slot htaken => exec_has (hslot slot htaken) hexec
  refine ⟨steady_of_isStill hs hrun h hstill ?_ ?_ ?_ ?_ ?_ ?_, exec_mnt (hslot .mnt rfl) hexec,
    hhas, by rw [hnote], by rw [hnote], by rw [hnote], by rw [hnote]; exact Or.inl rfl,
    fun q hq hdead => ?_⟩
  · exact fun slot hlasts hh => hhas slot (by cases slot <;> first | rfl | cases hlasts) ▸ hh
  · rw [hnote]
  · rw [hnote]
  · exact Or.inl (by rw [hnote])
  · exact Or.inl (by rw [hnote])
  · rw [hnote]
    exact fun _ _ => ⟨rfl, rfl, rfl⟩
  · rw [htable.running, hq] at hdead
    cases hdead

theorem keeps_of_inv {op : Op N} {r : op.Res} (hstill : op.isStill = true)
    (h : HandoverInv cfg m t ∧ ∀ q, q ≠ p → HandoverRely cfg m q s t) :
    (handoverContract cfg m).Keeps p s op t r where
  safe := trivial
  inv := h.1
  rely q hq _ := h.2 q hq
  child q e hch := by
    rw [show (handoverMachine cfg.name).child op r = startedBy op r from rfl,
      startedBy_of_isStill hstill] at hch
    cases hch

theorem quiet_keeps {op : Op N} {r : op.Res} (hs : HandoverInv cfg m s)
    (hrun : s.1.running p = true)
    (h : (handoverMachine cfg.name).exec s p op choice = some (t, r)) (hstill : op.isStill = true)
    (hslot : ∀ slot, slot.isTaken = true → op.slot ≠ some (cfg.name, slot)) (hnote : t.2 = s.2) :
    (handoverContract cfg m).Keeps p s op t r ∧ HandoverRely cfg m p s t := by
  have halike := quiet_alike hs hrun h hstill hslot hnote
  exact ⟨keeps_of_inv hstill ⟨halike.inv hrun hs, fun _ hq => halike.rely hq⟩,
    halike.rely_self hnote p⟩

/-! ## Quiet operations -/

/-- Operations that leave the processes, the slots of `n` and its history alone, whoever performs
them. -/
def Op.isQuiet (n : N) : Op N → Bool
  | .query q => match q with
    | .validPid _ | .midRead _ => false
    | _ => true
  | .mark m => match m with
    | .stopping _ _ _ _ | .cleanup _ _ | .cleaned _ | .reported _ => false
    | _ => true
  | .action a => match a with
    | .fork _ | .exit _ | .cgroupKill _ | .cgroupEnter _ | .cgroupLeave | .netDoneWrite _ => false
    | _ => match a.slot with
      | some (x, slot) => decide (x ≠ n) || !slot.isTaken
      | none => true

theorem Op.isStill_of_isQuiet {n : N} {op : Op N} (hop : op.isQuiet n = true) :
    op.isStill = true := by
  cases op with
  | action a => cases a <;> first | rfl | cases hop
  | _ => rfl

theorem Op.slot_of_isQuiet {n : N} {op : Op N} (hop : op.isQuiet n = true) {slot : Slot}
    (hslot : slot.isTaken = true) : op.slot ≠ some (n, slot) := by
  intro heq
  cases op with
  | action a =>
    have ha : a.slot = some (n, slot) := heq
    cases a <;> first | cases ha; done | cases hop | simp [Op.isQuiet, ha, hslot] at hop
  | _ => cases heq

theorem HandoverHistory.note_of_isQuiet {n : N} {op : Op N} (hop : op.isQuiet n = true)
    (g : HandoverHistory) (w w' : World N) (r : op.Res) : g.note n w p op r w' = g := by
  cases op with
  | query q => cases q <;> first | rfl | cases hop
  | mark m => cases m <;> first | rfl | cases hop
  | action a =>
    cases a <;> first | cases hop; done | rfl | skip
    all_goals
      simp only [Op.isQuiet, Action.slot, Slot.isTaken, Bool.not_true, Bool.or_false,
        decide_eq_true_eq] at hop
      simp [HandoverHistory.note, Action.slot, hop, Action.removes]

section Quiet

variable {α : Type} {Q : α → World N × HandoverHistory → Prop}
  {K : World N × HandoverHistory → Prop}

theorem quiet_op {op : Op N} {k : op.Res → Code N α} (hop : op.isQuiet cfg.name = true)
    (hstable : (handoverContract cfg m).Stable p K) (hs : HandoverInv cfg m s) (hK : K s)
    (h : ∀ v v' r choice, HandoverInv cfg m v → K v → v.1.running p = true →
      handsOver cfg m v p op = true → exec v.1 p op choice = some (v'.1, r) → v'.2 = v.2 →
      HandoverInv cfg m v' → K v' → (handoverContract cfg m).wp p (k r) Q v') :
    (handoverContract cfg m).wp p (Prog.perform op >>= k) Q s := by
  refine Contract.wp_perform hstable hs hK ?_
  intro v hv hinv hrun hguard choice v' r hexec
  obtain ⟨hexec', hnote⟩ := exec_of_history hexec
  rw [HandoverHistory.note_of_isQuiet hop] at hnote
  obtain ⟨hkeeps, hrely⟩ := quiet_keeps hinv hrun hexec (Op.isStill_of_isQuiet hop)
    (fun _ => Op.slot_of_isQuiet hop) hnote
  exact ⟨hkeeps, fun _ => h v v' r choice hinv hv hrun hguard hexec' hnote hkeeps.inv
    (hstable v v' hinv hv hrely hkeeps.inv)⟩

theorem quiet_ask {q : Query N} {k : q.Res → Code N α} (hop : (Op.query q).isQuiet cfg.name = true)
    (hstable : (handoverContract cfg m).Stable p K) (hs : HandoverInv cfg m s) (hK : K s)
    (h : ∀ v r choice, HandoverInv cfg m v → K v → v.1.running p = true →
      handsOver cfg m v p (.query q) = true → answer v.1 p q choice = some r →
      (handoverContract cfg m).wp p (k r) Q v) :
    (handoverContract cfg m).wp p (ask q >>= k) Q s := by
  refine quiet_op hop hstable hs hK fun v v' r choice hinv hv hrun hguard hexec hnote _ _ => ?_
  obtain ⟨hw, hr⟩ := exec_query hexec
  obtain rfl : v' = v := Prod.ext hw hnote
  exact h v' r choice hinv hv hrun hguard hr

/-- An action or a mark whose answer does not matter. -/
theorem quiet_next {op : Op N} {k : op.Res → Code N α} (hop : op.isQuiet cfg.name = true)
    (hstable : (handoverContract cfg m).Stable p K) (hs : HandoverInv cfg m s) (hK : K s)
    (h : ∀ v r, HandoverInv cfg m v → K v → (handoverContract cfg m).wp p (k r) Q v) :
    (handoverContract cfg m).wp p (Prog.perform op >>= k) Q s :=
  quiet_op hop hstable hs hK fun _ v' r _ _ _ _ _ _ _ hinv hv => h v' r hinv hv

theorem quiet_keeping {op : Op N} (hop : op.isQuiet cfg.name = true)
    (hstable : (handoverContract cfg m).Stable p K) :
    (handoverContract cfg m).Keeping p K _ (perform op) := fun _ hs hK =>
  quiet_next (k := .ret) hop hstable hs hK fun _ _ hinv hv =>
    Contract.wp_ret_of_stable hstable hinv hv

end Quiet

/-- A program of quiet operations. -/
theorem quiet_only {α : Type} {K : World N × HandoverHistory → Prop} {c : Code N α}
    (hc : c.Only fun op => op.isQuiet cfg.name = true)
    (hstable : (handoverContract cfg m).Stable p K) :
    (handoverContract cfg m).Keeping p K _ c := by
  intro s hs hK
  refine Contract.wp_of_only hstable ?_ hc hs hK
  intro v op choice v' r hop hv hinv hrun _ hexec
  obtain ⟨-, hnote⟩ := exec_of_history hexec
  rw [HandoverHistory.note_of_isQuiet hop] at hnote
  obtain ⟨hkeeps, hrely⟩ := quiet_keeps hinv hrun hexec (Op.isStill_of_isQuiet hop)
    (fun _ => Op.slot_of_isQuiet hop) hnote
  exact ⟨hkeeps, fun _ => hstable v v' hinv hv hrely hkeeps.inv⟩

/-! ## The lock functions -/

theorem Op.isQuiet_unlinkLock (n' n : N) :
    (Op.action (Action.unlinkLock n)).isQuiet n' = true := by
  simp [Op.isQuiet, Action.slot, Slot.isTaken]

theorem Op.isQuiet_renameLock (n' n : N) :
    (Op.action (Action.renameLock n)).isQuiet n' = true := by
  simp [Op.isQuiet, Action.slot, Slot.isTaken]

theorem acquire_quiet (n' n : N) :
    (acquireExternalLock n).Only fun op => op.isQuiet n' = true := by
  have hwrite : (act (.unlinkLock n) >>= fun _ => act (.renameLock n) >>= fun ok =>
      mark (.lockReturn n) >>= fun _ => (pure ok : Code N Bool)).Only
        fun op => op.isQuiet n' = true :=
    ⟨Op.isQuiet_unlinkLock n' n, fun _ =>
      ⟨Op.isQuiet_renameLock n' n, fun _ => ⟨rfl, fun _ => trivial⟩⟩⟩
  refine ⟨rfl, fun found => ?_⟩
  cases found with
  | false => exact ⟨Op.isQuiet_renameLock n' n, fun _ => ⟨rfl, fun _ => trivial⟩⟩
  | true =>
    refine ⟨rfl, fun buf => ?_⟩
    cases buf with
    | none => exact hwrite
    | some buf =>
      cases buf with
      | nil => exact hwrite
      | cons c cs =>
        refine ⟨rfl, fun holder => ?_⟩
        cases holder with
        | none => exact hwrite
        | some h =>
          refine ⟨rfl, fun self => ?_⟩
          exact Prog.only_ite (c := h ≠ self) ⟨rfl, fun _ => trivial⟩ hwrite

theorem release_quiet (n' n : N) :
    (releaseExternalLock n).Only fun op => op.isQuiet n' = true := by
  refine ⟨rfl, fun buf => ?_⟩
  cases buf with
  | none => exact ⟨rfl, fun _ => trivial⟩
  | some buf =>
    cases buf with
    | nil => exact ⟨rfl, fun _ => trivial⟩
    | cons c cs =>
      refine ⟨rfl, fun self => ?_⟩
      exact Prog.only_ite (c := atoi (c :: cs) = self)
        ⟨Op.isQuiet_unlinkLock n' n, fun _ => ⟨rfl, fun _ => trivial⟩⟩ ⟨rfl, fun _ => trivial⟩

/-! ## Looks at a pid -/

omit [DecidableEq N] in
/-- An action writes one slot. -/
theorem Action.slot_ne {a : Action N} {n : N} {slot slot' : Slot} (h : a.slot = some (n, slot))
    (hne : slot' ≠ slot) : (Op.action a).slot ≠ some (n, slot') := fun heq =>
  hne (Prod.mk.inj (Option.some.inj (heq.symm.trans h))).2

/-- The operation fills a slot that may be filled. -/
theorem fill_op {a : Action N} {r : a.Res} {n : N} (hs : HandoverInv cfg m s)
    (hrun : s.1.running p = true)
    (ha : (∃ q, a = .writePid n q) ∨ a = .setupVeth n ∧ (cfg.net = .nat ∨ cfg.net = .gateway))
    (hn : n = cfg.name) (hwhen : hasExited s = false ∨
      s.2.found p = true ∧ ∀ slot, slot ≠ .mnt → s.2.todo p slot = true)
    (h : (handoverMachine cfg.name).exec s p (.action a) choice = some (t, r)) :
    (handoverContract cfg m).Keeps p s (.action a) t r ∧ HandoverRely cfg m p s t := by
  subst hn
  obtain ⟨hexec, hnote⟩ := exec_of_history h
  obtain ⟨slot, hslot, hfill, hstill, hsame⟩ : ∃ slot, a.slot = some (cfg.name, slot) ∧
      (slot = .pid ∨ slot = .rules ∧ (cfg.net = .nat ∨ cfg.net = .gateway)) ∧
      (Op.action a).isStill = true ∧ t.2 = s.2 := by
    rcases ha with ⟨q, rfl⟩ | ⟨rfl, hnet⟩
    · exact ⟨.pid, rfl, Or.inl rfl, rfl, by simpa [HandoverHistory.note, Action.slot,
        Action.removes] using hnote⟩
    · exact ⟨.rules, rfl, Or.inr ⟨rfl, hnet⟩, rfl, by simpa [HandoverHistory.note, Action.slot,
        Action.removes] using hnote⟩
  have hne : slot ≠ .mnt := by rcases hfill with rfl | ⟨rfl, -⟩ <;> simp
  have hhas : ∀ slot', slot' ≠ slot → t.1.has cfg.name slot' = s.1.has cfg.name slot' :=
    fun slot' hslot' => exec_has (Action.slot_ne hslot hslot') hexec
  have htable := exec_sameTable hstill hexec
  have hsteady : Steady cfg m p s t := by
    refine steady_of_isStill hs hrun h hstill (fun slot' hlasts hh => ?_) (by rw [hsame])
      (by rw [hsame]) (Or.inl (by rw [hsame])) (Or.inl (by rw [hsame])) fun _ _ => by
        rw [hsame]
        exact ⟨rfl, rfl, rfl⟩
    rw [hhas slot'] at hh
    · exact hh
    · rintro rfl
      rcases hfill with rfl | ⟨rfl, -⟩ <;> cases hlasts
  obtain ⟨hinv, hrely⟩ := fill_keeps hs hrun hfill
    (hwhen.imp_right fun hf => ⟨hf.1, hf.2 slot hne⟩) hsteady
    (fun q hq => (htable.running q).trans hq) (exec_mnt (Action.slot_ne hslot (Ne.symm hne)) hexec)
    hhas hsame
  exact ⟨keeps_of_inv hstill ⟨hinv, fun q _ => hrely q⟩, hrely p⟩

/-- What a process knows when it has looked whether the container runs: `K'` if it does. -/
def Learned (K K' : World N × HandoverHistory → Prop) (running : Bool) (q : Pid)
    (s : World N × HandoverHistory) : Prop :=
  if running = true then K' s ∧ q ≠ 0 else K s

/-- What a process knows before and after it has found the container running. -/
structure Looks (cfg : Config N) (m p : Pid) (K K' : World N × HandoverHistory → Prop) : Prop where
  stable : (handoverContract cfg m).Stable p K
  stable' : (handoverContract cfg m).Stable p K'
  valid : ∀ s q, HandoverInv cfg m s → K s →
    (handoverContract cfg m).wp p (ask (.validPid q)) (fun ok v => Learned K K' ok q v) s
  write : ∀ s, HandoverInv cfg m s → K' s → s.1.running p = true → hasExited s = false ∨
    s.2.found p = true ∧ ∀ slot, slot ≠ .mnt → s.2.todo p slot = true

namespace Looks

variable {K K' : World N × HandoverHistory → Prop} (h : Looks cfg m p K K')

include h

theorem learned (running : Bool) (q : Pid) :
    (handoverContract cfg m).Stable p (Learned K K' running q) := by
  intro u v hu hK hrely hv
  cases running with
  | false => exact h.stable u v hu hK hrely hv
  | true => exact ⟨h.stable' u v hu hK.1 hrely hv, hK.2⟩

theorem ret {α : Type} {a : α} {Q : α → World N × HandoverHistory → Prop} (running : Bool)
    (q : Pid) (hs : HandoverInv cfg m s) (hK : Learned K K' running q s)
    (hQ : ∀ v, Learned K K' running q v → Q a v) :
    (handoverContract cfg m).wp p (.ret a) Q s :=
  Contract.wp_ret fun v hrely hv => hQ v (h.learned running q s v hs hK hrely hv)

theorem readAndValidatePid (n : N) (hs : HandoverInv cfg m s) (hK : K s) :
    (handoverContract cfg m).wp p (readAndValidatePid n)
      (fun r v => Learned K K' (decide (r.1 = .running)) r.2 v) s := by
  refine quiet_ask rfl h.stable hs hK fun v pid _ hv hK _ _ _ => ?_
  cases pid with
  | none => exact h.ret false 0 hv hK fun _ hK => hK
  | some q =>
    refine quiet_ask rfl h.stable hv hK fun v there _ hv hK _ _ _ => ?_
    cases there with
    | false => exact h.ret false 0 hv hK fun _ hK => hK
    | true =>
      refine Contract.wp_seq (h.valid v q hv hK) fun ok v hv hK => ?_
      cases ok with
      | false => exact h.ret false q hv hK fun _ hK => hK
      | true => exact h.ret true q hv hK fun _ hK => hK

theorem findAmong (u : Uuid) (pids : List Pid) (hs : HandoverInv cfg m s) (hK : K s) :
    (handoverContract cfg m).wp p (findAmong u pids : Code N (Option Pid))
      (fun r v => Learned K K' r.isSome (r.getD 0) v) s := by
  induction pids generalizing s with
  | nil => exact h.ret false 0 hs hK fun _ hK => hK
  | cons q rest ih =>
    refine quiet_ask rfl h.stable hs hK fun v marker _ hv hK _ _ _ => ?_
    cases marker with
    | false => exact ih hv hK
    | true =>
      refine Contract.wp_seq (h.valid v q hv hK) fun ok v hv hK => ?_
      cases ok with
      | false => exact ih hv hK
      | true => exact h.ret true q hv hK fun _ hK => hK

/-- The self-healing write. -/
theorem writePid (n : N) (q : Pid) (hs : HandoverInv cfg m s) (hK : K' s) :
    (handoverContract cfg m).wp p (act (.writePid n q)) (fun _ v => K' v) s := by
  by_cases hn : n = cfg.name
  · refine Contract.wp_perform (k := .ret) h.stable' hs hK ?_
    intro v hv hinv hrun _ choice v' r hexec
    obtain ⟨hkeeps, hrely⟩ := fill_op hinv hrun (Or.inl ⟨q, rfl⟩) hn (h.write v hinv hv hrun) hexec
    exact ⟨hkeeps, fun _ => Contract.wp_ret_of_stable h.stable' hkeeps.inv
      (h.stable' v v' hinv hv hrely hkeeps.inv)⟩
  · exact quiet_keeping (by simpa [Op.isQuiet, Action.slot] using Or.inl hn) h.stable' s hs hK

theorem isContainerRunning (n : N) (uuid : Option Uuid) (hs : HandoverInv cfg m s) (hK : K s) :
    (handoverContract cfg m).wp p (isContainerRunning n uuid)
      (fun r v => Learned K K' r.1 r.2 v) s := by
  refine Contract.wp_seq (h.readAndValidatePid n hs hK) ?_
  rintro ⟨verdict, pid⟩ v hv hK
  by_cases hverdict : verdict = .running
  · simp only [hverdict, decide_true, if_true] at hK ⊢
    exact h.ret true pid hv hK fun _ hK => hK
  · simp only [hverdict, decide_false, if_false] at hK ⊢
    cases uuid with
    | none => exact h.ret false pid hv hK fun _ hK => hK
    | some u =>
      refine quiet_ask rfl h.stable hv hK fun v pids _ hv hK _ _ _ => ?_
      refine Contract.wp_seq (h.findAmong u pids hv hK) fun found v hv hK => ?_
      cases found with
      | none => exact h.ret false pid hv hK fun _ hK => hK
      | some deep =>
        refine Contract.wp_seq (h.writePid n deep hv hK.1) fun _ v hv hK' => ?_
        exact h.ret true deep hv ⟨hK', hK.2⟩ fun _ hK => hK

end Looks

omit [DecidableEq N] in
/-- Whoever finds an init in order finds the container running. -/
theorem HandoverInv.of_valid (hs : HandoverInv cfg m s) {q : Pid} (hq : s.1.valid q = true) :
    hasExited s = false ∧ q ≠ 0 := by
  simp only [World.valid, Bool.and_eq_true] at hq
  obtain ⟨⟨hrun, -⟩, hrole⟩ := hq
  constructor
  · split at hrole
    · next n hinit =>
      rw [hs.table.inits q n hrun hinit] at hrun
      simp [hasExited, hrun]
    · cases hrole
  · rintro rfl
    exact hs.table.ok.not_running_zero hrun

/-- A look at a pid tells nothing new to one that is no command or has found the container running
before. -/
theorem validPid_blind {K : World N × HandoverHistory → Prop} {q : Pid}
    (hstable : (handoverContract cfg m).Stable p K)
    (hblind : ∀ v, HandoverInv cfg m v → K v → v.1.running p = true →
      (v.1.procs p).role.isCommand = false ∨ v.2.found p = true)
    (hs : HandoverInv cfg m s) (hK : K s) :
    (handoverContract cfg m).wp p (ask (.validPid q)) (fun ok v => K v ∧
      (ok = true → q ≠ 0 ∧ ∃ u, HandoverInv cfg m u ∧ K u ∧ hasExited u = false)) s := by
  refine Contract.wp_perform (k := .ret) hstable hs hK ?_
  intro v hv hinv hrun _ choice v' ok hexec
  obtain ⟨hexec', hnote⟩ := exec_of_history hexec
  obtain ⟨-, hok⟩ := exec_query hexec'
  have hsame : v'.2 = v.2 := by
    rw [hnote, HandoverHistory.note]
    rcases hblind v hinv hv hrun with hrole | hfound
    · simp [hrole]
    · simp [hfound]
  obtain ⟨hkeeps, hrely⟩ := quiet_keeps hinv hrun hexec rfl (fun _ _ => by simp [Op.slot]) hsame
  refine ⟨hkeeps, fun _ => Contract.wp_ret fun u hrely' hu => ⟨?_, fun htrue => ?_⟩⟩
  · exact hstable v' u hkeeps.inv (hstable v v' hinv hv hrely hkeeps.inv) hrely' hu
  · obtain ⟨hnot, hq⟩ := hinv.of_valid ((Option.some.inj hok).trans htrue)
    exact ⟨hq, v, hinv, hv, hnot⟩

/-- A stop that has found the container running. -/
structure Found (p : Pid) (s : World N × HandoverHistory) : Prop where
  born : (s.1.procs p).life ≠ .unborn
  found : s.2.found p = true
  todo : ∀ slot, slot ≠ .mnt → s.2.todo p slot = true
  image : s.2.todo p .mnt = false

theorem calm_stable : (handoverContract cfg m).Stable p (Calm p) := by
  intro u v _ h hrely _
  have hp := hrely.later.procs p h.born
  exact ⟨hp.ne_unborn h.born, by rw [hp.role]; exact h.command, hrely.found.trans h.found⟩

theorem found_stable : (handoverContract cfg m).Stable p (Found p) := by
  intro u v _ h hrely _
  refine ⟨(hrely.later.procs p h.born).ne_unborn h.born, hrely.found.trans h.found, ?_, ?_⟩
  · rw [hrely.todo]
    exact h.todo
  · rw [hrely.todo]
    exact h.image

/-- A stop looks at a pid. -/
theorem validPid_stop {q : Pid} (hs : HandoverInv cfg m s) (hcalm : Calm p s) :
    (handoverContract cfg m).wp p (ask (.validPid q))
      (fun ok v => Learned (Calm p) (Found p) ok q v) s := by
  refine Contract.wp_perform (k := .ret) calm_stable hs hcalm ?_
  intro v hv hinv hrun _ choice v' ok hexec
  obtain ⟨hexec', hnote⟩ := exec_of_history hexec
  obtain ⟨hw, hok⟩ := exec_query hexec'
  cases ok with
  | false =>
    have hsame : v'.2 = v.2 := by simp [hnote, HandoverHistory.note]
    obtain ⟨hkeeps, hrely⟩ := quiet_keeps hinv hrun hexec rfl (fun _ _ => by simp [Op.slot]) hsame
    exact ⟨hkeeps, fun _ => Contract.wp_ret fun u hrely' hu => calm_stable v' u hkeeps.inv
      (calm_stable v v' hinv hv hrely hkeeps.inv) hrely' hu⟩
  | true =>
    obtain ⟨hnot, hq⟩ := hinv.of_valid (Option.some.inj hok)
    obtain rfl : v' = (v.1, v.2.find p) := Prod.ext hw (by
      simp [hnote, HandoverHistory.note, hv.command, hv.found])
    have hkeeps : (handoverContract cfg m).Keeps p v (.query (.validPid q)) (v.1, v.2.find p) true :=
      keeps_of_inv rfl (find_keeps hinv hrun hv.command hnot)
    refine ⟨hkeeps, fun _ => Contract.wp_ret fun u hrely hu => ⟨?_, hq⟩⟩
    refine found_stable _ u hkeeps.inv ⟨hv.born, ?_, fun slot hslot => ?_, ?_⟩ hrely hu
    · simp [HandoverHistory.find]
    · simpa [HandoverHistory.find] using hslot
    · simp [HandoverHistory.find]

/-- A stop before it has found the container running. -/
theorem looks_stop : Looks cfg m p (Calm p) (Found p) where
  stable := calm_stable
  stable' := found_stable
  valid _ _ := validPid_stop
  write _ _ h _ := Or.inr ⟨h.found, h.todo⟩

/-- One that knows that the container has exited. -/
theorem looks_of_ended {K : World N × HandoverHistory → Prop}
    (hstable : (handoverContract cfg m).Stable p K)
    (hblind : ∀ v, HandoverInv cfg m v → K v → v.1.running p = true →
      (v.1.procs p).role.isCommand = false ∨ v.2.found p = true)
    (hended : ∀ v, K v → hasExited v = true) : Looks cfg m p K fun _ => False where
  stable := hstable
  stable' _ _ _ h := h.elim
  valid s q hs hK := by
    refine Contract.wp_mono (validPid_blind hstable hblind hs hK) fun ok v hv h => ?_
    cases ok with
    | false => exact h.1
    | true =>
      obtain ⟨-, u, -, hu, hnot⟩ := h.2 rfl
      rw [hended u hu] at hnot
      cases hnot
  write _ _ h := h.elim

/-- The init itself. -/
theorem looks_init {K : World N × HandoverHistory → Prop}
    (hstable : (handoverContract cfg m).Stable p K)
    (hrole : ∀ v, HandoverInv cfg m v → K v → v.1.running p = true →
      (v.1.procs p).role.isCommand = false)
    (hinit : ∀ v, K v → p = v.2.init) : Looks cfg m p K K where
  stable := hstable
  stable' := hstable
  valid s q hs hK := by
    refine Contract.wp_mono (validPid_blind hstable (fun v hv hK hrun =>
      Or.inl (hrole v hv hK hrun)) hs hK) fun ok v hv h => ?_
    cases ok with
    | false => exact h.1
    | true => exact ⟨h.1, (h.2 rfl).1⟩
  write v _ hK hrun := by
    rw [hinit v hK] at hrun
    simp [hasExited, hrun]

/-! ## The clean-up -/

/-- The clean-up by `p` is done with the slot: it has nothing to take away there any more. -/
def Done (cfg : Config N) (m p : Pid) (s : World N × HandoverHistory) (slot : Slot) : Prop :=
  p ≠ m ∧ s.2.todo p slot = false ∨
    (p = m ∧ slot.isTaken = true ∨ slot.lasts = true) ∧ s.1.has cfg.name slot = false

/-- A clean-up on its way, with `gone` behind it; `img` is whether it knows an image. -/
structure Cleaning (cfg : Config N) (m p : Pid) (img : Bool) (gone : List Slot)
    (s : World N × HandoverHistory) : Prop where
  cleans : Cleans m p s
  outside : (s.1.procs p).cgroup = none
  /-- The sidecar can go: the image is known without it, or gone. -/
  spares : p = m ∨ s.2.todo p .mnt = true ∨ s.1.has cfg.name .mount = false ∨
    s.1.has cfg.name .mnt = false
  image : p ≠ m → s.2.todo p .mnt = true → img = true
  gone : ∀ slot ∈ gone, Done cfg m p s slot

/-- Nothing runs in the cgroup. -/
def Vacated (cfg : Config N) (s : World N × HandoverHistory) : Prop :=
  ∀ x, s.1.running x = true → (s.1.procs x).cgroup ≠ some cfg.name

omit [DecidableEq N] in
theorem HandoverRely.stays {q : Pid} (h : HandoverRely cfg m q s t) {slot : Slot}
    (hlasts : slot.lasts = true) (hno : s.1.has cfg.name slot = false) :
    t.1.has cfg.name slot = false := by
  rw [Bool.eq_false_iff] at hno ⊢
  exact fun hhas => hno (h.lasting slot hlasts hhas)

theorem cleaning_stable (img : Bool) (gone : List Slot) :
    (handoverContract cfg m).Stable p (Cleaning cfg m p img gone) := by
  intro u v hu h hrely _
  have hended := hrely.ended (h.cleans.who.elim Or.inr fun hm => Or.inl hm.1) h.cleans.ended
  have halone : p = m → ¬ AnyFound u := fun hm => h.cleans.who.elim
    (fun hfound => by
      rw [hm, hu.table.monitor_not_found] at hfound
      cases hfound) And.right
  refine ⟨⟨hended, hrely.late.trans h.cleans.late, ?_⟩, hrely.outside h.outside, ?_, ?_, ?_⟩
  · refine h.cleans.who.imp (fun hfound => hrely.found.trans hfound) fun ⟨hm, hnone⟩ => ⟨hm, ?_⟩
    exact (hrely.alone hm h.cleans.ended hnone).1
  · rw [hrely.todo]
    exact h.spares.imp_right (Or.imp_right (Or.imp (hrely.stays rfl) (hrely.stays rfl)))
  · rw [hrely.todo]
    exact h.image
  · intro slot hslot
    rcases h.gone slot hslot with ⟨hm, htodo⟩ | ⟨⟨hm, htaken⟩ | hlasts, hno⟩
    · exact Or.inl ⟨hm, by rw [hrely.todo]; exact htodo⟩
    · refine Or.inr ⟨Or.inl ⟨hm, htaken⟩, ?_⟩
      rw [Bool.eq_false_iff] at hno ⊢
      exact fun hhas => hno ((hrely.alone hm h.cleans.ended (halone hm)).2 slot htaken hhas)
    · exact Or.inr ⟨Or.inr hlasts, hrely.stays hlasts hno⟩

theorem vacated_stable : (handoverContract cfg m).Stable p (Vacated cfg) :=
  fun _ _ _ h hrely _ => hrely.empty h

omit [DecidableEq N] in
theorem Cleaning.mono {img : Bool} {gone gone' : List Slot} (h : Cleaning cfg m p img gone s)
    (hsub : gone' ⊆ gone) : Cleaning cfg m p img gone' s :=
  ⟨h.cleans, h.outside, h.spares, h.image, fun slot hslot => h.gone slot (hsub hslot)⟩

/-- What a removal notes. -/
theorem HandoverHistory.note_of_removes {n : N} {a : Action N} {r : a.Res} {slot : Slot}
    (hslot : a.slot = some (n, slot)) (ha : a.removes = true) (g : HandoverHistory)
    (w w' : World N) : g.note n w p (.action a) r w' = g.setTodo p slot false := by
  have hnote : g.note n w p (.action a) r w' = match a.slot with
      | some (x, slot) => if x = n ∧ a.removes = true then g.setTodo p slot false else g
      | none => g := by
    cases a <;> first | rfl | cases ha
  rw [hnote, hslot]
  simp [ha]

omit [DecidableEq N] in
theorem Op.isStill_of_removes {a : Action N} (ha : a.removes = true) :
    (Op.action a).isStill = true := by
  cases a <;> first | rfl | cases ha

omit [DecidableEq N] in
theorem Action.isTaken_of_removes {a : Action N} {n : N} {slot : Slot}
    (hslot : a.slot = some (n, slot)) (ha : a.removes = true) : slot.isTaken = true := by
  cases a <;> first | cases ha; done | skip
  all_goals
    obtain ⟨-, rfl⟩ := Prod.mk.inj (Option.some.inj hslot)
    rfl

/-- An unmount leaves at most as many images mounted. -/
theorem exec_mnt_le {w w' : World N} {a : Action N} {r : a.Res} {n : N} (ha : a.removes = true)
    (h : exec w p (.action a) choice = some (w', r)) : (w'.files n).mnt ≤ (w.files n).mnt := by
  cases a with
  | umount n' =>
    obtain rfl := world_of_some h
    by_cases hn : n = n'
    · subst hn
      simp
    · rw [World.setFiles_of_ne _ hn]
  | unlinkPid n' | unlinkMount n' | unlinkInit n' | netCleanup n' | cgroupRmdir n' =>
    exact le_of_eq (exec_mnt (by simp [Op.slot, Action.slot]) h)
  | _ => cases ha

/-- A clean-up takes one thing away. -/
theorem clean_op {a : Action N} {r : a.Res} {slot : Slot} {img : Bool} {gone : List Slot}
    (hslot : a.slot = some (cfg.name, slot)) (ha : a.removes = true)
    (hs : HandoverInv cfg m s) (hrun : s.1.running p = true) (hc : Cleaning cfg m p img gone s)
    (hempty : slot = .cgroup → Vacated cfg s)
    (h : (handoverMachine cfg.name).exec s p (.action a) choice = some (t, r)) :
    (handoverContract cfg m).Keeps p s (.action a) t r ∧
      Cleaning cfg m p img (slot :: gone) t := by
  obtain ⟨hexec, hnote⟩ := exec_of_history h
  rw [HandoverHistory.note_of_removes hslot ha] at hnote
  have hstill := Op.isStill_of_removes ha
  have htaken := Action.isTaken_of_removes hslot ha
  have htable := exec_sameTable hstill hexec
  have hgone : t.1.has cfg.name slot = false :=
    effect_removes hslot ha hs.few (fun hcgroup q _ hq => hempty hcgroup q hq) hexec
  have hsame : ∀ slot', slot' ≠ slot → t.1.has cfg.name slot' = s.1.has cfg.name slot' :=
    fun slot' hne => exec_has (Action.slot_ne hslot hne) hexec
  have hless : ∀ slot', t.1.has cfg.name slot' = true → s.1.has cfg.name slot' = true := by
    intro slot' hh
    by_cases hne : slot' = slot
    · rw [hne, hgone] at hh
      cases hh
    · rwa [hsame slot' hne] at hh
  have htodo : ∀ q, q ≠ p → t.2.todo q = s.2.todo q := fun q hq => by
    rw [hnote]
    exact Function.update_of_ne hq _ _
  have hself : t.2.todo p = Function.update (s.2.todo p) slot false := by
    rw [hnote]
    exact Function.update_self _ _ _
  have hsteady : Steady cfg m p s t := by
    refine steady_of_isStill hs hrun h hstill (fun slot' _ => hless slot') (by rw [hnote]; rfl)
      (by rw [hnote]; rfl) (Or.inl (by rw [hnote]; rfl)) (Or.inl (by rw [hnote]; rfl)) ?_
    exact fun q hq => ⟨by rw [hnote]; rfl, htodo q hq, by rw [hnote]; rfl⟩
  have hunlink : MayUnlink cfg m p s := by
    intro hmnt hmount
    rcases hc.spares with hm | hknown | hno | hno
    · exact Or.inl hm
    · exact Or.inr hknown
    · rw [hno] at hmount
      cases hmount
    · rw [hno] at hmnt
      cases hmnt
  have hkeeps := remove_keeps hs hrun hc.cleans (fun _ => hunlink) hsteady
    (fun q hq => (htable.running q).trans hq) hgone ((exec_mnt_le ha hexec).trans hs.few) hsame
    hnote
  refine ⟨keeps_of_inv hstill hkeeps, ⟨⟨hsteady.ended hc.cleans.ended, ?_, ?_⟩, ?_, ?_, ?_, ?_⟩⟩
  · rw [hnote]
    exact hc.cleans.late
  · refine hc.cleans.who.imp (fun hfound => by rw [hnote]; exact hfound) fun ⟨hm, hnone⟩ => ⟨hm, ?_⟩
    rintro ⟨q, hq, hfound⟩
    rw [hnote] at hfound
    exact hnone ⟨q, hsteady.running q hq, hfound⟩
  · rw [htable.cgroup]
    exact hc.outside
  · by_cases hmnt : slot = .mnt
    · exact Or.inr (Or.inr (Or.inr (hmnt ▸ hgone)))
    · rw [hself, Function.update_of_ne (Ne.symm hmnt)]
      have hstays : ∀ slot', s.1.has cfg.name slot' = false → t.1.has cfg.name slot' = false :=
        fun slot' hno => by
          rw [Bool.eq_false_iff] at hno ⊢
          exact fun hh => hno (hless slot' hh)
      exact hc.spares.imp_right (Or.imp_right (Or.imp (hstays _) (hstays _)))
  · intro hm hknown
    rw [hself] at hknown
    by_cases hmnt : slot = .mnt
    · rw [hmnt, Function.update_self] at hknown
      cases hknown
    · rw [Function.update_of_ne (Ne.symm hmnt)] at hknown
      exact hc.image hm hknown
  · intro slot' hslot'
    by_cases hne : slot' = slot
    · subst hne
      by_cases hm : p = m
      · exact Or.inr ⟨Or.inl ⟨hm, htaken⟩, hgone⟩
      · exact Or.inl ⟨hm, by rw [hself, Function.update_self]⟩
    · have hold := (List.mem_cons.1 hslot').resolve_left hne
      rcases hc.gone slot' hold with ⟨hm, hdone⟩ | ⟨hwhy, hno⟩
      · exact Or.inl ⟨hm, by rw [hself, Function.update_of_ne hne]; exact hdone⟩
      · exact Or.inr ⟨hwhy, (hsame slot' hne).trans hno⟩

/-! ## Deaths -/

omit [DecidableEq N] in
/-- Processes end or leave their cgroup, and nothing else happens. -/
theorem alike_of_files {s t : World N × HandoverHistory} (hok : t.1.Ok) (hlater : s.1.Later t.1)
    (hfiles : t.1.files = s.1.files) (hnote : t.2 = s.2)
    (hrunning : ∀ q, t.1.running q = true → s.1.running q = true)
    (hcgroup : ∀ q, (t.1.procs q).cgroup = none ∨ (t.1.procs q).cgroup = (s.1.procs q).cgroup)
    (hends : ∀ q, s.1.running q = true → t.1.running q = false → MayEnd m s q) :
    Alike cfg m p s t := by
  have hhas : ∀ slot, t.1.has cfg.name slot = s.1.has cfg.name slot := fun slot => by
    cases slot <;> simp only [World.has, hfiles]
  refine ⟨⟨hok, hlater, hrunning, hcgroup, ?_, ?_, ?_, ?_, ?_, ?_, ?_, ?_⟩, ?_, ?_, ?_, ?_, ?_, ?_,
    hends⟩
  any_goals rw [hnote]
  · exact id
  · exact id
  · exact fun _ => rfl
  · exact fun _ => rfl
  · exact fun _ _ => ⟨rfl, rfl, rfl⟩
  · exact fun slot _ hh => hhas slot ▸ hh
  · rw [hfiles]
  · exact fun slot _ => hhas slot
  · exact Or.inl rfl

omit [DecidableEq N] in
theorem Proc.die_cgroup (a : Proc N) (how : Exit) : (a.die how).cgroup = a.cgroup := by
  unfold Proc.die
  split <;> rfl

omit [DecidableEq N] in
theorem Proc.die_not_running (a : Proc N) (how : Exit) : (a.die how).life ≠ .running := by
  unfold Proc.die
  split <;> simp

theorem World.running_killCgroup (w : World N) (n : N) (q : Pid) :
    (w.killCgroup n).running q = true ↔
      w.running q = true ∧ (w.procs q).cgroup ≠ some n := by
  simp only [World.running_iff, World.killCgroup, Bool.and_eq_true, beq_iff_eq]
  split
  · next h => exact iff_of_false (Proc.die_not_running _ _) fun hq => hq.2 h.2
  · next h => exact ⟨fun hq => ⟨hq, fun hin => h ⟨hq, hin⟩⟩, And.left⟩

omit [DecidableEq N] in
/-- The death of one process. -/
theorem alike_of_kill {s t : World N × HandoverHistory} {c : Pid} {how : Exit}
    (hs : HandoverInv cfg m s) (hrun : s.1.running c = true) (hworld : t.1 = s.1.kill c how)
    (hnote : t.2 = s.2) (hmay : MayEnd m s c) : Alike cfg m p s t := by
  have hother : ∀ q, q ≠ c → t.1.procs q = s.1.procs q := fun q hq => by
    rw [hworld]
    exact World.setProc_of_ne hq
  have hself : t.1.procs c = (s.1.procs c).die how := by
    rw [hworld]
    exact World.setProc_self
  refine alike_of_files ?_ ?_ (by rw [hworld]; rfl) hnote (fun q hq => ?_) (fun q => Or.inr ?_)
    (fun q hq hdead => ?_)
  · rw [hworld]
    exact hs.table.ok.of_samePids (World.samePids_kill hrun how) (hs.table.ok.listed.of_eq rfl rfl)
  · rw [hworld]
    exact World.later_setProc fun _ => Proc.die_later (World.running_iff.1 hrun) how
  · by_cases hqc : q = c
    · rw [hqc]
      exact hrun
    · rwa [World.running, hother q hqc] at hq
  · by_cases hqc : q = c
    · rw [hqc, hself]
      exact Proc.die_cgroup _ _
    · rw [hother q hqc]
  · by_cases hqc : q = c
    · rw [hqc]
      exact hmay
    · rw [World.running, hother q hqc] at hdead
      rw [World.running, hdead] at hq
      cases hq

/-- The last operation of a process. -/
theorem exit_spec {α : Type} {Q : α → World N × HandoverHistory → Prop} {how : Exit}
    {k : Unit → Code N α} {K : World N × HandoverHistory → Prop}
    (hstable : (handoverContract cfg m).Stable p K)
    (hmay : ∀ v, HandoverInv cfg m v → K v → v.1.running p = true → MayEnd m v p)
    (hs : HandoverInv cfg m s) (hK : K s) :
    (handoverContract cfg m).wp p (act (.exit how) >>= k) Q s := by
  refine Contract.wp_perform hstable hs hK ?_
  intro v hv hinv hrun _ choice v' r hexec
  obtain ⟨hexec', hnote⟩ := exec_of_history hexec
  have hworld : v'.1 = v.1.kill p how := (world_of_some hexec').symm
  have halike : Alike cfg m p v v' :=
    alike_of_kill hinv hrun hworld hnote (hmay v hinv hv hrun)
  refine ⟨⟨trivial, halike.inv hrun hinv, fun q hq _ => halike.rely hq,
    fun q e hch => by cases hch⟩, fun hrun' => ?_⟩
  have hdead : (v'.1.procs p).life = .running := World.running_iff.1 hrun'
  rw [hworld, World.kill, World.setProc_self] at hdead
  exact absurd hdead (Proc.die_not_running _ _)

/-- A clean-up kills what still runs in the cgroup, never itself. -/
theorem kill_op {img : Bool} {gone : List Slot} {r : Unit} (hs : HandoverInv cfg m s)
    (hrun : s.1.running p = true) (hc : Cleaning cfg m p img gone s)
    (hguard : handsOver cfg m s p (.action (.cgroupKill cfg.name)) = true)
    (h : (handoverMachine cfg.name).exec s p (.action (.cgroupKill cfg.name)) choice =
      some (t, r)) :
    (handoverContract cfg m).Keeps p s (.action (.cgroupKill cfg.name)) t r ∧
      Cleaning cfg m p img gone t ∧ Vacated cfg t := by
  obtain ⟨hexec, hnote⟩ := exec_of_history h
  have hchild : ∀ q e, (handoverMachine cfg.name).child (.action (.cgroupKill cfg.name)) r =
      some (q, e) → (handoverContract cfg m).pre e q t := fun q e hch => by cases hch
  by_cases hkernel : s.1.cgroupKill = true
  · have hworld : t.1 = s.1.killCgroup cfg.name := by
      simp only [exec, effect, hkernel, if_true] at hexec
      exact (world_of_some hexec).symm
    have hkilled : ∀ q, t.1.running q = true ↔
        s.1.running q = true ∧ (s.1.procs q).cgroup ≠ some cfg.name := fun q => by
      rw [hworld]
      exact World.running_killCgroup s.1 cfg.name q
    have hcgroup : ∀ q, (t.1.procs q).cgroup = (s.1.procs q).cgroup := fun q => by
      rw [hworld]
      simp only [World.killCgroup]
      split
      · exact Proc.die_cgroup _ _
      · rfl
    have halike : Alike cfg m p s t := by
      refine alike_of_files (exec_ok hs.table.ok hrun hexec) (exec_later hrun hexec)
        (by rw [hworld]; rfl) hnote (fun q hq => ((hkilled q).1 hq).1) (fun q => Or.inr (hcgroup q))
        (fun q hq hdead => ?_)
      have hin : (s.1.procs q).cgroup = some cfg.name := by
        by_contra hout
        rw [(hkilled q).2 ⟨hq, hout⟩] at hdead
        cases hdead
      obtain ⟨hreported, -, hinit⟩ := hasExited_iff.1 hc.cleans.ended
      refine ⟨?_, fun _ => ⟨hreported, hinit⟩, fun hqm => ⟨hc.cleans.ended, Or.inr ?_⟩⟩
      · -- the stops are outside
        by_contra hfound
        have hcommand := hs.table.command q (by simpa using hfound)
        rw [hs.table.outside q hq hcommand] at hin
        cases hin
      · refine ⟨p, hrun, hc.cleans.who.resolve_right fun hpm => ?_⟩
        rw [hqm, ← hpm.1, hc.outside] at hin
        cases hin
    have hinv := halike.inv hrun hs
    refine ⟨⟨trivial, hinv, fun q hq _ => halike.rely hq, hchild⟩,
      cleaning_stable img gone s t hs hc (halike.rely_self hnote p) hinv, fun x hx => ?_⟩
    rw [hcgroup]
    exact ((hkilled x).1 hx).2
  · have hsame : t = s := by
      refine Prod.ext ?_ hnote
      simp only [exec, effect, if_neg hkernel] at hexec
      exact (world_of_some hexec).symm
    subst hsame
    refine ⟨⟨trivial, hs, fun q _ _ => (handoverContract cfg m).rely_refl q t, hchild⟩, hc,
      fun x hx hin => ?_⟩
    simp only [handsOver, hkernel, Bool.false_or, List.all_eq_true] at hguard
    have := hguard x (hs.table.ok.pids x (World.ne_unborn_of_running hx)).1
    simp [hx, hin] at this

/-! ## The programs of a clean-up -/

section CleanUp

variable {α : Type} {Q : α → World N × HandoverHistory → Prop} {img : Bool} {gone : List Slot}

omit [DecidableEq N] in
theorem Cleaning.blind (hs : HandoverInv cfg m s) (hc : Cleaning cfg m p img gone s) :
    (s.1.procs p).role.isCommand = false ∨ s.2.found p = true := by
  refine hc.cleans.who.symm.imp_left fun ⟨hm, _⟩ => ?_
  obtain ⟨n, hrole⟩ := hs.table.monitor.2
  rw [hm, hrole]
  rfl

theorem looks_cleaning : Looks cfg m p (Cleaning cfg m p img gone) fun _ => False :=
  looks_of_ended (cleaning_stable img gone) (fun _ hv hc _ => hc.blind hv)
    fun _ hc => hc.cleans.ended

theorem clean_act {a : Action N} {slot : Slot} {k : a.Res → Code N α}
    (hslot : a.slot = some (cfg.name, slot)) (ha : a.removes = true) (hne : slot ≠ .cgroup)
    (hs : HandoverInv cfg m s) (hc : Cleaning cfg m p img gone s)
    (h : ∀ v r, HandoverInv cfg m v → Cleaning cfg m p img (slot :: gone) v →
      (handoverContract cfg m).wp p (k r) Q v) :
    (handoverContract cfg m).wp p (act a >>= k) Q s := by
  refine Contract.wp_perform (cleaning_stable img gone) hs hc ?_
  intro v hv hinv hrun _ choice v' r hexec
  obtain ⟨hkeeps, hcleaning⟩ :=
    clean_op hslot ha hinv hrun hv (fun heq => absurd heq hne) hexec
  exact ⟨hkeeps, fun _ => h v' r hkeeps.inv hcleaning⟩

/-- A removal that belongs to whatever container. -/
theorem clean_any {a : Action N} {slot : Slot} {n : N} (hslot : a.slot = some (n, slot))
    (ha : a.removes = true) (hne : slot ≠ .cgroup) :
    (handoverContract cfg m).Keeping p (Cleaning cfg m p img gone) _ (act a) := by
  intro s hs hc
  by_cases hn : n = cfg.name
  · subst hn
    exact clean_act (k := .ret) hslot ha hne hs hc fun v r hv hc =>
      Contract.wp_ret_of_stable (cleaning_stable img gone) hv (hc.mono (List.subset_cons_self _ _))
  · refine quiet_keeping ?_ (cleaning_stable img gone) s hs hc
    cases a <;> first | cases ha; done | skip
    all_goals
      obtain ⟨rfl, -⟩ := Prod.mk.inj (Option.some.inj hslot)
      simp [Op.isQuiet, Action.slot, hn]

theorem prune_cleaning (n : N) :
    (handoverContract cfg m).Keeping p (Cleaning cfg m p img gone) _ (pruneStalePidfile n) := by
  have hstable : (handoverContract cfg m).Stable p (Cleaning cfg m p img gone) :=
    cleaning_stable img gone
  have hcomp := Contract.keeping_compositional hstable
  refine hcomp.bind _ _ (clean_any rfl rfl (by simp)) fun _ => ?_
  exact hcomp.bind _ _ (clean_any rfl rfl (by simp)) fun _ => clean_any rfl rfl (by simp)

theorem running_cleaning (n : N) (uuid : Option Uuid) (hs : HandoverInv cfg m s)
    (hc : Cleaning cfg m p img gone s) :
    (handoverContract cfg m).wp p (isContainerRunning n uuid)
      (fun r v => r.1 = false ∧ Cleaning cfg m p img gone v) s := by
  refine Contract.wp_mono (looks_cleaning.isContainerRunning n uuid hs hc) ?_
  rintro ⟨running, pid⟩ v - h
  cases running with
  | false => exact ⟨rfl, h⟩
  | true => exact h.1.elim

theorem countAmong_cleaning (names : List N) :
    (handoverContract cfg m).Keeping p (Cleaning cfg m p img gone) _ (countAmong names) := by
  have hstable : (handoverContract cfg m).Stable p (Cleaning cfg m p img gone) :=
    cleaning_stable img gone
  induction names with
  | nil => exact fun s hs hc => Contract.wp_ret_of_stable hstable hs hc
  | cons n rest ih =>
    intro s hs hc
    refine Contract.wp_seq (running_cleaning n none hs hc) ?_
    rintro ⟨running, pid⟩ v hv ⟨rfl, hc⟩
    simp only [Bool.false_eq_true, if_false]
    by_cases hpid : pid = 0
    · rw [if_pos hpid]
      refine quiet_ask rfl hstable hv hc fun v there _ hv hc _ _ _ => ?_
      cases there with
      | false => exact ih v hv hc
      | true =>
        exact Contract.wp_seq (prune_cleaning n v hv hc) fun _ v hv hc =>
          ih v hv hc
    · rw [if_neg hpid]
      exact ih v hv hc

theorem count_cleaning : (handoverContract cfg m).Keeping p (Cleaning cfg m p img gone) _
    (countRunningContainers : Code N ℕ) := fun _ hs hc =>
  quiet_ask rfl (cleaning_stable img gone) hs hc fun v names _ hv hc _ _ _ =>
    countAmong_cleaning names v hv hc

theorem featureAmong_cleaning (names : List N) :
    (handoverContract cfg m).Keeping p (Cleaning cfg m p img gone) _ (featureAmong names) := by
  have hstable : (handoverContract cfg m).Stable p (Cleaning cfg m p img gone) :=
    cleaning_stable img gone
  induction names with
  | nil => exact fun s hs hc => Contract.wp_ret_of_stable hstable hs hc
  | cons n rest ih =>
    intro s hs hc
    refine quiet_ask rfl hstable hs hc fun v loaded _ hv hc _ _ _ => ?_
    by_cases hfeature : loaded.feature = true
    · rw [if_pos hfeature]
      refine Contract.wp_seq (running_cleaning n loaded.uuid hv hc) ?_
      rintro ⟨running, pid⟩ v hv ⟨rfl, hc⟩
      exact ih v hv hc
    · rw [if_neg hfeature]
      exact ih v hv hc

theorem needs_cleaning : (handoverContract cfg m).Keeping p (Cleaning cfg m p img gone) _
    (checkSelinuxPermissiveNeeds : Code N Bool) := fun _ hs hc =>
  quiet_ask rfl (cleaning_stable img gone) hs hc fun v names _ hv hc _ _ _ =>
    featureAmong_cleaning names v hv hc

theorem unmount_cleaning (hs : HandoverInv cfg m s) (hc : Cleaning cfg m p img gone s) :
    (handoverContract cfg m).wp p (unmountRootfsImg cfg.name)
      (fun _ v => Cleaning cfg m p img (.mnt :: gone) v) s := by
  have hstable : (handoverContract cfg m).Stable p (Cleaning cfg m p img (.mnt :: gone)) :=
    cleaning_stable img (.mnt :: gone)
  have hrmdir : (handoverContract cfg m).Keeping p (Cleaning cfg m p img (.mnt :: gone)) _
      (act (.rmdirMnt cfg.name)) :=
    quiet_keeping (by simp [Op.isQuiet, Action.slot, Slot.isTaken]) hstable
  refine clean_act rfl rfl (by simp) hs hc fun v _ hv hc => ?_
  refine quiet_ask rfl hstable hv hc fun v still _ hv hc _ _ _ => ?_
  cases still with
  | false => exact hrmdir v hv hc
  | true =>
    refine clean_act rfl rfl (by simp) hv hc fun v _ hv hc => ?_
    exact hrmdir v hv (hc.mono (List.subset_cons_self _ _))

theorem cgroup_cleaning (hs : HandoverInv cfg m s) (hc : Cleaning cfg m p img gone s) :
    (handoverContract cfg m).wp p (cgroupCleanupContainer cfg.name)
      (fun _ v => Cleaning cfg m p img (.cgroup :: gone) v) s := by
  refine Contract.wp_perform (cleaning_stable img gone) hs hc ?_
  intro v hv hinv hrun hguard choice v' r hexec
  obtain ⟨hkeeps, hcleaning, hvacated⟩ := kill_op hinv hrun hv hguard hexec
  refine ⟨hkeeps, fun _ => ?_⟩
  refine Contract.wp_perform (k := .ret) (K := fun u => Cleaning cfg m p img gone u ∧ Vacated cfg u)
    (fun u v hu h hrely hv => ⟨cleaning_stable img gone u v hu h.1 hrely hv,
      vacated_stable u v hu h.2 hrely hv⟩) hkeeps.inv ⟨hcleaning, hvacated⟩ ?_
  intro u hu hinv hrun _ choice u' r hexec
  obtain ⟨hkeeps, hcleaning⟩ := clean_op rfl rfl hinv hrun hu.1 (fun _ => hu.2) hexec
  exact ⟨hkeeps, fun _ => Contract.wp_ret_of_stable (cleaning_stable _ _) hkeeps.inv hcleaning⟩

end CleanUp

/-! ## `cleanup_container_resources` -/

/-- Whoever is about to clean up: a stop that has found the container running, or the monitor after
the exit when there is none. -/
structure Beginning (cfg : Config N) (m p : Pid) (img : Bool) (s : World N × HandoverHistory) :
    Prop where
  who : s.2.found p = true ∨ p = m ∧ hasExited s = true ∧ ¬ AnyFound s
  outside : (s.1.procs p).cgroup = none
  spares : p = m ∨ s.2.todo p .mnt = true ∨ s.1.has cfg.name .mount = false
  image : p ≠ m → s.2.todo p .mnt = true → img = true

/-- A stop after its clean-up, or the monitor that leaves nothing to be done. -/
structure CleanedUp (m p : Pid) (s : World N × HandoverHistory) : Prop where
  command : p ≠ m → Calm p s
  monitor : p = m → hasExited s = true ∧ (s.2.cleaned = true ∨ AnyFound s)

theorem beginning_stable (img : Bool) :
    (handoverContract cfg m).Stable p (Beginning cfg m p img) := by
  intro u v _ h hrely _
  refine ⟨?_, hrely.outside h.outside, ?_, ?_⟩
  · refine h.who.imp (fun hfound => hrely.found.trans hfound) fun ⟨hm, hended, hnone⟩ => ?_
    exact ⟨hm, hrely.ended (Or.inl hm) hended, (hrely.alone hm hended hnone).1⟩
  · rw [hrely.todo]
    exact h.spares.imp_right (Or.imp_right (hrely.stays rfl))
  · rw [hrely.todo]
    exact h.image

theorem cleanedUp_stable : (handoverContract cfg m).Stable p (CleanedUp m p) := by
  intro u v hu h hrely hv
  refine ⟨fun hm => calm_stable u v hu (h.command hm) hrely hv, fun hm => ?_⟩
  obtain ⟨hended, hheir⟩ := h.monitor hm
  exact ⟨hrely.ended (Or.inl hm) hended, hrely.heir hm hended hheir⟩

variable {α : Type} {Q : α → World N × HandoverHistory → Prop} {img : Bool}

/-- A clean-up begins. -/
theorem cleanup_mark {k : Unit → Code N α} (hs : HandoverInv cfg m s)
    (hb : Beginning cfg m p img s) (h : ∀ v, HandoverInv cfg m v → Cleaning cfg m p img [] v →
      (handoverContract cfg m).wp p (k ()) Q v) :
    (handoverContract cfg m).wp p (mark (.cleanup cfg.name false) >>= k) Q s := by
  refine Contract.wp_perform (beginning_stable img) hs hb ?_
  intro v hv hinv hrun hguard choice v' r hexec
  obtain ⟨hexec', hnote⟩ := exec_of_history hexec
  have hworld : v'.1 = v.1 := (world_of_some hexec').symm
  have hended : hasExited v = true := by
    rcases hv.who with hfound | ⟨-, hended, -⟩
    · have hm : p ≠ m := by
        rintro rfl
        rw [hinv.table.monitor_not_found] at hfound
        cases hfound
      have hguard' : (decide (p = m) || hasExited v) = true := hguard
      simpa [hm] using hguard'
    · exact hended
  obtain rfl : v' = (v.1, { v.2 with late := Function.update v.2.late p true }) :=
    Prod.ext hworld (by simp [hnote, HandoverHistory.note, hended])
  have hlate : ∀ q, q ≠ p → Function.update v.2.late p true q = v.2.late q := fun q hq =>
    Function.update_of_ne hq _ _
  have halike : Alike cfg m p v (v.1, { v.2 with late := Function.update v.2.late p true }) := by
    refine ⟨⟨hinv.table.ok, World.Later.refl _, fun _ => id, fun _ => Or.inr rfl, rfl, rfl, id, id,
      fun _ => rfl, fun _ => rfl, fun q hq => ⟨rfl, rfl, hlate q hq⟩, fun _ _ => id⟩, rfl,
      fun _ _ => rfl, rfl, rfl, rfl, ?_, fun q hq hdead => ?_⟩
    · by_cases hm : m = p
      · exact Or.inr ⟨hended, by rw [hm]; exact Function.update_self _ _ _⟩
      · exact Or.inl (hlate m hm)
    · rw [hq] at hdead
      cases hdead
  refine ⟨keeps_of_inv rfl ⟨halike.inv hrun hinv, fun q hq => halike.rely hq⟩, fun _ => h _
    (halike.inv hrun hinv) ⟨⟨hended, Function.update_self _ _ _, ?_⟩, hv.outside, ?_, hv.image, ?_⟩⟩
  · exact hv.who.imp_right fun ⟨hm, _, hnone⟩ => ⟨hm, hnone⟩
  · exact hv.spares.imp_right (Or.imp_right Or.inl)
  · intro slot hslot
    cases hslot

/-- A clean-up is through. -/
theorem cleaned_mark {n : N} {gone : List Slot} (hs : HandoverInv cfg m s)
    (hc : Cleaning cfg m p img gone s)
    (hall : ∀ slot ∈ [Slot.mount, .init, .pid, .cgroup], slot ∈ gone)
    (hmnt : .mnt ∈ gone ∨ img = false ∧ (p = m → cfg.img = false))
    (hrules : .rules ∈ gone ∨ ¬ (cfg.net = .nat ∨ cfg.net = .gateway)) :
    (handoverContract cfg m).wp p (mark (.cleaned n)) (fun _ v => CleanedUp m p v) s := by
  refine Contract.wp_perform (k := .ret) (cleaning_stable img gone) hs hc ?_
  intro v hv hinv hrun _ choice v' r hexec
  obtain ⟨hexec', hnote⟩ := exec_of_history hexec
  obtain rfl : v' = (v.1, v.2.finish p) := Prod.ext (world_of_some hexec').symm hnote
  have hdone : ∀ slot, slot.isTaken = true → v.1.has cfg.name slot = true →
      p ≠ m ∧ v.2.todo p slot = false := by
    intro slot htaken hhas
    have hof : slot ∈ gone → p ≠ m ∧ v.2.todo p slot = false := fun hslot =>
      (hv.gone slot hslot).resolve_right fun ⟨_, hno⟩ => by
        rw [hhas] at hno
        cases hno
    cases slot with
    | pid | mount | init | cgroup => exact hof (hall _ (by simp))
    | lock | dir => cases htaken
    | mnt =>
      refine hmnt.elim hof fun ⟨himg, hm⟩ => ?_
      by_cases hpm : p = m
      · rw [hinv.image hhas] at hm
        cases hm hpm
      · refine ⟨hpm, ?_⟩
        rw [Bool.eq_false_iff]
        intro hknown
        rw [hv.image hpm hknown] at himg
        cases himg
    | rules => exact hrules.elim hof fun hno => absurd (hinv.rules hhas) hno
  have hkeeps : (handoverContract cfg m).Keeps p v (.mark (.cleaned n)) (v.1, v.2.finish p) () :=
    keeps_of_inv rfl (finish_keeps hinv hrun hv.cleans hdone)
  refine ⟨hkeeps, fun _ => Contract.wp_ret_of_stable cleanedUp_stable hkeeps.inv ⟨fun hm => ?_,
    fun _ => ⟨hv.cleans.ended, Or.inl ?_⟩⟩⟩
  · have hfound := hv.cleans.who.resolve_right fun h => hm h.1
    refine ⟨World.ne_unborn_of_running hrun, hinv.table.command p hfound, ?_⟩
    simp [HandoverHistory.finish]
  · simp [HandoverHistory.finish, hv.cleans.late]

theorem cleanupContainerResources_spec {c : Config N} (force : Bool) (hname : c.name = cfg.name)
    (hnet : c.net = cfg.net) (himg : p = m → img = cfg.img) (hs : HandoverInv cfg m s)
    (hb : Beginning cfg m p img s) :
    (handoverContract cfg m).wp p (cleanupContainerResources c img false force)
      (fun _ v => CleanedUp m p v) s := by
  -- the end: the cgroup
  have hend : ∀ gone, (∀ slot ∈ [Slot.mount, .init, .pid], slot ∈ gone) →
      (.mnt ∈ gone ∨ img = false) → (.rules ∈ gone ∨ ¬ (cfg.net = .nat ∨ cfg.net = .gateway)) →
      ∀ v, HandoverInv cfg m v → Cleaning cfg m p img gone v → (handoverContract cfg m).wp p
        (cgroupCleanupContainer cfg.name >>= fun _ => mark (.cleaned cfg.name))
        (fun _ v => CleanedUp m p v) v := by
    intro gone hall hmnt hrules v hv hc
    refine Contract.wp_seq (cgroup_cleaning hv hc) fun _ v hv hc => ?_
    refine cleaned_mark hv hc ?_ ?_ ?_
    · intro slot hslot
      simp only [List.mem_cons, List.not_mem_nil, or_false] at hslot hall ⊢
      rcases hslot with rfl | rfl | rfl | rfl
      · exact Or.inr (hall _ (by simp))
      · exact Or.inr (hall _ (by simp))
      · exact Or.inr (hall _ (by simp))
      · exact Or.inl rfl
    · refine hmnt.imp (List.mem_cons_of_mem _) fun hno => ⟨hno, fun hm => ?_⟩
      rw [← himg hm, hno]
    · exact hrules.imp_left (List.mem_cons_of_mem _)
  -- the rules
  have hnetwork : ∀ gone, (∀ slot ∈ [Slot.mount, .init, .pid], slot ∈ gone) →
      (.mnt ∈ gone ∨ img = false) →
      ∀ v, HandoverInv cfg m v → Cleaning cfg m p img gone v → (handoverContract cfg m).wp p
        (if cfg.net = .nat ∨ cfg.net = .gateway then act (.netCleanup cfg.name) >>= fun _ =>
          cgroupCleanupContainer cfg.name >>= fun _ => mark (.cleaned cfg.name)
        else cgroupCleanupContainer cfg.name >>= fun _ => mark (.cleaned cfg.name))
        (fun _ v => CleanedUp m p v) v := by
    intro gone hall hmnt v hv hc
    split
    · refine clean_act rfl rfl (by simp) hv hc fun v _ hv hc => hend _ ?_ ?_ ?_ v hv hc
      · exact fun slot hslot => List.mem_cons_of_mem _ (hall slot hslot)
      · exact hmnt.imp_left (List.mem_cons_of_mem _)
      · exact Or.inl List.mem_cons_self
    · next hno => exact hend gone hall hmnt (Or.inr hno) v hv hc
  -- the files under `Pids/`
  have hfiles : ∀ gone, (.mnt ∈ gone ∨ img = false) →
      ∀ v, HandoverInv cfg m v → Cleaning cfg m p img gone v → (handoverContract cfg m).wp p
        (act (.unlinkMount cfg.name) >>= fun _ => act (.unlinkInit cfg.name) >>= fun _ =>
          act (.unlinkPid cfg.name) >>= fun _ =>
          if cfg.net = .nat ∨ cfg.net = .gateway then act (.netCleanup cfg.name) >>= fun _ =>
            cgroupCleanupContainer cfg.name >>= fun _ => mark (.cleaned cfg.name)
          else cgroupCleanupContainer cfg.name >>= fun _ => mark (.cleaned cfg.name))
        (fun _ v => CleanedUp m p v) v := by
    intro gone hmnt v hv hc
    refine clean_act rfl rfl (by simp) hv hc fun v _ hv hc => ?_
    refine clean_act rfl rfl (by simp) hv hc fun v _ hv hc => ?_
    refine clean_act rfl rfl (by simp) hv hc fun v _ hv hc => ?_
    refine hnetwork _ (by simp) (hmnt.imp_left fun h => ?_) v hv hc
    simp [h]
  -- the image
  have himage : ∀ v, HandoverInv cfg m v → Cleaning cfg m p img [] v →
      (handoverContract cfg m).wp p (do
        let recorded ← ask (.readMount cfg.name)
        if recorded || img then
          if force then
            act (.umount cfg.name)
            act (.rmdirMnt cfg.name)
          else
            unmountRootfsImg cfg.name
        act (.unlinkMount cfg.name)
        act (.unlinkInit cfg.name)
        act (.unlinkPid cfg.name)
        if cfg.net = .nat ∨ cfg.net = .gateway then
          act (.netCleanup cfg.name)
        cgroupCleanupContainer cfg.name
        mark (.cleaned cfg.name)) (fun _ v => CleanedUp m p v) v := by
    intro v hv hc
    refine quiet_ask rfl (cleaning_stable img []) hv hc fun v recorded _ hv hc _ _ _ => ?_
    cases hknown : recorded || img with
    | false =>
      rw [if_neg (by simp)]
      exact hfiles [] (Or.inr (Bool.or_eq_false_iff.1 hknown).2) v hv hc
    | true =>
      rw [if_pos rfl]
      cases force with
      | true =>
        refine clean_act rfl rfl (by simp) hv hc fun v _ hv hc => ?_
        refine quiet_next (by simp [Op.isQuiet, Action.slot, Slot.isTaken]) (cleaning_stable img _)
          hv hc fun v _ hv hc => ?_
        exact hfiles _ (Or.inl List.mem_cons_self) v hv hc
      | false =>
        refine Contract.wp_seq (unmount_cleaning hv hc) fun _ v hv hc => ?_
        exact hfiles _ (Or.inl List.mem_cons_self) v hv hc
  unfold cleanupContainerResources
  rw [hname, hnet]
  simp only [Bool.not_false, Bool.and_true, if_true]
  refine cleanup_mark hs hb fun v hv hc => ?_
  refine quiet_ask rfl (cleaning_stable img []) hv hc fun v android _ hv hc _ _ _ => ?_
  cases android with
  | false => exact himage v hv hc
  | true =>
    refine Contract.wp_seq (count_cleaning v hv hc) fun _ v hv hc => ?_
    refine Contract.wp_seq (needs_cleaning v hv hc) fun _ v hv hc => ?_
    exact himage v hv hc

end Droidspaces
