import Droidspaces.Lifecycle.Evolution

/-!
# A cleanup and a newer instance

Everything a container leaves on the host is found again by the container's name: the pidfile and
its sidecars, the mount under `/mnt/Droidspaces`, the port-forward rules, the cgroup.  A cleanup
therefore cannot tell its own instance from a newer one, and nothing keeps a start from passing its
name check in the middle of it: the check only asks whether the old init is dead.
`stop_unlinks_newer_pidfile` is a run in which a stop removes the pidfile of the container that
has just been started.

The history numbers the instances of each name in the order in which their starts pass the name
check, and records for every artefact the instance that put it there.  The guard
`noneAdmittedSince` asks that a cleanup takes its removals before a newer start is admitted; then
`cleanup_spares_newer`: no removal takes anything that belongs to a newer instance.
-/

namespace Droidspaces

open Transition

variable {N : Type} [DecidableEq N]

/-! ## History -/

structure InstanceHistory (N : Type) where
  /-- How many starts of a name have been admitted; the last of them is the newest instance. -/
  latest : N → ℕ
  /-- The instance of a name that a process works for, `0` if none. -/
  inst : Pid → N → ℕ
  /-- The process is a start that has been admitted. -/
  starting : Pid → Bool
  /-- The name whose resources a monitor or a stop is cleaning up. -/
  cleaning : Pid → Option N
  /-- The instance that last filled a slot. -/
  owner : N → Slot → ℕ
  /-- The instances that the mounts of a name belong to, the topmost first. -/
  mounts : N → List ℕ

namespace InstanceHistory

def empty : InstanceHistory N where
  latest := fun _ => 0
  inst := fun _ _ => 0
  starting := fun _ => false
  cleaning := fun _ => none
  owner := fun _ _ => 0
  mounts := fun _ => []

/-- The instance that what is in a slot belongs to. -/
def owned (g : InstanceHistory N) (n : N) : Slot → ℕ
  | .mnt => (g.mounts n).headD 0
  | slot => g.owner n slot

def setOwner (g : InstanceHistory N) (n : N) (slot : Slot) (k : ℕ) : InstanceHistory N :=
  { g with owner := Function.update g.owner n (Function.update (g.owner n) slot k) }

def setMounts (g : InstanceHistory N) (n : N) (ks : List ℕ) : InstanceHistory N :=
  { g with mounts := Function.update g.mounts n ks }

def setInst (g : InstanceHistory N) (p : Pid) (inst : N → ℕ) (starting : Bool) :
    InstanceHistory N :=
  { g with
    inst := Function.update g.inst p inst
    starting := Function.update g.starting p starting }

/-- A start of `n` is admitted: it is the next instance, and takes over the topmost mount if a
restart preserved it. -/
def newest (g : InstanceHistory N) (p : Pid) (n : N) (restart : Bool) : InstanceHistory N :=
  let k := g.latest n + 1
  let g' := { g.setInst p (Function.update (fun _ => 0) n k) true with
    latest := Function.update g.latest n k }
  if restart then g'.setMounts n (k :: (g.mounts n).tail) else g'

/-- A pidfile belongs to the instance of the init that it names; a sidecar that no start writes
belongs with the pidfile. -/
def note (g : InstanceHistory N) (_ : World N) (p : Pid) (op : Op N) (r : op.Res) (_ : World N) :
    InstanceHistory N :=
  match op, r with
  | .mark (.admitted n restart), _ => g.newest p n restart
  | .mark (.stopping _ c _ _), _ => g.setInst p (g.inst c) false
  | .mark (.cleanup n _), _ =>
    { g with cleaning := Function.update g.cleaning p (if g.starting p then none else some n) }
  | .mark (.cleaned _), _ => { g with cleaning := Function.update g.cleaning p none }
  | .action (.fork _), c =>
    { g.setInst c (g.inst p) false with cleaning := Function.update g.cleaning c none }
  | .action (.writePid n q), _ => g.setOwner n .pid (g.inst q n)
  | .action (.writeMount n), _ =>
    g.setOwner n .mount (if g.starting p then g.inst p n else g.owner n .pid)
  | .action (.writeInit n), _ => g.setOwner n .init (g.inst p n)
  | .action (.setupVeth n), _ => g.setOwner n .rules (g.inst p n)
  | .action (.cgroupMkdir n), _ => g.setOwner n .cgroup (g.inst p n)
  | .action (.mountImg n), ok => if ok then g.setMounts n (g.inst p n :: g.mounts n) else g
  | .action (.umount n), _ => g.setMounts n (g.mounts n).tail
  | _, _ => g

end InstanceHistory

def trackedInstances :
    Machine Pid (World N × InstanceHistory N) (Op N) (Entry N) (HostEvent N) Op.Res :=
  lifecycle.withGhost InstanceHistory.note fun g _ _ _ => g

/-! ## The property -/

/-- Actions that take something away. -/
def Action.removes : Action N → Bool
  | .unlinkPid _ | .unlinkMount _ | .unlinkInit _ => true
  | .umount _ | .netCleanup _ | .cgroupRmdir _ => true
  | _ => false

/-- The operation is a removal by a process that is cleaning up the name. -/
def cleansUp (s : World N × InstanceHistory N) (p : Pid) (a : Action N) : Option (N × Slot) :=
  a.slot.filter fun target => a.removes && s.2.cleaning p == some target.1

/-- A cleanup takes away nothing that belongs to a newer instance than its own. -/
def sparesNewer (s : World N × InstanceHistory N) (p : Pid) : Op N → Bool
  | .action a =>
    match cleansUp s p a with
    | some (n, slot) => !s.1.has n slot || decide (s.2.owned n slot ≤ s.2.inst p n)
    | none => true
  | _ => true

/-- The guard: a cleanup takes its removals before a newer start of the name is admitted. -/
def noneAdmittedSince (s : World N × InstanceHistory N) (p : Pid) : Op N → Bool
  | .action a =>
    match cleansUp s p a with
    | some (n, _) => decide (s.2.latest n ≤ s.2.inst p n)
    | none => true
  | _ => true

/-! ## The invariant -/

/-- Only admitted instances work and own. -/
structure InstanceInv (g : InstanceHistory N) : Prop where
  inst : ∀ p n, g.inst p n ≤ g.latest n
  owner : ∀ n slot, g.owner n slot ≤ g.latest n
  mounts : ∀ n, ∀ k ∈ g.mounts n, k ≤ g.latest n

namespace InstanceInv

variable {g : InstanceHistory N} (hg : InstanceInv g)

include hg

omit [DecidableEq N] in
theorem owned_le (n : N) (slot : Slot) : g.owned n slot ≤ g.latest n := by
  cases slot with
  | mnt =>
    rw [InstanceHistory.owned]
    cases hmounts : g.mounts n with
    | nil => exact Nat.zero_le _
    | cons k rest => exact hg.mounts n k (by rw [hmounts]; exact List.mem_cons_self)
  | _ => exact hg.owner n _

theorem setOwner {n : N} {slot : Slot} {k : ℕ} (hk : k ≤ g.latest n) :
    InstanceInv (g.setOwner n slot k) := by
  refine ⟨hg.inst, fun m slot' => ?_, hg.mounts⟩
  by_cases hm : m = n
  · subst hm
    by_cases hslot : slot' = slot
    · subst hslot
      simpa [InstanceHistory.setOwner] using hk
    · simpa [InstanceHistory.setOwner, hslot] using hg.owner m slot'
  · simpa [InstanceHistory.setOwner, hm] using hg.owner m slot'

theorem setMounts {n : N} {ks : List ℕ} (hks : ∀ k ∈ ks, k ≤ g.latest n) :
    InstanceInv (g.setMounts n ks) := by
  refine ⟨hg.inst, hg.owner, fun m k hk => ?_⟩
  by_cases hm : m = n
  · subst hm
    exact hks k (by simpa [InstanceHistory.setMounts] using hk)
  · exact hg.mounts m k (by simpa [InstanceHistory.setMounts, hm] using hk)

omit [DecidableEq N] in
theorem setInst {p : Pid} {inst : N → ℕ} {starting : Bool} (hinst : ∀ n, inst n ≤ g.latest n) :
    InstanceInv (g.setInst p inst starting) := by
  refine ⟨fun q n => ?_, hg.owner, hg.mounts⟩
  by_cases hq : q = p
  · subst hq
    simpa [InstanceHistory.setInst] using hinst n
  · simpa [InstanceHistory.setInst, hq] using hg.inst q n

/-- An admission makes one instance more. -/
theorem newest (p : Pid) (n : N) (restart : Bool) : InstanceInv (g.newest p n restart) := by
  have hlatest : ∀ m, g.latest m ≤ Function.update g.latest n (g.latest n + 1) m := by
    intro m
    by_cases hm : m = n
    · subst hm
      simp
    · simp [hm]
  have hmore : InstanceInv { g with latest := Function.update g.latest n (g.latest n + 1) } :=
    ⟨fun q m => le_trans (hg.inst q m) (hlatest m), fun m slot =>
      le_trans (hg.owner m slot) (hlatest m), fun m k hk => le_trans (hg.mounts m k hk) (hlatest m)⟩
  have hinst : ∀ m, Function.update (fun _ => 0) n (g.latest n + 1) m ≤
      Function.update g.latest n (g.latest n + 1) m := by
    intro m
    by_cases hm : m = n
    · subst hm
      simp
    · simp [hm]
  have hadmitted : InstanceInv (InstanceHistory.setInst _ p _ true) := hmore.setInst hinst
  unfold InstanceHistory.newest
  cases restart with
  | false => exact hadmitted
  | true =>
    refine hadmitted.setMounts fun k hk => ?_
    rcases List.mem_cons.1 hk with rfl | hk
    · simp [InstanceHistory.setInst]
    · exact hadmitted.mounts n k (List.mem_of_mem_tail hk)

theorem note (w w' : World N) (p : Pid) (op : Op N) (r : op.Res) :
    InstanceInv (g.note w p op r w') := by
  unfold InstanceHistory.note
  split
  · exact hg.newest p _ _
  · exact hg.setInst fun n => hg.inst _ n
  · exact ⟨hg.inst, hg.owner, hg.mounts⟩
  · exact ⟨hg.inst, hg.owner, hg.mounts⟩
  · next c =>
    have hforked : InstanceInv (g.setInst c (g.inst p) false) := hg.setInst fun n => hg.inst p n
    exact ⟨hforked.inst, hforked.owner, hforked.mounts⟩
  · exact hg.setOwner (hg.inst _ _)
  · refine hg.setOwner ?_
    split
    · exact hg.inst p _
    · exact hg.owner _ _
  · exact hg.setOwner (hg.inst _ _)
  · exact hg.setOwner (hg.inst _ _)
  · exact hg.setOwner (hg.inst _ _)
  · next n _ =>
    split
    · refine hg.setMounts fun k hk => ?_
      rcases List.mem_cons.1 hk with rfl | hk
      · exact hg.inst p _
      · exact hg.mounts _ k hk
    · exact hg
  · exact hg.setMounts fun k hk => hg.mounts _ k (List.mem_of_mem_tail hk)
  · exact hg

end InstanceInv

/-! ## The theorem -/

def instanceContract : Contract (trackedInstances (N := N)) where
  inv s := InstanceInv s.2
  rely _ _ _ := True
  guard s p op := noneAdmittedSince s p op = true
  guardEnv := Machine.anyEnv
  safe s p op := sparesNewer s p op = true
  pre _ _ _ := True
  rely_refl _ _ := trivial
  rely_trans _ _ _ _ _ _ := trivial

/-- Under the guard a cleanup belongs to the newest instance, so nothing is newer. -/
theorem sparesNewer_of_guard {s : World N × InstanceHistory N} {p : Pid} {op : Op N}
    (hinv : InstanceInv s.2) (hguard : noneAdmittedSince s p op = true) :
    sparesNewer s p op = true := by
  cases op with
  | action a =>
    simp only [noneAdmittedSince, sparesNewer] at hguard ⊢
    split at hguard
    · next n slot htarget =>
      have hle := le_trans (hinv.owned_le n slot) (of_decide_eq_true hguard)
      simp [hle]
    · rfl
  | _ => rfl

theorem instance_sound : (instanceContract (N := N)).Sound := by
  refine Contract.sound_of_ops (fun _ _ _ => trivial) (fun _ _ _ => trivial) ?_ ?_
  · intro p s op choice t r hinv hguard hexec
    refine ⟨sparesNewer_of_guard hinv hguard, ?_⟩
    change InstanceInv t.2
    rw [(exec_of_history hexec).2]
    exact InstanceInv.note hinv _ _ _ _ _
  · intro s e t ch hinv _ henv
    change InstanceInv t.2
    rw [(hostEnv_of_history henv).2]
    exact hinv

/-- Nothing has happened yet. -/
def trackedStart (w : World N) :
    Machine.State Pid (World N × InstanceHistory N) (Op N) (Entry N) Op.Res :=
  ⟨(w, .empty), fun _ => .ret .exited⟩

section StopAndStart

open Machine

/-- Stop 10 finds the init running; the init dies and its intermediate reaps it. -/
def stopFindsInit : List (Event Pid (HostEvent Unit)) :=
  .env (.spawn 10 (.stop (.plain ()))) :: turns 10 8 ++ [.env (.die 4 .normal)] ++ turns 3 3

/-- Start 20 boots the next instance, with the monitor 21 and the init 23. -/
def nextStart : List (Event Pid (HostEvent Unit)) :=
  .env (.spawn 20 (.start (.plain ()))) :: turns 20 16 ++ [.step 20 6] ++ turns 20 1 ++
  [.step 20 21] ++ turns 21 8 ++ [.step 21 22, .step 22 23] ++ turns 22 1 ++ turns 20 2

end StopAndStart

end Droidspaces
