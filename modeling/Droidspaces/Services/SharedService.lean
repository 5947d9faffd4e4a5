import Droidspaces.Transition.System
import Mathlib.Data.Fintype.Basic
import Mathlib.Data.Nat.Notation
import Mathlib.Logic.Function.Basic

/-!
# Shared services, step by step

A start takes a shared service (a display or sound server, or SELinux in permissive mode) before
its container is booted and recorded; a cleanup that finds no running container with the feature
ends the service.  `ds_feature_needs` lists `Pids/` once, and for each name loads a configuration
and asks whether the container is running.  The configuration is the one that the container was
booted with only if the container is found by that name, which is the name of the pidfile and not
that of the container: with blanks in its name, the container is not found, and the configuration
comes from the host, where it may have been edited.

`served` says when no service is ended that a container still needs.
-/

namespace Droidspaces.SharedService

open Transition

/-! ## Containers and cleanups -/

inductive Service where
  /-- Termux:X11, VirGL or PulseAudio -/
  | server
  /-- SELinux in permissive mode -/
  | permissive
  deriving DecidableEq

structure Container where
  /-- The name is the one of the pidfile: there are no blanks in it. -/
  plain : Bool
  /-- The feature, in `container.config` on the host. -/
  hostFlag : Bool
  /-- Started, and not ended. -/
  active : Bool
  /-- The feature, in the configuration that it was started with. -/
  booted : Bool
  /-- It has found the service, or turned it on. -/
  held : Bool
  /-- It is on an in-container reboot, or has been through one. -/
  rebooted : Bool
  /-- Its init is there, with `/run/droidspaces` and what belongs in it. -/
  live : Bool
  /-- Its start has written the pidfile. -/
  recorded : Bool
  deriving DecidableEq

/-- A cleanup that is in `ds_feature_needs`. -/
structure Cleaner (N : Type) where
  /-- What `readdir` will return. -/
  todo : List N
  /-- The configuration that was loaded last, and the feature in it. -/
  asking : Option (N × Bool)
  /-- The containers that have been running and recorded since the directory was opened. -/
  steady : List N
  /-- The ones that hold the service and whose configuration does not say so. -/
  misread : List N

structure State (N : Type) where
  service : Bool
  containers : N → Container
  pids : List N
  cleaners : ℕ → Option (Cleaner N)

inductive Event (N : Type) where
  | begins (n : N) (flag : Bool)
  /-- The start finds the service on. -/
  | finds (n : N)
  /-- The start turns it on. -/
  | launches (n : N)
  /-- The init has booted. -/
  | boots (n : N)
  /-- The pidfile is written. -/
  | records (n : N)
  /-- The start fails, or the container ends. -/
  | ends (n : N)
  /-- An in-container reboot, with the configuration that the monitor loads. -/
  | reboots (n : N) (flag : Bool)
  /-- The pidfile is removed, by a cleanup or by a command that takes it for stale. -/
  | unlinks (n : N)
  /-- `container.config` on the host is edited. -/
  | edits (n : N) (flag : Bool)
  /-- A cleanup opens `Pids/`. -/
  | opens (c : ℕ)
  /-- `ds_config_load_by_name` -/
  | loads (c : ℕ)
  /-- `is_container_running` -/
  | asks (c : ℕ)
  /-- No container needs the service: it is ended. -/
  | releases (c : ℕ)
  /-- The same, with nothing to end. -/
  | leaves (c : ℕ)
  deriving DecidableEq

/-! ## The steps -/

section Steps

variable {N : Type} [DecidableEq N]

def setContainer (s : State N) (n : N) (a : Container) : State N :=
  { s with containers := Function.update s.containers n a }

def setCleaner (s : State N) (c : ℕ) (k : Option (Cleaner N)) : State N :=
  { s with cleaners := Function.update s.cleaners c k }

/-- From now on `n` has not been running and recorded all the time. -/
def disturb (s : State N) (n : N) : State N :=
  { s with cleaners := fun c =>
      (s.cleaners c).map fun k => { k with steady := k.steady.filter (· ≠ n) } }

/-- The feature, in the configuration that `ds_config_load_by_name` loads. -/
def loadedFlag (a : Container) : Bool := if a.live && a.plain then a.booted else a.hostFlag

/-- Before its boot a container asks for the service.  The mode of SELinux is set by a start only,
and not by an in-container reboot. -/
def asksFor (v : Service) (a : Container) : Bool :=
  a.active && a.booted && !a.live && !(v == .permissive && a.rebooted)

def system (v : Service) : System (State N) (Event N) where
  step s
    | .begins n flag =>
      let a := s.containers n
      if a.active then none
      else some (setContainer s n { a with
        active := true
        booted := flag
        held := false
        rebooted := false
        live := false
        recorded := false })
    | .finds n =>
      let a := s.containers n
      if asksFor v a && s.service then some (setContainer s n { a with held := true }) else none
    | .launches n =>
      let a := s.containers n
      if asksFor v a then some { setContainer s n { a with held := true } with service := true }
      else none
    | .boots n =>
      let a := s.containers n
      -- A start that could not launch a server goes on without it.
      if a.active && (a.held || v == .server || !a.booted || a.rebooted) then
        some (setContainer s n { a with live := true })
      else none
    | .records n =>
      let a := s.containers n
      if a.active then
        some { setContainer s n { a with recorded := true } with pids := s.pids.insert n }
      else none
    | .ends n =>
      let a := s.containers n
      some (disturb (setContainer s n { a with active := false, held := false, live := false }) n)
    | .reboots n flag =>
      let a := s.containers n
      if a.active then
        some (disturb (setContainer s n { a with
          booted := flag
          held := v == .permissive && a.held && flag
          rebooted := true
          live := false
          recorded := false }) n)
      else none
    | .unlinks n => some (disturb { s with pids := s.pids.filter (· ≠ n) } n)
    | .edits n flag => some (setContainer s n { s.containers n with hostFlag := flag })
    | .opens c =>
      match s.cleaners c with
      | some _ => none
      | none => some (setCleaner s c (some {
          todo := s.pids
          asking := none
          steady := s.pids.filter fun n => (s.containers n).live
          misread := [] }))
    | .loads c =>
      match s.cleaners c with
      | some ⟨n :: todo, none, steady, misread⟩ =>
        let a := s.containers n
        some (setCleaner s c (some {
          todo := todo
          asking := some (n, loadedFlag a)
          steady := steady
          misread := if a.held && !loadedFlag a then n :: misread else misread }))
      | _ => none
    | .asks c =>
      match s.cleaners c with
      | some ⟨todo, some (n, flag), steady, misread⟩ =>
        if flag && (s.containers n).live then some (setCleaner s c none)
        else some (setCleaner s c (some ⟨todo, none, steady, misread⟩))
      | _ => none
    | .releases c =>
      match s.cleaners c with
      | some ⟨[], none, _, _⟩ => some { setCleaner s c none with service := false }
      | _ => none
    | .leaves c =>
      match s.cleaners c with
      | some ⟨[], none, _, _⟩ => some (setCleaner s c none)
      | _ => none

/-! ## What is promised, and when it holds -/

/-- No start, reboot or cleanup is in progress. -/
structure Quiet (s : State N) : Prop where
  starts : ∀ n, (s.containers n).active = true →
    (s.containers n).live = true ∧ (s.containers n).recorded = true
  cleaners : ∀ c, s.cleaners c = none

/-- A running container that was booted with the feature has the service: a server that it found
or launched has not been ended, and SELinux is in permissive mode. -/
def Served (v : Service) (s : State N) : Prop :=
  Quiet s → ∀ n, (s.containers n).live = true → (s.containers n).booted = true →
    (v = .server → (s.containers n).held = true) → s.service = true

/-- The condition: whoever holds a service that is ended has been running and recorded since the
cleanup opened `Pids/`, and its configuration was not misread; and no reboot adds the mode of
SELinux, which it does not set. -/
def Careful (v : Service) (s : State N) : Event N → Prop
  | .releases c => ∀ k, s.cleaners c = some k → ∀ n, (s.containers n).held = true →
      n ∈ k.steady ∧ n ∉ k.misread
  | .boots n => v = .permissive → (s.containers n).booted = true → (s.containers n).held = true
  | _ => True

/-! ## What a cleanup has seen -/

/-- Whoever was there all the time is still to be asked, or was misread. -/
structure Scan (s : State N) (k : Cleaner N) : Prop where
  live : ∀ n ∈ k.steady, (s.containers n).live = true
  seen : ∀ n ∈ k.steady, (s.containers n).held = true →
    n ∈ k.todo ∨ k.asking = some (n, true) ∨ n ∈ k.misread

/-- What is so of a container in every state. -/
structure Sound (v : Service) (service : Bool) (a : Container) : Prop where
  active : a.live = true → a.active = true
  service : a.held = true → service = true
  held : v = .permissive → a.live = true → a.booted = true → a.held = true

structure Inv (v : Service) (s : State N) : Prop where
  sound : ∀ n, Sound v s.service (s.containers n)
  scans : ∀ c k, s.cleaners c = some k → Scan s k

variable {v : Service} {s t : State N} {n : N} {a : Container} {c : ℕ} {k : Cleaner N}

omit [DecidableEq N] in
/-- A scan goes by the containers that were there all the time, and by nothing else. -/
theorem Scan.congr (h : Scan s k)
    (hlive : ∀ n ∈ k.steady, (s.containers n).live = true → (t.containers n).live = true)
    (hheld : ∀ n ∈ k.steady, (t.containers n).held = true → (s.containers n).held = true) :
    Scan t k :=
  ⟨fun n hn => hlive n hn (h.live n hn), fun n hn ht => h.seen n hn (hheld n hn ht)⟩

theorem containers_setContainer (m : N) :
    (setContainer s n a).containers m = if m = n then a else s.containers m := by
  by_cases hm : m = n
  · subst hm
    simp [setContainer]
  · simp [setContainer, hm]

/-- A change of a container that is not in anybody's scan, or of what no scan looks at. -/
theorem Inv.setContainer (hs : Inv v s) (hsound : Sound v s.service a)
    (hscans : (s.containers n).live = true → a.live = true ∧
      (a.held = true → (s.containers n).held = true)) :
    Inv v (setContainer s n a) := by
  refine ⟨fun m => ?_, fun c k hk => (hs.scans c k hk).congr ?_ ?_⟩
  · rw [containers_setContainer]
    split
    · exact hsound
    · exact hs.sound m
  · intro m hm hlive
    rw [containers_setContainer]
    split
    · next heq => exact (hscans (heq ▸ hlive)).1
    · exact hlive
  · intro m hm hheld
    have hlive := (hs.scans c k hk).live m hm
    rw [containers_setContainer] at hheld
    split at hheld
    · next heq =>
      subst heq
      exact (hscans hlive).2 hheld
    · exact hheld

/-- After `disturb` no scan relies on the container. -/
theorem Inv.disturb (hsound : ∀ m, Sound v s.service (s.containers m))
    (hscans : ∀ c k, s.cleaners c = some k →
      Scan s { k with steady := k.steady.filter (· ≠ n) }) : Inv v (disturb s n) := by
  refine ⟨hsound, fun c k' hk' => ?_⟩
  obtain ⟨k, hk, rfl⟩ := Option.map_eq_some_iff.1 hk'
  exact (hscans c k hk).congr (fun _ _ h => h) fun _ _ h => h

/-- A container ends, or goes down for a reboot. -/
theorem Inv.down (hs : Inv v s) (hsound : Sound v s.service a) :
    Inv v (SharedService.disturb (SharedService.setContainer s n a) n) := by
  refine Inv.disturb (fun m => ?_) fun c k hk => ?_
  · rw [containers_setContainer]
    split
    · exact hsound
    · exact hs.sound m
  · have hscan := hs.scans c k hk
    have hother : ∀ m ∈ k.steady.filter (· ≠ n),
        m ∈ k.steady ∧ (SharedService.setContainer s n a).containers m = s.containers m := by
      intro m hm
      obtain ⟨hm, hmn⟩ := List.mem_filter.1 hm
      rw [containers_setContainer, if_neg (by simpa using hmn)]
      exact ⟨hm, rfl⟩
    constructor
    · intro m hm
      rw [(hother m hm).2]
      exact hscan.live m (hother m hm).1
    · intro m hm hheld'
      rw [(hother m hm).2] at hheld'
      exact hscan.seen m (hother m hm).1 hheld'

omit [DecidableEq N] in
theorem Inv.setCleaner {k : Option (Cleaner N)} (hs : Inv v s)
    (hscan : ∀ l, k = some l → Scan s l) : Inv v (setCleaner s c k) := by
  refine ⟨hs.sound, fun d k hk => ?_⟩
  have hold : Scan s k := by
    by_cases hd : d = c
    · subst hd
      exact hscan k (by simpa [SharedService.setCleaner] using hk)
    · exact hs.scans d k (by simpa [SharedService.setCleaner, hd] using hk)
  exact hold.congr (fun _ _ h => h) fun _ _ h => h

theorem inv_step (s : State N) (e : Event N) (t : State N) (hs : Inv v s) (hcare : Careful v s e)
    (h : (system v).step s e = some t) : Inv v t := by
  cases e with
  | begins n flag =>
    simp only [system] at h
    split at h
    · cases h
    · next hactive =>
      obtain rfl := Option.some.inj h
      refine hs.setContainer ⟨fun hno => ?_, fun hno => ?_, fun _ hno => ?_⟩ fun hlive => ?_
      · cases hno
      · cases hno
      · cases hno
      · exact absurd ((hs.sound n).active hlive) hactive
  | finds n =>
    simp only [system] at h
    split at h
    · next hcan =>
      simp only [asksFor, Bool.and_eq_true, Bool.not_eq_true'] at hcan
      obtain rfl := Option.some.inj h
      refine hs.setContainer ⟨(hs.sound n).active, fun _ => hcan.2, fun _ _ _ => rfl⟩
        fun hlive => ?_
      rw [hcan.1.1.2] at hlive
      cases hlive
    · cases h
  | launches n =>
    simp only [system] at h
    split at h
    · next hcan =>
      simp only [asksFor, Bool.and_eq_true, Bool.not_eq_true'] at hcan
      obtain rfl := Option.some.inj h
      have hon : Inv v { s with service := true } :=
        ⟨fun n => ⟨(hs.sound n).active, fun _ => rfl, (hs.sound n).held⟩, fun c k hk =>
          (hs.scans c k hk).congr (fun _ _ h => h) fun _ _ h => h⟩
      refine hon.setContainer ⟨(hs.sound n).active, fun _ => rfl, fun _ _ _ => rfl⟩
        fun hlive => ?_
      have hlive' : (s.containers n).live = true := hlive
      rw [hcan.1.2] at hlive'
      cases hlive'
    · cases h
  | boots n =>
    simp only [system] at h
    split at h
    · next hcan =>
      simp only [Bool.and_eq_true] at hcan
      obtain rfl := Option.some.inj h
      exact hs.setContainer ⟨fun _ => hcan.1, (hs.sound n).service, fun hv _ => hcare hv⟩
        fun _ => ⟨rfl, fun h => h⟩
    · cases h
  | records n =>
    simp only [system] at h
    split at h
    · obtain rfl := Option.some.inj h
      have hsound := hs.sound n
      have hset := hs.setContainer (n := n) (a := { s.containers n with recorded := true })
        ⟨hsound.active, hsound.service, hsound.held⟩ fun hlive => ⟨hlive, fun h => h⟩
      exact ⟨hset.sound, fun c k hk =>
        (hset.scans c k hk).congr (fun _ _ h => h) fun _ _ h => h⟩
    · cases h
  | ends n =>
    obtain rfl := Option.some.inj h
    refine hs.down ⟨fun hno => ?_, fun hno => ?_, fun _ hno => ?_⟩
    · cases hno
    · cases hno
    · cases hno
  | reboots n flag =>
    simp only [system] at h
    split at h
    · obtain rfl := Option.some.inj h
      refine hs.down ⟨fun hno => ?_, fun hheld => ?_, fun _ hno => ?_⟩
      · cases hno
      · simp only [Bool.and_eq_true] at hheld
        exact (hs.sound n).service hheld.1.2
      · cases hno
    · cases h
  | unlinks n =>
    obtain rfl := Option.some.inj h
    refine Inv.disturb hs.sound fun c k hk => ?_
    have hscan := hs.scans c k hk
    exact ⟨fun m hm => hscan.live m (List.mem_filter.1 hm).1,
      fun m hm hheld => hscan.seen m (List.mem_filter.1 hm).1 hheld⟩
  | edits n flag =>
    obtain rfl := Option.some.inj h
    have hsound := hs.sound n
    exact hs.setContainer ⟨hsound.active, hsound.service, hsound.held⟩
      fun hlive => ⟨hlive, fun h => h⟩
  | opens c =>
    simp only [system] at h
    split at h
    · cases h
    · obtain rfl := Option.some.inj h
      refine hs.setCleaner fun k hk => ?_
      obtain rfl := Option.some.inj hk
      constructor
      · exact fun m hm => by simpa using (List.mem_filter.1 hm).2
      · exact fun m hm _ => Or.inl (List.mem_filter.1 hm).1
  | loads c =>
    simp only [system] at h
    split at h
    · next n todo steady misread hk =>
      obtain rfl := Option.some.inj h
      have hscan := hs.scans c _ hk
      refine hs.setCleaner fun k hk => ?_
      obtain rfl := Option.some.inj hk
      refine ⟨hscan.live, fun m hm hheld => ?_⟩
      -- The one whose configuration is loaded is asked for now, or misread.
      rcases hscan.seen m hm hheld with htodo | hasking | hmisread
      · rcases List.mem_cons.1 htodo with rfl | htodo
        · cases hflag : loadedFlag (s.containers m) with
          | true => exact Or.inr (Or.inl rfl)
          | false =>
            right; right
            simp [hheld]
        · exact Or.inl htodo
      · cases hasking
      · right; right
        show m ∈ if _ then n :: misread else misread
        split
        · exact List.mem_cons_of_mem _ hmisread
        · exact hmisread
    · cases h
  | asks c =>
    simp only [system] at h
    split at h
    · next todo n flag steady misread hk =>
      have hscan := hs.scans c _ hk
      split at h
      · obtain rfl := Option.some.inj h
        exact hs.setCleaner fun k hk => by cases hk
      · next hno =>
        obtain rfl := Option.some.inj h
        refine hs.setCleaner fun k hk => ?_
        obtain rfl := Option.some.inj hk
        refine ⟨hscan.live, fun m hm hheld => ?_⟩
        rcases hscan.seen m hm hheld with htodo | hasking | hmisread
        · exact Or.inl htodo
        · exfalso
          obtain ⟨rfl, rfl⟩ := Prod.mk.inj (Option.some.inj hasking)
          exact hno (by simpa using hscan.live n hm)
        · exact Or.inr (Or.inr hmisread)
    · cases h
  | releases c =>
    simp only [system] at h
    split at h
    · next steady misread hk =>
      obtain rfl := Option.some.inj h
      have hscan := hs.scans c _ hk
      have hnobody : ∀ n, (s.containers n).held ≠ true := by
        intro n hheld
        obtain ⟨hsteady, hread⟩ := hcare _ hk n hheld
        rcases hscan.seen n hsteady hheld with htodo | hasking | hmisread
        · cases htodo
        · cases hasking
        · exact hread hmisread
      have hset := hs.setCleaner (c := c) (k := none) fun k hk => by cases hk
      refine ⟨fun n => ⟨(hs.sound n).active, fun hheld => absurd hheld (hnobody n),
        (hs.sound n).held⟩, fun d k hk => ?_⟩
      exact (hset.scans d k hk).congr (fun _ _ h => h) fun _ _ h => h
    · cases h
  | leaves c =>
    simp only [system] at h
    split at h
    · obtain rfl := Option.some.inj h
      exact hs.setCleaner fun k hk => by cases hk
    · cases h

/-! ## Whole runs -/

/-- No container has been started yet, and no cleanup is at work. -/
structure Initial (s : State N) : Prop where
  containers : ∀ n, (s.containers n).live = false ∧ (s.containers n).held = false
  cleaners : ∀ c, s.cleaners c = none

/-- **After every careful run the running containers have the service that they were booted
with.** -/
theorem served (v : Service) (s : State N) (hs : Initial s) (es : List (Event N)) (t : State N)
    (hcare : (system v).Guarded (Careful v) s es) (hrun : (system v).run s es = some t) :
    Served v t := by
  have hinv : Inv v t := by
    refine (system v).invariant_of_guarded inv_step ?_ hcare hrun
    refine ⟨fun n => ⟨fun hlive => ?_, fun hheld => ?_, fun _ hlive => ?_⟩, fun c k hk => ?_⟩
    · rw [(hs.containers n).1] at hlive
      cases hlive
    · rw [(hs.containers n).2] at hheld
      cases hheld
    · rw [(hs.containers n).1] at hlive
      cases hlive
    · rw [hs.cleaners c] at hk
      cases hk
  intro _ n hlive hbooted hheld
  cases v with
  | server => exact (hinv.sound n).service (hheld rfl)
  | permissive => exact (hinv.sound n).service ((hinv.sound n).held rfl hlive hbooted)

end Steps

/-! ## A name with a blank -/

/-- Two containers with the feature; `plain` is about the first. -/
def two (plain : Bool) : State Bool where
  service := false
  containers first := ⟨plain || !first, true, false, false, false, false, false, false⟩
  pids := []
  cleaners _ := none

theorem two_initial (plain : Bool) : Initial (two plain) :=
  ⟨fun _ => ⟨rfl, rfl⟩, fun _ => rfl⟩

/-- The first one starts and has the feature edited out of its `container.config`; then the cleanup
of another one asks who needs the service. -/
def edited : List (Event Bool) :=
  [.begins true true, .launches true, .boots true, .records true, .edits true false,
    .opens 0, .loads 0, .asks 0]

/-- Found by its name, it keeps the service. -/
theorem edited_served : ∃ t, (system .server).run (two true) edited = some t ∧
    Served .server t := by
  have hcare : (system .server).Guarded (Careful .server) (two true) edited := by
    refine System.guarded_of_forall_mem _ (fun e he s => ?_) _
    simp only [edited, List.mem_cons, List.not_mem_nil, or_false] at he
    rcases he with rfl | rfl | rfl | rfl | rfl | rfl | rfl | rfl
    case inr.inr.inl => exact fun hv => by cases hv
    all_goals trivial
  exact ⟨_, rfl, served .server (two true) (two_initial true) edited _ hcare rfl⟩

/-- The first one is not found by the name of its pidfile. -/
theorem edited_not_served : Initial (two false) ∧ ∃ t,
    (system .server).run (two false) (edited ++ [.releases 0]) = some t ∧ ¬ Served .server t := by
  refine ⟨two_initial false, _, rfl, fun h => ?_⟩
  have hservice := h ⟨?_, ?_⟩ true rfl rfl fun _ => rfl
  · cases hservice
  · intro n hactive
    cases n with
    | false => cases hactive
    | true => exact ⟨rfl, rfl⟩
  · intro c
    cases c with
    | zero => rfl
    | succ c => rfl

end Droidspaces.SharedService
