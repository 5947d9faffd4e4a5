import Droidspaces.Config.Identity

/-!
# The spellings of a name

A running container is found by the name that it was booted with, and the files that are kept of it
have its name with dashes for blanks.  A scan knows only the latter, so that it takes the
configuration of a container with blanks in its name from the host, where it may have been edited.

`same_config_iff` says when both spellings get the snapshot of the boot.
-/

namespace Droidspaces.Config

open CustomBinds

/-! ## The code -/

/-- What `/proc` shows of a process. -/
structure Proc where
  /-- `/run/droidspaces` is there. -/
  marked : Bool
  /-- `is_container_init` -/
  isInit : Bool
  /-- `/run/droidspaces/name` -/
  name : Option Text
  /-- `/run/droidspaces/container.config` -/
  config : Option Text

/-- The host, with its processes in the order of `/proc`. -/
structure ProcHost where
  procs : List Proc
  files : Files

/-- `is_valid_container_pid` -/
def Proc.isValid (p : Proc) : Bool := p.marked && p.isInit

def Proc.storedName (p : Proc) : Option Text := p.name.map fun t => firstLine (readFile 256 t)

def findContainerByName (procs : List Proc) (name : Text) : Option Proc :=
  if name.isEmpty then none
  else procs.find? fun p => p.marked && p.storedName == some name && p.isValid

/-- A file that is not there is no error. -/
def loadFile (sys : System) (file : Option Text) (cfg : DsConfig) : DsConfig :=
  match file with
  | some text => dsConfigLoad sys text cfg
  | none => cfg

def hostConfigOf (android : Bool) (name : Text) : Text :=
  containerDirOf android name ++ "/container.config".toList

section Load

variable (sys : System) (android : Bool) (host : ProcHost)

def dsConfigLoadByName (name : Text) (cfg : DsConfig) : Option DsConfig :=
  if validateContainerName name then
    match (findContainerByName host.procs name).bind Proc.config with
    | some snapshot => some (dsConfigLoad sys snapshot cfg)
    | none => some (loadFile sys (host.files (hostConfigOf android name)) cfg)
  else none

/-- `get_container_name_from_pidfile` -/
def nameOfPidfile (entry : Text) : Text :=
  let name := entry.take 255
  if name.contains '.' then (name.rdropWhile (· != '.')).dropLast else name

def isPidFile (entry : Text) : Bool := ".pid".toList.isSuffixOf entry

/-- A container that `ds_feature_needs` comes upon has the feature, and is running. -/
def hasFeature (running : DsConfig → Bool) (f : Flag) (entry : Text) : Bool :=
  match dsConfigLoadByName sys android host (nameOfPidfile entry) zeroed with
  | some cfg => cfg.value (.flag f) && running cfg
  | none => false

def isInstalledWith (f : Flag) (entry : Text) : Bool :=
  match dsConfigLoadByName sys android host entry zeroed with
  | some cfg => cfg.value (.flag f)
  | none => false

/-- `ds_feature_needs`, with what `is_container_running` says and what the directories list. -/
def dsFeatureNeeds (running : DsConfig → Bool) (pids containers : Option (List Text))
    (f : Flag) : ℤ :=
  match pids with
  | none => -1
  | some entries =>
    if (entries.filter isPidFile).any (hasFeature sys android host running f) then 1
    else
      match containers with
      | none => -1
      | some dirs =>
        if (dirs.filter fun d => d.head? != some '.').any (isInstalledWith sys android host f)
        then 0 else -1

/-- A container that was booted under a name, as the only one with that pidfile. -/
structure Runs (name snapshot : Text) : Prop where
  valid : validateContainerName name = true
  listed : ⟨true, true, some name, some snapshot⟩ ∈ host.procs
  alone : ∀ p ∈ host.procs, p.isValid = true → ∀ other, p.storedName = some other →
    sanitize other = sanitize name → p = ⟨true, true, some name, some snapshot⟩

end Load

/-! ## Finding a container -/

theorem find?_eq_some_of_unique {α : Type} {p : α → Bool} {l : List α} {a : α} (ha : a ∈ l)
    (hp : p a = true) (hunique : ∀ b ∈ l, p b = true → b = a) : l.find? p = some a := by
  cases hfind : l.find? p with
  | none => exact absurd hp (List.find?_eq_none.1 hfind a ha)
  | some b =>
    rw [hunique b (List.mem_of_find?_eq_some hfind) (List.find?_some hfind)]

theorem ne_nil_of_valid {name : Text} (h : validateContainerName name = true) :
    name.isEmpty = false := by
  cases name with
  | nil => cases h
  | cons c t => rfl

section Running

variable {sys : System} {android : Bool} {host : ProcHost} {name snapshot : Text}
  (h : Runs host name snapshot)
include h

theorem storedName_of_runs :
    Proc.storedName ⟨true, true, some name, some snapshot⟩ = some name := by
  simp [Proc.storedName, read_name h.valid]

/-- The name that it was booted with is that of the marker. -/
theorem findContainerByName_self :
    findContainerByName host.procs name = some ⟨true, true, some name, some snapshot⟩ := by
  rw [findContainerByName, ne_nil_of_valid h.valid, if_neg (by decide)]
  refine find?_eq_some_of_unique h.listed ?_ ?_
  · rw [storedName_of_runs h]
    simp [Proc.isValid]
  · intro p hp hfound
    simp only [Bool.and_eq_true, beq_iff_eq] at hfound
    exact h.alone p hp hfound.2 name hfound.1.2 rfl

/-- Another spelling is nobody's. -/
theorem findContainerByName_sanitize (hne : sanitize name ≠ name) :
    findContainerByName host.procs (sanitize name) = none := by
  have hvalid := validateContainerName_sanitize h.valid
  rw [findContainerByName, ne_nil_of_valid hvalid, if_neg (by decide), List.find?_eq_none]
  intro p hp hfound
  simp only [Bool.and_eq_true, beq_iff_eq] at hfound
  have hp' := h.alone p hp hfound.2 _ hfound.1.2 (sanitize_sanitize h.valid)
  rw [hp', storedName_of_runs h] at hfound
  exact hne (Option.some.inj hfound.1.2).symm

end Running

theorem blank_mem_iff {name : Text} (h : validateContainerName name = true) :
    ' ' ∈ name ↔ sanitize name ≠ name := by
  rw [sanitize_eq_dashed h]
  constructor
  · intro hmem heq
    rw [← heq] at hmem
    obtain ⟨c, -, hc⟩ := List.mem_map.1 hmem
    split at hc
    · cases hc
    · next hne => exact hne hc
  · intro hne
    by_contra hnone
    have hkept : ∀ c ∈ name, (if c = ' ' then '-' else c) = id c := fun c hc =>
      if_neg fun (heq : c = ' ') => hnone (heq ▸ hc)
    refine hne ?_
    rw [dashed, List.map_congr_left hkept, List.map_id]

/-! ## Both spellings -/

section Same

variable (sys : System) (android : Bool) (host : ProcHost)

/-- The name of the boot and that of the scans both load the snapshot. -/
structure SameConfig (name snapshot : Text) (cfg : DsConfig) : Prop where
  own : dsConfigLoadByName sys android host name cfg = some (dsConfigLoad sys snapshot cfg)
  scanned : dsConfigLoadByName sys android host (sanitize name) cfg =
    some (dsConfigLoad sys snapshot cfg)

end Same

section Running

variable {sys : System} {android : Bool} {host : ProcHost} {name snapshot : Text}
  (h : Runs host name snapshot)
include h

theorem dsConfigLoadByName_self (cfg : DsConfig) :
    dsConfigLoadByName sys android host name cfg = some (dsConfigLoad sys snapshot cfg) := by
  rw [dsConfigLoadByName, if_pos h.valid, findContainerByName_self h]
  rfl

theorem hostConfigOf_sanitize : hostConfigOf android (sanitize name) = hostConfigOf android name := by
  rw [hostConfigOf, hostConfigOf, containerDirOf, containerDirOf, sanitize_sanitize h.valid]

/-- A scan that does not find the container loads the file of the host. -/
theorem dsConfigLoadByName_sanitize (hne : sanitize name ≠ name) (cfg : DsConfig) :
    dsConfigLoadByName sys android host (sanitize name) cfg =
      some (loadFile sys (host.files (hostConfigOf android name)) cfg) := by
  rw [dsConfigLoadByName, if_pos (validateContainerName_sanitize h.valid),
    findContainerByName_sanitize h hne, hostConfigOf_sanitize h]
  rfl

/-- **Both spellings load the snapshot exactly if there is no blank in the name, or nothing has
changed on the host.** -/
theorem same_config_iff (cfg : DsConfig) :
    SameConfig sys android host name snapshot cfg ↔
      ' ' ∉ name ∨ loadFile sys (host.files (hostConfigOf android name)) cfg =
        dsConfigLoad sys snapshot cfg := by
  have hown : dsConfigLoadByName sys android host name cfg = some (dsConfigLoad sys snapshot cfg) :=
    dsConfigLoadByName_self h cfg
  rw [blank_mem_iff h.valid]
  by_cases heq : sanitize name = name
  · have hscan : SameConfig sys android host name snapshot cfg := ⟨hown, by rw [heq, hown]⟩
    exact iff_of_true hscan (Or.inl fun hne => hne heq)
  · have hscan : dsConfigLoadByName sys android host (sanitize name) cfg =
        some (loadFile sys (host.files (hostConfigOf android name)) cfg) :=
      dsConfigLoadByName_sanitize h heq cfg
    constructor
    · intro hsame
      exact Or.inr (Option.some.inj (hscan.symm.trans hsame.scanned))
    · rintro (hnot | hfile)
      · exact absurd heq hnot
      · exact ⟨hown, by rw [hscan, hfile]⟩

end Running

/-! ## A feature in use -/

theorem nameOfPidfile_append {name : Text} (hlen : (name ++ ".pid".toList).length ≤ 255) :
    nameOfPidfile (name ++ ".pid".toList) = name := by
  have hext : ".pid".toList = ['.', 'p', 'i', 'd'] := by decide
  have hdot : (name ++ ".pid".toList).contains '.' = true := by simp [hext]
  have hcut : (name ++ ".pid".toList).rdropWhile (· != '.') = name ++ ['.'] := by
    rw [hext, List.rdropWhile, List.reverse_append]
    simp
  unfold nameOfPidfile
  dsimp only
  rw [List.take_of_length_le hlen, if_pos hdot, hcut, List.dropLast_concat]

section Feature

variable {sys : System} {android : Bool} {host : ProcHost} {name snapshot : Text}

/-- The feature of a running container is seen if its snapshot is. -/
theorem dsFeatureNeeds_of_sameConfig {running : DsConfig → Bool} {entries : List Text}
    {containers : Option (List Text)} {f : Flag}
    (hsame : SameConfig sys android host name snapshot zeroed)
    (hlisted : sanitize name ++ ".pid".toList ∈ entries)
    (hlen : (sanitize name ++ ".pid".toList).length ≤ 255)
    (hflag : (dsConfigLoad sys snapshot zeroed).value (.flag f) = true)
    (hrunning : running (dsConfigLoad sys snapshot zeroed) = true) :
    dsFeatureNeeds sys android host running (some entries) containers f = 1 := by
  have hpid : isPidFile (sanitize name ++ ".pid".toList) = true :=
    List.isSuffixOf_iff_suffix.2 (List.suffix_append _ _)
  have hseen : hasFeature sys android host running f (sanitize name ++ ".pid".toList) = true := by
    rw [hasFeature, nameOfPidfile_append hlen, hsame.scanned]
    exact Bool.and_eq_true_iff.2 ⟨hflag, hrunning⟩
  exact if_pos (List.any_eq_true.2 ⟨_, List.mem_filter.2 ⟨hlisted, hpid⟩, hseen⟩)

end Feature

/-- One container runs, and its file on the host says this. -/
def oneRunning (name snapshot edited : Text) : ProcHost where
  procs := [⟨true, true, some name, some snapshot⟩]
  files path := if path = hostConfigOf true name then some edited else none

theorem runs_oneRunning {name : Text} (hvalid : validateContainerName name = true)
    (snapshot edited : Text) : Runs (oneRunning name snapshot edited) name snapshot where
  valid := hvalid
  listed := List.mem_singleton.2 rfl
  alone _ hp _ _ _ _ := List.mem_singleton.1 hp

theorem same_config_desktop : SameConfig plainSystem true
    (oneRunning "desktop".toList "enable_wayland=1".toList "enable_wayland=0".toList)
    "desktop".toList "enable_wayland=1".toList zeroed :=
  (same_config_iff (runs_oneRunning (by decide) _ _) zeroed).2 (Or.inl (by decide))

/-- Wayland is in use, and a scan does not see it. -/
theorem not_same_config_blank :
    let host := oneRunning "my desktop".toList "enable_wayland=1".toList "enable_wayland=0".toList
    Runs host "my desktop".toList "enable_wayland=1".toList ∧
      ¬ SameConfig plainSystem true host "my desktop".toList "enable_wayland=1".toList zeroed ∧
      (dsConfigLoad plainSystem "enable_wayland=1".toList zeroed).value (.flag .wayland) = true ∧
      dsFeatureNeeds plainSystem true host (fun _ => true) (some ["my-desktop.pid".toList])
        (some ["my-desktop".toList]) .wayland = -1 := by
  intro host
  refine ⟨runs_oneRunning (by decide) _ _, fun h => ?_, by decide +kernel, by decide +kernel⟩
  have hflag := congrArg (fun o => o.map fun c => c.value (.flag .wayland)) h.scanned
  exact absurd hflag (by decide +kernel)

end Droidspaces.Config
