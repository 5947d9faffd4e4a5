import Droidspaces.Memory.Doubling
import Droidspaces.Socketd.PidFiles

/-!
# The list of containers

`LIST_CONTAINERS` answers with the containers that have a pidfile and run, and then, if all are
asked for, with the directories of those that do not run.  A container that runs without a pidfile is
in neither, and a directory with a dot in front is passed over; the array grows by doubling, so that
a list that would fit can be too long for it.

`isComplete_iff` says when the list is complete.
-/

namespace Droidspaces.Socketd

open Config Memory

/-! ## Records -/

/-- `struct ds_socketd_port_record` -/
structure PortRecord where
  hostPort : ℕ
  hostPortEnd : ℕ
  containerPort : ℕ
  containerPortEnd : ℕ
  udp : Bool

/-- `struct ds_socketd_container_record` -/
structure ContainerRecord where
  name : Text
  uuid : Text
  rootfsPath : Text
  hostname : Text
  natIp : Text
  customInit : Text
  pid : ℤ
  netMode : NetMode
  ports : List PortRecord
  startedAt : ℤ

def packPortRecord (pf : PortForward) : PortRecord :=
  ⟨pf.hostPort, pf.hostPortEnd, pf.containerPort, pf.containerPortEnd, pf.proto == "udp".toList⟩

/-- `socketd_pack_container_record`.  A configuration that is loaded has no `nat_container_ip`. -/
def packContainerRecord (startedAt : ℤ → ℤ) (cfg : DsConfig) (pid : ℤ) : ContainerRecord where
  name := (nameOf cfg).take 255
  uuid := (uuidOf cfg).take 32
  rootfsPath :=
    let rootfs := cfg.value .rootfs
    (if rootfs.img ≠ [] then rootfs.img else rootfs.path).take 1023
  hostname := (cfg.value (.text .hostname)).take 255
  natIp := if cfg.value .netMode = .nat then (cfg.value (.text .staticNatIp)).take 15 else []
  customInit := (cfg.value (.text .customInit)).take 1023
  pid := if 0 < pid then pid else 0
  netMode := cfg.value .netMode
  ports := ((cfg.value .portForwards).take 16).map packPortRecord
  startedAt := if 0 < pid then startedAt pid else 0

/-- `sizeof(struct ds_socketd_container_record)`, which is packed. -/
def containerRecordSize : ℕ := 256 + 33 + 1024 + 256 + 16 + 1024 + 4 + 1 + 1 + 2 + 16 * 12 + 8

/-- `DS_SOCKETD_MAX_PAYLOAD` -/
def maxPayload : ℕ := 1024 * 1024

def maxRecords : ℕ := maxPayload / containerRecordSize

/-! ## The code -/

/-- The containers, the processes, and what `readdir` finds in `Pids`. -/
structure Inventory (sys : System) (android : Bool) where
  workspace : Workspace sys android
  table : ProcTable
  shown : table.procs.map ContainerProc.shown = workspace.host.procs
  entries : List Text
  files : PidFiles
  pids : PidsDir entries files
  /-- `socketd_container_started_at_epoch` -/
  startedAt : ℤ → ℤ

/-- `socketd_grow_array`; what it returns is the capacity then. -/
def socketdGrowArray (count capacity : ℕ) : Option ℕ :=
  if count < capacity then some capacity
  else
    let newCapacity := if capacity = 0 then 16 else capacity * 2
    if maxRecords < newCapacity then none else some newCapacity

/-- What a request has at hand: the pidfiles, the records, and the capacity for records. -/
structure Listing where
  files : PidFiles
  records : List ContainerRecord
  capacity : ℕ

def appendRecord (s : Listing) (record : ContainerRecord) : Option Listing :=
  (socketdGrowArray s.records.length s.capacity).map fun capacity =>
    { s with records := s.records ++ [record], capacity }

/-- The loop over a directory, with what is done about an entry. -/
def pass (look : PidFiles → Text → PidFiles × Option ContainerRecord) :
    List Text → Listing → Option Listing
  | [], s => some s
  | entry :: entries, s =>
    match look s.files entry with
    | (files, none) => pass look entries { s with files }
    | (files, some record) =>
      match appendRecord { s with files } record with
      | none => none
      | some s => pass look entries s

/-- `socketd_pidfile_to_container_name` -/
def pidfileToContainerName (entry : Text) : Option Text :=
  if entry.length ≤ 4 ∨ isPidFile entry = false then none
  else
    let name := entry.take (entry.length - 4)
    if 256 ≤ name.length then none
    else if validateContainerName name then some name
    else none

section Code

variable {sys : System} {android : Bool} (inv : Inventory sys android)

def Inventory.config (name : Text) : Option DsConfig :=
  configOf sys android inv.workspace.host name

/-- An entry of `Pids`. -/
def Inventory.lookRunning (files : PidFiles) (entry : Text) : PidFiles × Option ContainerRecord :=
  match pidfileToContainerName entry with
  | none => (files, none)
  | some name =>
    match inv.config name with
    | none => (files, none)
    | some cfg =>
      let (running, pid, files) := isContainerRunning inv.table files (nameOf cfg) (uuidOf cfg)
      if running = false ∨ pid ≤ 0 then (files, none)
      else (files, some (packContainerRecord inv.startedAt cfg pid))

/-- An entry of `Containers`. -/
def Inventory.lookStopped (files : PidFiles) (entry : Text) : PidFiles × Option ContainerRecord :=
  if entry.head? = some '.' ∨ validateContainerName entry = false then (files, none)
  else
    match inv.config entry with
    | none => (files, none)
    | some cfg =>
      let (running, pid, files) := isContainerRunning inv.table files (nameOf cfg) (uuidOf cfg)
      if running ∧ 0 < pid then (files, none)
      else (files, some (packContainerRecord inv.startedAt cfg 0))

/-- The answer to `LIST_CONTAINERS`, unless that is an error. -/
def Inventory.listContainers (includeAll : Bool) : Option (List ContainerRecord) :=
  let (files, runningHint) := countRunningContainers inv.table inv.entries inv.files
  let capacity := if 16 < runningHint then runningHint else 16
  if maxRecords < capacity then none
  else
    match pass inv.lookRunning (inv.entries.filter fun e => (files e).isSome)
        ⟨files, [], capacity⟩ with
    | none => none
    | some s =>
      if includeAll then (pass inv.lookStopped inv.workspace.dirs s).map Listing.records
      else some s.records

end Code

/-! ## What is promised, and when it holds -/

section Promise

variable {sys : System} {android : Bool} (inv : Inventory sys android)

/-- The directories of the containers that are installed. -/
def Inventory.containers : List Text := inv.workspace.dirs.filter fun dir => (inv.config dir).isSome

def Inventory.cfgOf (dir : Text) : DsConfig := (inv.config dir).getD zeroed

/-- The process of a container that runs. -/
def Inventory.pidOf (dir : Text) : Option ℤ :=
  runningPid inv.table inv.files (nameOf (inv.cfgOf dir)) (uuidOf (inv.cfgOf dir))

def Inventory.recordOf (dir : Text) : ContainerRecord :=
  packContainerRecord inv.startedAt (inv.cfgOf dir) ((inv.pidOf dir).getD 0)

/-- The containers that are asked for. -/
def Inventory.wanted (includeAll : Bool) : List Text :=
  inv.containers.filter fun dir => includeAll || (inv.pidOf dir).isSome

/-- One record for each of the containers, or an error if these are too many. -/
def IsComplete (includeAll : Bool) : Prop :=
  if (inv.wanted includeAll).length * containerRecordSize ≤ maxPayload then
    ∃ records, inv.listContainers includeAll = some records ∧
      records.Perm ((inv.wanted includeAll).map inv.recordOf)
  else inv.listContainers includeAll = none

/-- The pidfile of a container names a process, be it the container's or not. -/
def Inventory.hasPidfile (dir : Text) : Bool :=
  (readAndValidatePid inv.table (inv.files (dir ++ ".pid".toList))).2 ≠ 0

/-- A container that runs has a pidfile that names a process; another one is asked for, and its
directory has no dot in front. -/
def Inventory.isFound (includeAll : Bool) (dir : Text) : Bool :=
  if (inv.pidOf dir).isSome then inv.hasPidfile dir else includeAll && dir.head? ≠ some '.'

/-- The array begins with room for 16, or for as many as there are pidfiles of containers that
run. -/
def Inventory.firstCapacity : ℕ := max 16 (inv.entries.countP (isCounted inv.table inv.files))

/-- It gets long enough for as many. -/
def Inventory.HasRoomFor (n : ℕ) : Prop := HasRoom maxRecords inv.firstCapacity n

def IsListable (includeAll : Bool) : Prop :=
  if (inv.wanted includeAll).length * containerRecordSize ≤ maxPayload then
    (∀ dir ∈ inv.wanted includeAll, inv.isFound includeAll dir = true) ∧
      inv.HasRoomFor (inv.wanted includeAll).length
  else ¬ inv.HasRoomFor (inv.containers.filter (inv.isFound includeAll)).length

end Promise

/-! ## The passes -/

section Passes

variable {look : PidFiles → Text → PidFiles × Option ContainerRecord} {inv : PidFiles → Prop}
  {emitted : Text → Option ContainerRecord} {entries : List Text}

theorem socketdGrowArray_eq {count capacity : ℕ} (h : 0 < capacity) :
    socketdGrowArray count capacity = double maxRecords count capacity := by
  rw [socketdGrowArray, double]
  simp only [if_neg h.ne']

variable (look entries) in
/-- **A pass puts into the array what its entries give, which they give with any pidfiles that are
in order.** -/
theorem pass_spec
    (hlook : ∀ files, inv files → ∀ entry ∈ entries,
      inv (look files entry).1 ∧ (look files entry).2 = emitted entry)
    {s : Listing} (hfiles : inv s.files) (hcapacity : 0 < s.capacity) :
    match pass look entries s with
    | none => pushAll maxRecords (entries.filterMap emitted) (s.records, s.capacity) = none
    | some s' => inv s'.files ∧ 0 < s'.capacity ∧
        pushAll maxRecords (entries.filterMap emitted) (s.records, s.capacity) =
          some (s'.records, s'.capacity) := by
  induction entries generalizing s with
  | nil => exact ⟨hfiles, hcapacity, rfl⟩
  | cons entry entries ih =>
    obtain ⟨hnext, hgiven⟩ := hlook s.files hfiles entry List.mem_cons_self
    have hrest : ∀ files, inv files → ∀ e ∈ entries,
        inv (look files e).1 ∧ (look files e).2 = emitted e :=
      fun files h e he => hlook files h e (List.mem_cons_of_mem _ he)
    rw [pass]
    rcases hlooked : look s.files entry with ⟨files, _ | record⟩
    · rw [hlooked] at hnext hgiven
      rw [List.filterMap_cons_none hgiven.symm]
      exact ih hrest hnext hcapacity
    · rw [hlooked] at hnext hgiven
      rw [List.filterMap_cons_some hgiven.symm, pushAll]
      simp only [appendRecord, socketdGrowArray_eq hcapacity]
      cases hdouble : double maxRecords s.records.length s.capacity with
      | none => rfl
      | some capacity =>
        have hpos : 0 < capacity := by
          unfold double at hdouble
          split at hdouble
          · exact Option.some.inj hdouble ▸ hcapacity
          · split at hdouble
            · cases hdouble
            · exact Option.some.inj hdouble ▸ Nat.mul_pos hcapacity Nat.zero_lt_two
        exact ih hrest hnext hpos

end Passes

section Contents

variable {sys : System} {android : Bool} (inv : Inventory sys android) {files : PidFiles}
  {dir entry : Text}

/-- As far as it concerns the containers, the pidfiles are those of the beginning. -/
def Inventory.Agrees (files : PidFiles) : Prop :=
  ∀ dir ∈ inv.containers,
    runningPid inv.table files (nameOf (inv.cfgOf dir)) (uuidOf (inv.cfgOf dir)) = inv.pidOf dir

variable {inv}

theorem Inventory.mem_containers :
    dir ∈ inv.containers ↔ dir ∈ inv.workspace.dirs ∧ inv.config dir = some (inv.cfgOf dir) := by
  rw [Inventory.containers, List.mem_filter, Inventory.cfgOf]
  refine and_congr_right fun _ => ?_
  cases inv.config dir with
  | none => simp
  | some cfg => simp

/-- A container has a name, and its pidfile is that of its directory. -/
theorem Inventory.pidEntry_eq (h : dir ∈ inv.containers) :
    validateContainerName dir = true ∧ sanitize dir = dir ∧ nameOf (inv.cfgOf dir) ≠ [] ∧
      pidEntry (nameOf (inv.cfgOf dir)) = dir ++ ".pid".toList := by
  obtain ⟨hmem, hconfig⟩ := inv.mem_containers.1 h
  obtain ⟨hvalid, hdir⟩ := inv.workspace.placed dir hmem _ hconfig
  refine ⟨valid_of_configOf hconfig, inv.workspace.sanitize_dir hmem hconfig, fun hnil => ?_, ?_⟩
  · rw [hnil] at hvalid
    cases hvalid
  · rw [pidEntry, if_pos hvalid, hdir]

theorem Inventory.Agrees.heal (h : inv.Agrees files) (hdir : dir ∈ inv.containers) :
    inv.Agrees (isContainerRunning inv.table files (nameOf (inv.cfgOf dir))
      (uuidOf (inv.cfgOf dir))).2.2 := by
  obtain ⟨-, -, hname, hentry⟩ := inv.pidEntry_eq hdir
  intro other hother
  obtain ⟨-, -, hname', hentry'⟩ := inv.pidEntry_eq hother
  rw [runningPid_heal hname hname' fun hsame => ?_, h other hother]
  rw [hentry, hentry'] at hsame
  rw [List.append_cancel_right hsame]
  exact ⟨rfl, rfl⟩

/-- What a pass has to know of a container. -/
theorem Inventory.Agrees.look (h : inv.Agrees files) (hdir : dir ∈ inv.containers) :
    ∃ running pid files', isContainerRunning inv.table files (nameOf (inv.cfgOf dir))
        (uuidOf (inv.cfgOf dir)) = (running, pid, files') ∧ inv.Agrees files' ∧
      (if running ∧ 0 < pid then some pid else none) = inv.pidOf dir :=
  ⟨_, _, _, rfl, h.heal hdir, h dir hdir⟩

/-- The container of a pidfile, if it is installed and runs. -/
def Inventory.runningIn (inv : Inventory sys android) (entry : Text) : Option Text :=
  (pidfileToContainerName entry).filter fun name =>
    (inv.config name).isSome && (inv.pidOf name).isSome

theorem eq_of_pidfileToContainerName {name : Text} (h : pidfileToContainerName entry = some name) :
    entry = name ++ ".pid".toList ∧ validateContainerName name = true := by
  unfold pidfileToContainerName at h
  split at h
  · cases h
  · next hpid =>
    rw [not_or, Bool.not_eq_false] at hpid
    obtain ⟨front, rfl⟩ := List.isSuffixOf_iff_suffix.1 hpid.2
    have hfront : (front ++ ".pid".toList).take ((front ++ ".pid".toList).length - 4) = front := by
      rw [List.length_append, show ".pid".toList.length = 4 from rfl, Nat.add_sub_cancel,
        List.take_left]
    simp only [hfront] at h
    split at h
    · cases h
    · split at h
      · next hvalid =>
        obtain rfl := Option.some.inj h
        exact ⟨rfl, hvalid⟩
      · cases h

theorem pidfileToContainerName_append {name : Text} (h : validateContainerName name = true) :
    pidfileToContainerName (name ++ ".pid".toList) = some name := by
  have hne : name.length ≠ 0 := fun hzero => by
    rw [List.length_eq_zero_iff.1 hzero] at h
    cases h
  have hlen := length_of_valid h
  have hpid : isPidFile (name ++ ".pid".toList) = true :=
    List.isSuffixOf_iff_suffix.2 (List.suffix_append _ _)
  have hext : ".pid".toList.length = 4 := rfl
  have hlong : ¬ ((name ++ ".pid".toList).length ≤ 4 ∨
      isPidFile (name ++ ".pid".toList) = false) := by
    rw [List.length_append, hext, hpid, not_or]
    exact ⟨by omega, Bool.noConfusion⟩
  rw [pidfileToContainerName, if_neg hlong]
  simp only [List.length_append, hext, Nat.add_sub_cancel, List.take_left]
  rw [if_neg (by omega), if_pos h]

/-- What has a pidfile is looked up in its directory. -/
theorem Inventory.mem_of_config {name : Text} (hentry : name ++ ".pid".toList ∈ inv.entries)
    (hconfig : (inv.config name).isSome = true) : name ∈ inv.containers := by
  obtain ⟨cfg, hcfg⟩ := Option.isSome_iff_exists.1 hconfig
  have hvalid := valid_of_configOf hcfg
  have hfile := (inv.workspace.existed_iff hvalid).1 (configOf_eq_some_iff.1 hcfg).1
  have hlisted := inv.workspace.listed name hvalid hfile
  rw [inv.pids.spelled name hvalid hentry] at hlisted
  exact List.mem_filter.2 ⟨hlisted, hconfig⟩

theorem Inventory.lookRunning_spec (h : inv.Agrees files) (hentry : entry ∈ inv.entries) :
    inv.Agrees (inv.lookRunning files entry).1 ∧
      (inv.lookRunning files entry).2 = (inv.runningIn entry).map inv.recordOf := by
  rw [Inventory.lookRunning, Inventory.runningIn]
  cases hname : pidfileToContainerName entry with
  | none => exact ⟨h, rfl⟩
  | some name =>
    obtain ⟨rfl, -⟩ := eq_of_pidfileToContainerName hname
    simp only
    rcases hconfig : inv.config name with _ | cfg
    · exact ⟨h, by simp [hconfig]⟩
    · have hmem := inv.mem_of_config hentry (by rw [hconfig]; rfl)
      have hcfg : inv.cfgOf name = cfg := by rw [Inventory.cfgOf, hconfig]; rfl
      obtain ⟨running, pid, files', hrun, hagrees, hpid⟩ := h.look hmem
      rw [hcfg] at hrun
      simp only [hrun]
      split
      · next hnot =>
        rw [if_neg (by rcases hnot with hnot | hnot <;> simp [hnot])] at hpid
        exact ⟨hagrees, by simp [← hpid]⟩
      · next hruns =>
        rw [not_or, Bool.not_eq_false, not_le] at hruns
        rw [if_pos hruns] at hpid
        exact ⟨hagrees, by simp [← hpid, hconfig, Inventory.recordOf, hcfg]⟩

/-- The container of a directory that is not passed over, if it does not run. -/
def Inventory.stoppedIn (inv : Inventory sys android) (dir : Text) : Option Text :=
  if dir.head? ≠ some '.' ∧ (inv.config dir).isSome ∧ inv.pidOf dir = none then some dir else none

theorem Inventory.lookStopped_spec (h : inv.Agrees files) (hdir : dir ∈ inv.workspace.dirs) :
    inv.Agrees (inv.lookStopped files dir).1 ∧
      (inv.lookStopped files dir).2 = (inv.stoppedIn dir).map inv.recordOf := by
  rw [Inventory.lookStopped, Inventory.stoppedIn]
  split
  · next hskip =>
    refine ⟨h, ?_⟩
    rw [if_neg, Option.map_none]
    rintro ⟨hdot, hconfig, -⟩
    obtain ⟨cfg, hcfg⟩ := Option.isSome_iff_exists.1 hconfig
    rcases hskip with hskip | hskip
    · exact hdot hskip
    · rw [valid_of_configOf hcfg] at hskip
      cases hskip
  · next hkept =>
    rw [not_or] at hkept
    cases hconfig : inv.config dir with
    | none => exact ⟨h, by simp⟩
    | some cfg =>
      have hcfg : inv.cfgOf dir = cfg := by rw [Inventory.cfgOf, hconfig]; rfl
      have hmem : dir ∈ inv.containers := inv.mem_containers.2 ⟨hdir, by rw [hconfig, hcfg]⟩
      obtain ⟨running, pid, files', hrun, hagrees, hpid⟩ := h.look hmem
      rw [hcfg] at hrun
      simp only [hrun]
      split
      · next hruns =>
        rw [if_pos hruns] at hpid
        exact ⟨hagrees, by simp [← hpid]⟩
      · next hnot =>
        rw [if_neg hnot] at hpid
        exact ⟨hagrees, by simp [← hpid, hkept.1, Inventory.recordOf, hcfg]⟩

end Contents

/-! ## The answer -/

section Answer

variable {sys : System} {android : Bool} (inv : Inventory sys android) (includeAll : Bool)

/-- The containers in the order of the answer. -/
def Inventory.found : List Text :=
  (inv.entries.filter fun entry => !isStale inv.table inv.files entry).filterMap inv.runningIn ++
    if includeAll then inv.workspace.dirs.filterMap inv.stoppedIn else []

theorem Inventory.firstCapacity_pos : 0 < inv.firstCapacity :=
  Nat.lt_of_lt_of_le (by decide) (Nat.le_max_left 16 _)

theorem Inventory.agrees_count :
    inv.Agrees (countRunningContainers inv.table inv.entries inv.files).1 := fun _ hdir =>
  runningPid_count inv.pids (inv.pidEntry_eq hdir).2.2.1

theorem Inventory.filter_left :
    (inv.entries.filter fun entry =>
      ((countRunningContainers inv.table inv.entries inv.files).1 entry).isSome) =
        inv.entries.filter fun entry => !isStale inv.table inv.files entry := by
  rw [countRunningContainers_spec inv.pids]
  refine List.filter_congr fun entry hentry => ?_
  have hsome := (inv.pids.there entry).2 hentry
  cases hstale : isStale inv.table inv.files entry with
  | false => simpa [hstale] using hsome
  | true => simp [hstale]

/-- **The answer is what there is room for.** -/
theorem Inventory.listContainers_eq :
    inv.listContainers includeAll =
      if maxRecords < inv.firstCapacity then none
      else (pushAll maxRecords ((inv.found includeAll).map inv.recordOf)
        ([], inv.firstCapacity)).map Prod.fst := by
  have hcount : (countRunningContainers inv.table inv.entries inv.files).2 =
      inv.entries.countP (isCounted inv.table inv.files) := by
    rw [countRunningContainers_spec inv.pids]
  have hcapacity : (if 16 < inv.entries.countP (isCounted inv.table inv.files) then
      inv.entries.countP (isCounted inv.table inv.files) else 16) = inv.firstCapacity := by
    rw [Inventory.firstCapacity]
    split <;> omega
  have hpos := inv.firstCapacity_pos
  rw [Inventory.listContainers]
  simp only [hcount, hcapacity, inv.filter_left]
  split
  · rfl
  · have hfirst := pass_spec inv.lookRunning
      (inv.entries.filter fun entry => !isStale inv.table inv.files entry)
      (fun files h entry hentry => inv.lookRunning_spec h (List.mem_of_mem_filter hentry))
      (s := ⟨(countRunningContainers inv.table inv.entries inv.files).1, [], inv.firstCapacity⟩)
      inv.agrees_count hpos
    rw [← List.map_filterMap] at hfirst
    rw [Inventory.found, List.map_append, pushAll_append]
    cases hpass : pass inv.lookRunning
        (inv.entries.filter fun entry => !isStale inv.table inv.files entry)
        ⟨(countRunningContainers inv.table inv.entries inv.files).1, [], inv.firstCapacity⟩ with
    | none =>
      rw [hpass] at hfirst
      simp [hfirst]
    | some s =>
      rw [hpass] at hfirst
      obtain ⟨hagrees, hpos', hpushed⟩ := hfirst
      rw [hpushed, Option.bind_some]
      cases includeAll with
      | false => simp [pushAll]
      | true =>
        have hsecond := pass_spec inv.lookStopped inv.workspace.dirs
          (fun files h dir hdir => inv.lookStopped_spec h hdir) hagrees hpos'
        rw [← List.map_filterMap] at hsecond
        cases hpass' : pass inv.lookStopped inv.workspace.dirs s with
        | none =>
          rw [hpass'] at hsecond
          simp [hsecond, hpass']
        | some s' =>
          rw [hpass'] at hsecond
          simp [hsecond.2.2, hpass']

theorem Inventory.listContainers_of_room (h : inv.HasRoomFor (inv.found includeAll).length) :
    inv.listContainers includeAll = some ((inv.found includeAll).map inv.recordOf) := by
  rw [inv.listContainers_eq, if_neg (Nat.not_lt.2 h.cap_le)]
  refine pushAll_of_hasRoom inv.firstCapacity_pos h.cap_le (Nat.zero_le _) ?_
  rw [List.length_map, List.length_nil, Nat.zero_add]
  exact h

theorem Inventory.listContainers_of_not (h : ¬ inv.HasRoomFor (inv.found includeAll).length) :
    inv.listContainers includeAll = none := by
  rw [inv.listContainers_eq]
  split
  · rfl
  · next hcap =>
    rw [pushAll_of_not_hasRoom inv.firstCapacity_pos (Nat.not_lt.1 hcap) (Nat.zero_le _),
      Option.map_none]
    rw [List.length_map, List.length_nil, Nat.zero_add]
    exact h

/-! ## What is found -/

theorem Inventory.mem_running {dir : Text} :
    dir ∈ (inv.entries.filter fun entry => !isStale inv.table inv.files entry).filterMap
        inv.runningIn ↔
      dir ∈ inv.containers ∧ (inv.pidOf dir).isSome = true ∧ inv.hasPidfile dir = true := by
  rw [List.mem_filterMap]
  constructor
  · rintro ⟨entry, hentry, hrunning⟩
    obtain ⟨hentry, hstale⟩ := List.mem_filter.1 hentry
    obtain ⟨hname, hruns⟩ := Option.filter_eq_some_iff.1 hrunning
    obtain ⟨rfl, hvalid⟩ := eq_of_pidfileToContainerName hname
    rw [Bool.and_eq_true] at hruns
    refine ⟨inv.mem_of_config hentry hruns.1, hruns.2, ?_⟩
    have hpid : isPidFile (dir ++ ".pid".toList) = true :=
      List.isSuffixOf_iff_suffix.2 (List.suffix_append _ _)
    rw [isStale, nameOfPidfile_append (inv.pids.short _ hentry), hpid, hvalid] at hstale
    simpa [Inventory.hasPidfile] using hstale
  · rintro ⟨hdir, hruns, hpidfile⟩
    obtain ⟨hvalid, -, -, -⟩ := inv.pidEntry_eq hdir
    have hthere : (inv.files (dir ++ ".pid".toList)).isSome = true := by
      cases hfile : inv.files (dir ++ ".pid".toList) with
      | none =>
        rw [Inventory.hasPidfile, hfile] at hpidfile
        cases hpidfile
      | some content => rfl
    refine ⟨dir ++ ".pid".toList, List.mem_filter.2 ⟨(inv.pids.there _).1 hthere, ?_⟩, ?_⟩
    · rw [Inventory.hasPidfile, decide_eq_true_eq] at hpidfile
      rw [isStale, decide_eq_false hpidfile, Bool.and_false]
      rfl
    · rw [Inventory.runningIn, pidfileToContainerName_append hvalid]
      simp [hruns, (List.mem_filter.1 hdir).2]

theorem Inventory.mem_stopped {dir : Text} :
    dir ∈ inv.workspace.dirs.filterMap inv.stoppedIn ↔
      dir ∈ inv.containers ∧ inv.pidOf dir = none ∧ dir.head? ≠ some '.' := by
  rw [List.mem_filterMap, Inventory.containers, List.mem_filter]
  constructor
  · rintro ⟨other, hother, hstopped⟩
    rw [Inventory.stoppedIn] at hstopped
    split at hstopped
    · next h =>
      obtain rfl := Option.some.inj hstopped
      exact ⟨⟨hother, h.2.1⟩, h.2.2, h.1⟩
    · cases hstopped
  · rintro ⟨⟨hmem, hconfig⟩, hpid, hdot⟩
    exact ⟨dir, hmem, if_pos ⟨hdot, hconfig, hpid⟩⟩

/-- **Every container is found once, or not at all.** -/
theorem Inventory.found_perm :
    (inv.found includeAll).Perm (inv.containers.filter (inv.isFound includeAll)) := by
  have hrunning : ((inv.entries.filter fun entry =>
      !isStale inv.table inv.files entry).filterMap inv.runningIn).Nodup := by
    refine (inv.pids.nodup.filter _).filterMap fun e e' dir he he' => ?_
    rw [(eq_of_pidfileToContainerName (Option.filter_eq_some_iff.1 he).1).1,
      (eq_of_pidfileToContainerName (Option.filter_eq_some_iff.1 he').1).1]
  have hstopped : (inv.workspace.dirs.filterMap inv.stoppedIn).Nodup := by
    refine inv.workspace.nodup.filterMap fun d d' dir hd hd' => ?_
    simp only [Inventory.stoppedIn, Option.mem_def, Option.ite_none_right_eq_some,
      Option.some.injEq] at hd hd'
    rw [hd.2, hd'.2]
  have hnodup : (inv.found includeAll).Nodup := by
    refine List.nodup_append.2 ⟨hrunning, ?_, fun dir hdir other hother heq => ?_⟩
    · cases includeAll with
      | false => exact List.nodup_nil
      | true => exact hstopped
    · subst heq
      cases includeAll with
      | false => cases hother
      | true =>
        have hruns := ((inv.mem_running).1 hdir).2.1
        rw [((inv.mem_stopped).1 hother).2.1] at hruns
        cases hruns
  have hcontainers : inv.containers.Nodup := inv.workspace.nodup.filter _
  refine (List.perm_ext_iff_of_nodup hnodup (hcontainers.filter _)).2 fun dir => ?_
  rw [Inventory.found, List.mem_append, inv.mem_running, List.mem_filter, Inventory.isFound]
  cases includeAll with
  | false => cases inv.pidOf dir <;> simp
  | true =>
    rw [if_pos rfl, inv.mem_stopped]
    cases inv.pidOf dir <;> simp

/-- What is found is wanted. -/
theorem Inventory.found_sublist :
    (inv.containers.filter (inv.isFound includeAll)).Sublist (inv.wanted includeAll) := by
  refine List.monotone_filter_right _ fun dir hdir => ?_
  rw [Inventory.isFound] at hdir
  split at hdir
  · next hruns => rw [hruns, Bool.or_true]
  · rw [Bool.and_eq_true] at hdir
    rw [hdir.1, Bool.true_or]

end Answer

/-! ## When the list is complete -/

/-- **The list is complete exactly under the condition.** -/
theorem isComplete_iff {sys : System} {android : Bool} (inv : Inventory sys android)
    (includeAll : Bool) : IsComplete inv includeAll ↔ IsListable inv includeAll := by
  have hperm := inv.found_perm includeAll
  have hsub := inv.found_sublist includeAll
  unfold IsComplete IsListable
  split
  · constructor
    · rintro ⟨records, hlist, hrecords⟩
      have hroom : inv.HasRoomFor (inv.found includeAll).length := by
        by_contra hnot
        rw [inv.listContainers_of_not includeAll hnot] at hlist
        cases hlist
      rw [inv.listContainers_of_room includeAll hroom] at hlist
      obtain rfl := Option.some.inj hlist
      have hlength := hrecords.length_eq
      rw [List.length_map, List.length_map] at hlength
      have hall := hsub.eq_of_length (hperm.length_eq.symm.trans hlength)
      refine ⟨fun dir hdir => ?_, hlength ▸ hroom⟩
      rw [← hall] at hdir
      exact (List.mem_filter.1 hdir).2
    · rintro ⟨hall, hroom⟩
      have hsame : inv.containers.filter (inv.isFound includeAll) = inv.wanted includeAll :=
        List.filter_congr fun dir hdir => Bool.eq_iff_iff.2
          ⟨fun h => (List.mem_filter.1 (hsub.subset (List.mem_filter.2 ⟨hdir, h⟩))).2,
            fun h => hall dir (List.mem_filter.2 ⟨hdir, h⟩)⟩
      rw [hsame] at hperm
      exact ⟨_, inv.listContainers_of_room includeAll (hperm.length_eq ▸ hroom),
        hperm.map inv.recordOf⟩
  · rw [← hperm.length_eq]
    constructor
    · intro hnone hroom
      rw [inv.listContainers_of_room includeAll hroom] at hnone
      cases hnone
    · exact inv.listContainers_of_not includeAll

/-- A container that runs, and whose pidfile is gone. -/
def lostProc : Proc where
  marked := true
  isInit := true
  name := some "web".toList
  config := some ("name=web\nuuid=".toList ++ copyUuid)

def lostHost : ProcHost where
  procs := [lostProc]
  files path :=
    if path = hostConfigOf true "web".toList then some ("name=web\nuuid=".toList ++ copyUuid)
    else none

theorem eq_of_findContainerByName_lost {name : Text} {p : Proc}
    (h : findContainerByName lostHost.procs name = some p) : name = "web".toList := by
  unfold findContainerByName at h
  split at h
  · cases h
  · have hfound := List.find?_some h
    have hp : p = lostProc := List.mem_singleton.1 (List.mem_of_find?_eq_some h)
    have hstored : lostProc.storedName = some "web".toList := by decide +kernel
    rw [hp, Bool.and_eq_true, Bool.and_eq_true, beq_iff_eq, hstored] at hfound
    exact (Option.some.inj hfound.1.2).symm

def lostWorkspace : Workspace plainSystem true where
  host := lostHost
  dirs := ["web".toList]
  nodup := List.nodup_singleton _
  listed name _ hfile := by
    simp only [lostHost] at hfile
    split at hfile
    · next h =>
      rw [sanitize_eq_of_hostConfigOf_eq h]
      decide
    · cases hfile
  running name p _ hp _ := by
    rw [eq_of_findContainerByName_lost hp]
    decide +kernel
  placed dir hdir cfg hcfg := by
    have hall : (configOf plainSystem true lostHost "web".toList).all (fun cfg =>
        validateContainerName (nameOf cfg) && sanitize (nameOf cfg) == "web".toList) = true := by
      decide +kernel
    rw [List.mem_singleton.1 hdir] at hcfg ⊢
    rw [hcfg, Option.all_some, Bool.and_eq_true, beq_iff_eq] at hall
    exact hall

def lostInventory : Inventory plainSystem true where
  workspace := lostWorkspace
  table :=
    { procs := [⟨100, lostProc, fun name => name = copyUuid⟩]
      answers pid := pid = 100
      pid_pos := by simp
      pid_lt := by simp [pidMax]
      alive := by simp }
  shown := rfl
  entries := []
  files _ := none
  pids := ⟨List.nodup_nil, by simp, by simp, by simp, by simp⟩
  startedAt _ := 0

/-- It is neither among those that run nor among those that do not. -/
theorem not_isComplete_lost : ¬ IsComplete lostInventory true := by
  intro h
  have hfits : (lostInventory.wanted true).length * containerRecordSize ≤ maxPayload := by
    decide +kernel
  rw [IsComplete, if_pos hfits] at h
  obtain ⟨records, hlist, hperm⟩ := h
  have hlength := hperm.length_eq
  rw [List.length_map] at hlength
  have hnone := congrArg (fun o => o.map List.length) hlist
  rw [Option.map_some, hlength] at hnone
  exact absurd hnone (by decide +kernel)

end Droidspaces.Socketd
