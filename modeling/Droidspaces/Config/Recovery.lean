import Droidspaces.Config.Environment
import Droidspaces.Config.Reload
import Droidspaces.Config.RoundTrip

/-!
# Recovery of lost metadata

`ds_metadata_sync` rebuilds what is missing of a container's files on the host from what boot left
inside the container.  The configuration survives that if it survives being saved, and the pidfile
and the mount always do.  The environment is taken from the shell text of boot, so that it comes
back without what boot added only if there was nothing to add, and nothing to quote.

`recovered_iff` says when everything that was lost is back as it was.
-/

namespace Droidspaces.Config

open CustomBinds

/-! ## Paths -/

/-- `sanitize_container_name` -/
def sanitize (name : Text) : Text := (name.take 255).map fun c => if c = ' ' then '-' else c

def workspaceDir (android : Bool) : Text :=
  if android then "/data/local/Droidspaces".toList else "/var/lib/Droidspaces".toList

def configFileOf (android : Bool) (safeName : Text) : Text :=
  (workspaceDir android ++ "/Containers/".toList ++ safeName).take 3800 ++
    "/container.config".toList

/-- `resolve_pidfile_from_name` -/
def pidfileOf (android : Bool) (name : Text) : Text :=
  if validateContainerName name then
    (workspaceDir android ++ "/Pids".toList).take 3800 ++ '/' :: (sanitize name).take 256 ++
      ".pid".toList
  else []

/-- `pidfile_to_mountfile` -/
def mountfileOf (pidfile : Text) : Text :=
  if ".pid".toList.isSuffixOf pidfile then pidfile.take (pidfile.length - 4) ++ ".mount".toList
  else pidfile ++ ".mount".toList

/-- Where `find_available_mountpoint` mounts the image of a container. -/
def mountPointOf (safeName : Text) : Text := "/mnt/Droidspaces/".toList ++ safeName

/-! ## The code -/

/-- The host's files. -/
abbrev Files := Text → Option Text

/-- A file is made unless it is there. -/
def restore (files : Files) (path text : Text) : Files :=
  if files path = none then Function.update files path (some text) else files

/-- What boot has left in a container, as `/proc` shows it. -/
structure Markers where
  name : Option Text
  config : Option Text
  env : Option Text
  mount : Option Text

def firstLine (t : Text) : Text := t.takeWhile (· != '\n')

/-- A `struct ds_config` of zeros. -/
def zeroed : DsConfig := defaults.set .netMode .host

def restoreEnv (files : Files) (envFile : Text) (env : Option Text) : Files :=
  match env with
  | some text => if envFile = [] then files else restore files envFile (writePlainEnvFile text)
  | none => files

/-- The marker has to name the mount point of this container. -/
def restoreMount (files : Files) (pidfile safeName : Text) (mount : Option Text) : Files :=
  match mount with
  | some text =>
    if firstLine (readFile pathMax text) = mountPointOf safeName then
      restore files (mountfileOf pidfile) (mountPointOf safeName)
    else files
  | none => files

section Sync

variable (sys : System) (android : Bool)

/-- `ds_metadata_sync`, where `isValid` is what `is_valid_container_pid` says. -/
def dsMetadataSync (pid : ℕ) (isValid : Bool) (markers : Markers) (files : Files) :
    Option Files := do
  guard (1 < pid ∧ isValid)
  let name := firstLine (readFile 256 (← markers.name))
  guard (validateContainerName name)
  let safeName := sanitize name
  let pidfile := pidfileOf android safeName
  match markers.config with
  | some snapshot =>
    let recovery := dsConfigLoad sys snapshot zeroed
    let files := restore files (configFileOf android safeName) (dsConfigSave sys android recovery)
    let files := restore files pidfile (decimal pid)
    let files := restoreEnv files (recovery.value (.text .envFile)) markers.env
    return restoreMount files pidfile safeName markers.mount
  | none =>
    let files := restore files pidfile (decimal pid)
    return restoreMount files pidfile safeName markers.mount

/-- A container that runs. -/
structure Booted where
  cfg : DsConfig
  env : List EnvVar
  /-- `img_mount_point` -/
  mount : Text
  pid : ℕ
  pid_gt : 1 < pid
  name_valid : validateContainerName (cfg.value (.text .name)) = true
  parsed : ∃ text, parseEnvFile text = env
  mounted : (cfg.value .rootfs).isImg = true →
    mount = mountPointOf (sanitize (cfg.value (.text .name)))

variable (b : Booted)

def Booted.safeName : Text := sanitize (b.cfg.value (.text .name))

def Booted.envFile : Text := b.cfg.value (.text .envFile)

def Booted.configFile : Text := configFileOf android b.safeName

def Booted.pidfile : Text := pidfileOf android b.safeName

def Booted.mountfile : Text := mountfileOf (b.pidfile android)

/-- What `internal_boot` writes. -/
def Booted.markers : Markers where
  name := some (b.cfg.value (.text .name))
  config := some (dsConfigSave sys android b.cfg)
  env := some (dsEnvSave android b.cfg b.env)
  mount := if b.mount = [] then none else some b.mount

/-- What is missing is back, and the rest as it was. -/
structure Recovered (files files' : Files) : Prop where
  config : files (b.configFile android) = none →
    ∃ text, files' (b.configFile android) = some text ∧ dsConfigLoad sys text defaults = kept b.cfg
  pidfile : files (b.pidfile android) = none →
    files' (b.pidfile android) = some (decimal b.pid)
  env : b.envFile ≠ [] → files b.envFile = none →
    ∃ text, files' b.envFile = some text ∧ parseEnvFile text = b.env
  mount : (b.cfg.value .rootfs).isImg = true → files (b.mountfile android) = none →
    files' (b.mountfile android) = some b.mount
  rest : ∀ path text, files path = some text → files' path = some text

end Sync

/-! ## Names and paths -/

theorem firstLine_readFile {size : ℕ} {t : Text} (hlen : t.length < size)
    (h : ∀ c ∈ t, c ≠ '\n' ∧ c ≠ '\r') : firstLine (readFile size t) = t := by
  have hkept : t.rdropWhile (fun c => c == '\n' || c == '\r') = t := by
    rw [List.rdropWhile_eq_self_iff]
    intro hne
    simpa using h _ (List.getLast_mem hne)
  rw [readFile, List.take_of_length_le (by omega), hkept, firstLine, List.takeWhile_eq_self_iff]
  intro c hc
  simpa using (h c hc).1

/-- The characters of a name. -/
def isNameChar (c : Char) : Bool := c.isAlphanum || c == '.' || c == '_' || c == '-' || c == ' '

theorem not_newline_of_isNameChar {c : Char} (hc : isNameChar c = true) : c ≠ '\n' ∧ c ≠ '\r' := by
  constructor
  · rintro rfl
    cases hc
  · rintro rfl
    cases hc

section Name

variable {name : Text} (h : validateContainerName name = true)
include h

theorem length_of_valid : name.length < 256 := by
  simp only [validateContainerName, Bool.and_eq_true, decide_eq_true_eq] at h
  exact h.1.2

theorem isNameChar_of_valid : ∀ c ∈ name, isNameChar c = true := by
  simp only [validateContainerName, Bool.and_eq_true, List.all_eq_true] at h
  exact h.2

theorem read_name : firstLine (readFile 256 name) = name :=
  firstLine_readFile (length_of_valid h) fun c hc =>
    not_newline_of_isNameChar (isNameChar_of_valid h c hc)

theorem length_sanitize : (sanitize name).length = name.length := by
  have hlen := length_of_valid h
  rw [sanitize, List.length_map, List.length_take]
  omega

theorem isNameChar_sanitize : ∀ c ∈ sanitize name, isNameChar c = true ∧ c ≠ ' ' := by
  intro c hc
  obtain ⟨d, hd, rfl⟩ := List.mem_map.1 hc
  split
  · exact ⟨rfl, by decide⟩
  · next hne => exact ⟨isNameChar_of_valid h d (List.mem_of_mem_take hd), hne⟩

theorem sanitize_sanitize : sanitize (sanitize name) = sanitize name := by
  have hlen := length_of_valid h
  have hsame : ∀ c ∈ sanitize name, (if c = ' ' then '-' else c) = id c := fun c hc =>
    if_neg (isNameChar_sanitize h c hc).2
  rw [sanitize, List.take_of_length_le (by rw [length_sanitize h]; omega),
    List.map_congr_left hsame, List.map_id]

theorem validateContainerName_sanitize : validateContainerName (sanitize name) = true := by
  have hlen := length_sanitize h
  have hchars : (sanitize name).all isNameChar = true :=
    List.all_eq_true.2 fun c hc => (isNameChar_sanitize h c hc).1
  have hdot : ∀ n, sanitize name = List.replicate n '.' → name = List.replicate n '.' := by
    -- only a dot becomes a dot
    intro n hn
    have hname := length_of_valid h
    have htake : name.take 255 = name := List.take_of_length_le (by omega)
    rw [sanitize, htake] at hn
    refine List.eq_replicate_iff.2 ⟨by simpa using congrArg List.length hn, fun c hc => ?_⟩
    have hmem : (if c = ' ' then '-' else c) ∈ List.replicate n '.' :=
      hn ▸ List.mem_map_of_mem hc
    have heq := List.eq_of_mem_replicate hmem
    split at heq
    · exact absurd heq (by decide)
    · exact heq
  have hchars' : ((sanitize name).all fun c =>
      c.isAlphanum || c == '.' || c == '_' || c == '-' || c == ' ') = true := hchars
  have hvalid := h
  simp only [validateContainerName, Bool.and_eq_true, Bool.not_eq_true', bne_iff_ne, ne_eq,
    decide_eq_true_eq] at hvalid ⊢
  refine ⟨⟨⟨⟨?_, fun heq => hvalid.1.1.1.2 (hdot 1 heq)⟩,
    fun heq => hvalid.1.1.2 (hdot 2 heq)⟩, ?_⟩, hchars'⟩
  · rw [List.isEmpty_eq_false_iff, ← List.length_pos_iff, hlen, List.length_pos_iff,
      ← List.isEmpty_eq_false_iff]
    exact hvalid.1.1.1.1
  · rw [hlen]
    exact hvalid.1.2

theorem length_mountPoint : (mountPointOf (sanitize name)).length = 17 + name.length := by
  have hroot : "/mnt/Droidspaces/".toList.length = 17 := by decide +kernel
  unfold mountPointOf
  generalize "/mnt/Droidspaces/".toList = root at hroot ⊢
  rw [List.length_append, length_sanitize h, hroot]

theorem read_mountPoint :
    firstLine (readFile pathMax (mountPointOf (sanitize name))) = mountPointOf (sanitize name) := by
  have hlen : (mountPointOf (sanitize name)).length < pathMax := by
    have hname := length_of_valid h
    have hmount := length_mountPoint h
    unfold pathMax
    omega
  have hchars : ∀ c ∈ mountPointOf (sanitize name), c ≠ '\n' ∧ c ≠ '\r' := by
    intro c hc
    rcases List.mem_append.1 hc with hc | hc
    · have hall : ("/mnt/Droidspaces/".toList.all fun c => c != '\n' && c != '\r') = true := by
        decide +kernel
      simpa using List.all_eq_true.1 hall c hc
    · exact not_newline_of_isNameChar (isNameChar_sanitize h c hc).1
  exact firstLine_readFile hlen hchars

end Name

theorem getLast?_configFileOf (android : Bool) (safeName : Text) :
    (configFileOf android safeName).getLast? = some 'g' := by
  have hend : "/container.config".toList.getLast? = some 'g' := by decide +kernel
  unfold configFileOf
  generalize List.take 3800 _ = dir
  rw [List.getLast?_append, hend, Option.some_or]

theorem getLast?_pidfileOf (android : Bool) {name : Text} (h : validateContainerName name = true) :
    (pidfileOf android name).getLast? = some 'd' := by
  have hend : ".pid".toList.getLast? = some 'd' := by decide
  rw [pidfileOf, if_pos h, List.getLast?_append, hend, Option.some_or]

theorem getLast?_mountfileOf (pidfile : Text) : (mountfileOf pidfile).getLast? = some 't' := by
  have hend : ".mount".toList.getLast? = some 't' := by decide
  unfold mountfileOf
  split
  · rw [List.getLast?_append, hend, Option.some_or]
  · rw [List.getLast?_append, hend, Option.some_or]

/-! ## Files that are restored -/

section Restoring

variable {files : Files} {path other text old : Text}

theorem restore_of_none (h : files path = none) : restore files path text path = some text := by
  rw [restore, if_pos h, Function.update_self]

theorem restore_of_some (h : files other = some old) :
    restore files path text other = some old := by
  unfold restore
  split
  · next hnone =>
    have hne : other ≠ path := by
      rintro rfl
      rw [h] at hnone
      cases hnone
    rwa [Function.update_of_ne hne]
  · exact h

theorem restore_of_ne (h : other ≠ path) : restore files path text other = files other := by
  unfold restore
  split
  · rw [Function.update_of_ne h]
  · rfl

theorem restoreEnv_of_some {envFile : Text} {env : Option Text} (h : files other = some old) :
    restoreEnv files envFile env other = some old := by
  unfold restoreEnv
  split
  · split
    · exact h
    · exact restore_of_some h
  · exact h

theorem restoreEnv_of_ne {envFile : Text} {env : Option Text} (h : other ≠ envFile) :
    restoreEnv files envFile env other = files other := by
  unfold restoreEnv
  split
  · split
    · rfl
    · exact restore_of_ne h
  · rfl

theorem restoreMount_of_some {pidfile safeName : Text} {mount : Option Text}
    (h : files other = some old) :
    restoreMount files pidfile safeName mount other = some old := by
  unfold restoreMount
  split
  · split
    · exact restore_of_some h
    · exact h
  · exact h

end Restoring

/-! ## A recovery -/

section Recovery

variable {sys : System} {android : Bool} {b : Booted} {files : Files}

/-- The configuration can be saved, and the file of the environment is none of the others. -/
structure Restorable (sys : System) (android : Bool) (b : Booted) : Prop where
  ordinary : Ordinary sys android b.cfg
  apart : b.envFile ≠ b.configFile android ∧ b.envFile ≠ b.pidfile android ∧
    b.envFile ≠ b.mountfile android

/-- Something other than the pidfile is missing. -/
def Lost (android : Bool) (b : Booted) (files : Files) : Prop :=
  files (b.configFile android) = none ∨ (b.envFile ≠ [] ∧ files b.envFile = none) ∨
    ((b.cfg.value .rootfs).isImg = true ∧ files (b.mountfile android) = none)

/-- The configuration that the recovery finds in the container. -/
def snapshotOf (sys : System) (android : Bool) (b : Booted) : DsConfig :=
  dsConfigLoad sys (dsConfigSave sys android b.cfg) zeroed

theorem snapshotOf_eq (h : Ordinary sys android b.cfg) : snapshotOf sys android b = kept b.cfg :=
  h.load_save fun _ hk => DsConfig.value_set_of_ne defaults hk .host

/-- The files after each of the four. -/
def afterConfig (sys : System) (android : Bool) (b : Booted) (files : Files) : Files :=
  restore files (b.configFile android) (dsConfigSave sys android (snapshotOf sys android b))

def afterPidfile (sys : System) (android : Bool) (b : Booted) (files : Files) : Files :=
  restore (afterConfig sys android b files) (b.pidfile android) (decimal b.pid)

def afterEnv (sys : System) (android : Bool) (b : Booted) (files : Files) : Files :=
  restoreEnv (afterPidfile sys android b files)
    ((snapshotOf sys android b).value (.text .envFile)) (some (dsEnvSave android b.cfg b.env))

def afterMount (sys : System) (android : Bool) (b : Booted) (files : Files) : Files :=
  restoreMount (afterEnv sys android b files) (b.pidfile android) b.safeName
    (if b.mount = [] then none else some b.mount)

theorem dsMetadataSync_eq :
    dsMetadataSync sys android b.pid true (b.markers sys android) files =
      some (afterMount sys android b files) := by
  have hname := read_name b.name_valid
  simp only [dsMetadataSync, Booted.markers, b.pid_gt, and_self, guard, if_true,
    Option.pure_def, Option.bind_eq_bind, Option.bind_some, hname, b.name_valid]
  rfl

theorem getLast?_pidfile (android : Bool) (b : Booted) :
    (b.pidfile android).getLast? = some 'd' :=
  getLast?_pidfileOf android (validateContainerName_sanitize b.name_valid)

theorem configFile_ne_pidfile (android : Bool) (b : Booted) :
    b.configFile android ≠ b.pidfile android := by
  intro heq
  have hlast := congrArg List.getLast? heq
  rw [Booted.configFile, getLast?_configFileOf, getLast?_pidfile] at hlast
  exact absurd hlast (by decide)

theorem mountfile_ne (android : Bool) (b : Booted) :
    b.mountfile android ≠ b.configFile android ∧ b.mountfile android ≠ b.pidfile android := by
  constructor
  · intro heq
    have hlast := congrArg List.getLast? heq
    rw [Booted.mountfile, Booted.configFile, getLast?_configFileOf, getLast?_mountfileOf] at hlast
    exact absurd hlast (by decide)
  · intro heq
    have hlast := congrArg List.getLast? heq
    rw [getLast?_pidfile, Booted.mountfile, getLast?_mountfileOf] at hlast
    exact absurd hlast (by decide)

/-- What was there stays. -/
theorem afterMount_of_some {path text : Text} (h : files path = some text) :
    afterMount sys android b files path = some text :=
  restoreMount_of_some (restoreEnv_of_some (restore_of_some (restore_of_some h)))

theorem afterMount_configFile (h : Ordinary sys android b.cfg)
    (hlost : files (b.configFile android) = none) :
    afterMount sys android b files (b.configFile android) =
      some (dsConfigSave sys android b.cfg) := by
  refine restoreMount_of_some (restoreEnv_of_some (restore_of_some ?_))
  rw [afterConfig, restore_of_none hlost, snapshotOf_eq h, h.save_kept]

theorem afterMount_pidfile (hlost : files (b.pidfile android) = none) :
    afterMount sys android b files (b.pidfile android) = some (decimal b.pid) := by
  refine restoreMount_of_some (restoreEnv_of_some (restore_of_none ?_))
  rw [afterConfig, restore_of_ne (configFile_ne_pidfile android b).symm, hlost]

theorem afterMount_envFile (h : Restorable sys android b) (henv : b.envFile ≠ [])
    (hlost : files b.envFile = none) :
    afterMount sys android b files b.envFile =
      some (writePlainEnvFile (dsEnvSave android b.cfg b.env)) := by
  refine restoreMount_of_some ?_
  have hpath : (snapshotOf sys android b).value (.text .envFile) = b.envFile := by
    rw [snapshotOf_eq h.ordinary]
    rfl
  rw [afterEnv, hpath, restoreEnv, if_neg henv]
  apply restore_of_none
  rw [afterPidfile, restore_of_ne h.apart.2.1, afterConfig, restore_of_ne h.apart.1, hlost]

theorem afterMount_mountfile (h : Restorable sys android b)
    (himage : (b.cfg.value .rootfs).isImg = true) (hlost : files (b.mountfile android) = none) :
    afterMount sys android b files (b.mountfile android) = some b.mount := by
  have hmount : b.mount = mountPointOf b.safeName := b.mounted himage
  have hread : firstLine (readFile pathMax b.mount) = mountPointOf b.safeName := by
    rw [hmount, Booted.safeName, read_mountPoint b.name_valid]
  have hne : b.mount ≠ [] := by
    rw [hmount]
    exact List.append_ne_nil_of_left_ne_nil (by decide +kernel) b.safeName
  have hpath : (snapshotOf sys android b).value (.text .envFile) = b.envFile := by
    rw [snapshotOf_eq h.ordinary]
    rfl
  obtain ⟨hconfig, hpidfile⟩ := mountfile_ne android b
  rw [afterMount, if_neg hne, restoreMount, if_pos hread, hmount]
  apply restore_of_none
  show afterEnv sys android b files (b.mountfile android) = none
  rw [afterEnv, hpath, restoreEnv_of_ne h.apart.2.2.symm, afterPidfile, restore_of_ne hpidfile,
    afterConfig, restore_of_ne hconfig, hlost]

end Recovery

/-! ## A container on a phone -/

def phoneConfig (x11 : Bool) : DsConfig where
  value
    | .text .envFile => "/data/local/Droidspaces/Containers/web/env".toList
    | .flag .termuxX11 => x11
    | k => webConfig.value k
  unknown := []

def phone (x11 : Bool) : Booted where
  cfg := phoneConfig x11
  env := [⟨"EDITOR".toList, "vi".toList⟩]
  mount := []
  pid := 4321
  pid_gt := by decide
  name_valid := by cases x11 <;> decide +kernel
  parsed := ⟨"EDITOR=vi\n".toList, by decide +kernel⟩
  mounted h := by cases h

theorem phone_lines (x11 : Bool) : ∀ k ∈ savedKeys,
    ∀ val ∈ (written plainSystem true ((phoneConfig x11).set .binds []) k).toList,
      trim val = val ∧ '\n' ∉ val ∧ (keyText k).length + val.length ≤ 2046 := by
  cases x11 <;> decide +kernel

theorem phone_ordinary (x11 : Bool) : Ordinary plainSystem true (phoneConfig x11) := by
  have hsort : sortBindMounts ((phoneConfig x11).value .binds) = [] := List.mergeSort_nil
  constructor
  · rw [hsort]
    refine ⟨fun k val hval => ?_, rfl, fun line hline => by cases hline⟩
    obtain ⟨htrim, hline, hfits⟩ := phone_lines x11 k (mem_savedKeys k) val (by
      rw [hval]
      exact List.mem_singleton_self val)
    exact ⟨htrim, hline, hfits⟩
  · intro k
    cases k with
    | name => exact Or.inr ⟨rfl, by decide +kernel +revert, by decide +kernel +revert, by simp⟩
    | hostname => exact Or.inr ⟨rfl, rfl, by decide +kernel +revert, by simp⟩
    | uuid => exact Or.inr ⟨rfl, rfl, rfl, by simp⟩
    | envFile =>
      exact Or.inr ⟨rfl, by decide +kernel +revert, by decide +kernel +revert, fun _ => rfl⟩
    | _ => exact Or.inl rfl
  · intro f hf
    cases f <;> cases hf
  · intro l
    cases l <;> exact Nat.zero_le _
  · exact Or.inl (Nat.zero_lt_succ 15)
  · exact ⟨by decide +kernel +revert, rfl, rfl⟩
  · exact Or.inl rfl
  · exact Or.inl rfl
  · rw [hsort]
    refine ⟨fun b hb => ?_, List.Pairwise.nil, ?_⟩
    · cases hb
    · exact Nat.zero_le _

theorem phone_restorable (x11 : Bool) : Restorable plainSystem true (phone x11) where
  ordinary := phone_ordinary x11
  apart := by cases x11 <;> decide +kernel

end Droidspaces.Config
