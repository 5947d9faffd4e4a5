import Droidspaces.Config.Spellings

/-!
# References to containers

`socketd_load_config_by_ref` takes a reference for a name, and loads what is kept under that name;
if nothing is, it goes over the directories for the one whose UUID begins with the reference.  Names
are kept with dashes for blanks, the scan passes over a directory with a dot in front, and with a
UUID in full it ends at the first directory that has it.

`resolvesRef_iff` says which references are resolved as meant.
-/

namespace Droidspaces.Socketd

open Config

/-! ## The code -/

/-- What `enum ds_socketd_status` has for the answers here. -/
inductive SocketdStatus where
  | ok
  | badRequest
  | notFound
  | internalError
  deriving DecidableEq

/-- A `struct ds_config` with the directory of its `config_file`. -/
structure Loaded where
  dir : Text
  cfg : DsConfig

/-- The status, and what `cfg` owns. -/
abbrev Answer := SocketdStatus × Option Loaded

/-- `DS_SOCKETD_RECORD_NAME_MAX` -/
def recordNameMax : ℕ := 256

/-- `DS_UUID_LEN` -/
def uuidLen : ℕ := 32

def isHex (c : Char) : Bool :=
  c.isDigit || ('a' ≤ c && c ≤ 'f') || ('A' ≤ c && c ≤ 'F')

/-- `socketd_is_uuid_prefix_ref` -/
def isUuidPrefixRef (ref : Text) : Bool := ref ≠ [] && ref.length ≤ uuidLen && ref.all isHex

def nameOf (cfg : DsConfig) : Text := cfg.value (.text .name)

def uuidOf (cfg : DsConfig) : Text := cfg.value (.text .uuid)

section Code

variable (sys : System) (android : Bool) (host : ProcHost)

/-- `config_file_existed`, once a configuration is loaded by name. -/
def configFileExisted (name : Text) : Bool :=
  ((findContainerByName host.procs name).bind Proc.config).isSome ||
    (host.files (hostConfigOf android name)).isSome

/-- The scan of `Containers`. -/
def scanByUuid (ref : Text) : List Text → Answer → Answer
  | [], answer => answer
  | dir :: dirs, answer =>
    if dir.head? = some '.' ∨ validateContainerName dir = false then scanByUuid ref dirs answer
    else
      match dsConfigLoadByName sys android host dir zeroed with
      | none => (.internalError, answer.2)
      | some candidate =>
        if configFileExisted android host dir = false ∨ uuidOf candidate = [] ∨
            ¬ ref <+: uuidOf candidate then scanByUuid ref dirs answer
        else if answer.1 = .ok then (.badRequest, none)
        else if ref.length = uuidLen then (.ok, some ⟨sanitize dir, candidate⟩)
        else scanByUuid ref dirs (.ok, some ⟨sanitize dir, candidate⟩)

def loadByUuid (dirs : List Text) (ref : Text) : Answer :=
  if isUuidPrefixRef ref then scanByUuid sys android host ref dirs (.notFound, none)
  else (.notFound, none)

/-- `socketd_load_config_by_ref`, with what `readdir` finds in `Containers`. -/
def socketdLoadConfigByRef (dirs : List Text) (ref : Text) : Answer :=
  if ref = [] ∨ recordNameMax ≤ ref.length then (.badRequest, none)
  else if validateContainerName ref then
    match dsConfigLoadByName sys android host ref zeroed with
    | none => (.internalError, none)
    | some cfg =>
      if configFileExisted android host ref then (.ok, some ⟨sanitize ref, cfg⟩)
      else loadByUuid sys android host dirs ref
  else loadByUuid sys android host dirs ref

/-- The configuration that is found under a name, if any. -/
def configOf (name : Text) : Option DsConfig :=
  if configFileExisted android host name then dsConfigLoadByName sys android host name zeroed
  else none

end Code

/-! ## What is promised, and when it holds -/

/-- The containers that are installed, each in the directory that its name has. -/
structure Workspace (sys : System) (android : Bool) where
  host : ProcHost
  /-- What `readdir` finds in `Containers`. -/
  dirs : List Text
  nodup : dirs.Nodup
  listed : ∀ name, validateContainerName name = true →
    (host.files (hostConfigOf android name)).isSome = true → sanitize name ∈ dirs
  /-- What runs is installed. -/
  running : ∀ name p, validateContainerName name = true →
    findContainerByName host.procs name = some p → p.config.isSome = true →
      (host.files (hostConfigOf android name)).isSome = true
  placed : ∀ dir ∈ dirs, ∀ cfg, configOf sys android host dir = some cfg →
    validateContainerName (nameOf cfg) = true ∧ sanitize (nameOf cfg) = dir

section Promise

variable {sys : System} {android : Bool} (w : Workspace sys android) (ref : Text)

def Workspace.answer : Answer := socketdLoadConfigByRef sys android w.host w.dirs ref

/-- The directories of the containers whose UUID begins with the reference. -/
def Workspace.withPrefix : List Text :=
  w.dirs.filter fun dir =>
    (configOf sys android w.host dir).any fun cfg => ref.isPrefixOf (uuidOf cfg)

/-- The container in that directory has the reference for its name. -/
def Workspace.IsNamed (dir : Text) : Prop :=
  dir ∈ w.dirs ∧ (configOf sys android w.host dir).map nameOf = some ref

/-- The answer is a configuration of the container in that directory. -/
def Workspace.Finds (dir : Text) : Prop :=
  ∃ name cfg, sanitize name = dir ∧ configOf sys android w.host name = some cfg ∧
    w.answer ref = (.ok, some ⟨dir, cfg⟩)

/-- The container that is found is the only one whose UUID begins with the reference. -/
def Workspace.GoesByUuid : Prop :=
  match w.withPrefix ref with
  | [] => w.answer ref = (.notFound, none)
  | [dir] => w.Finds ref dir
  | _ :: _ :: _ => w.answer ref = (.badRequest, none)

/-- As Docker does it. -/
structure ResolvesRef : Prop where
  named : ∀ dir, w.IsNamed ref dir → w.Finds ref dir
  byUuid : (∀ dir, ¬ w.IsNamed ref dir) → w.GoesByUuid ref
  order : ∀ dirs, dirs.Perm w.dirs →
    socketdLoadConfigByRef sys android w.host dirs ref = w.answer ref
  freed : (w.answer ref).1 ≠ .ok → (w.answer ref).2 = none

/-- A reference with something in its directory is the name of what is there, or begins the UUID of
that container only.  Another one begins no UUID if it cannot; else no container is passed over that
would matter, and only one has that UUID in full. -/
def IsResolvable : Prop :=
  if ref = [] then 2 ≤ (w.withPrefix ref).length
  else if validateContainerName ref = true ∧ configFileExisted android w.host ref = true then
    w.IsNamed ref (sanitize ref) ∨ w.withPrefix ref = [sanitize ref]
  else if isUuidPrefixRef ref then
    (ref.length = uuidLen → (w.withPrefix ref).length ≤ 1) ∧
      ((∀ dir ∈ w.withPrefix ref, dir.head? ≠ some '.') ∨
        2 ≤ ((w.withPrefix ref).filter fun dir => dir.head? ≠ some '.').length)
  else w.withPrefix ref = []

end Promise

/-! ## The scan -/

section Scan

variable {sys : System} {android : Bool} {host : ProcHost} {ref dir name : Text} {cfg : DsConfig}

theorem configOf_eq_some_iff : configOf sys android host name = some cfg ↔
    configFileExisted android host name = true ∧
      dsConfigLoadByName sys android host name zeroed = some cfg := by
  rw [configOf]
  split
  · next h => rw [h]; simp
  · next h => simp [h]

theorem valid_of_configOf (h : configOf sys android host name = some cfg) :
    validateContainerName name = true := by
  have hload := (configOf_eq_some_iff.1 h).2
  by_contra hnot
  rw [dsConfigLoadByName, if_neg hnot] at hload
  cases hload

variable (sys android host) in
/-- Loading by a valid name does not fail. -/
theorem exists_load (hvalid : validateContainerName name = true) :
    ∃ cfg, dsConfigLoadByName sys android host name zeroed = some cfg := by
  rw [dsConfigLoadByName, if_pos hvalid]
  split
  · exact ⟨_, rfl⟩
  · exact ⟨_, rfl⟩

/-- The scan stops at this directory, or makes a note of it. -/
def isCandidate (sys : System) (android : Bool) (host : ProcHost) (ref dir : Text) : Bool :=
  dir.head? ≠ some '.' && (configOf sys android host dir).any fun cfg => ref.isPrefixOf (uuidOf cfg)

theorem scanByUuid_of_not (hnot : isCandidate sys android host ref dir = false)
    (dirs : List Text) (answer : Answer) :
    scanByUuid sys android host ref (dir :: dirs) answer =
      scanByUuid sys android host ref dirs answer := by
  rw [scanByUuid]
  split
  · rfl
  · next hlisted =>
    rw [not_or, Bool.not_eq_false] at hlisted
    obtain ⟨cfg, hcfg⟩ := exists_load sys android host hlisted.2
    rw [hcfg]
    refine if_pos ?_
    by_contra hall
    rw [not_or, not_or, not_not, Bool.not_eq_false] at hall
    have hconfig := configOf_eq_some_iff.2 ⟨hall.1, hcfg⟩
    have htrue : isCandidate sys android host ref dir = true := by
      simp [isCandidate, hconfig, hlisted.1, List.isPrefixOf_iff_prefix.2 hall.2.2]
    rw [hnot] at htrue
    cases htrue

theorem scanByUuid_of_candidate (hdir : isCandidate sys android host ref dir = true)
    (hne : ref ≠ []) (dirs : List Text) (answer : Answer) :
    ∃ cfg, configOf sys android host dir = some cfg ∧
      scanByUuid sys android host ref (dir :: dirs) answer =
        if answer.1 = .ok then (.badRequest, none)
        else if ref.length = uuidLen then (.ok, some ⟨sanitize dir, cfg⟩)
        else scanByUuid sys android host ref dirs (.ok, some ⟨sanitize dir, cfg⟩) := by
  rw [isCandidate, Bool.and_eq_true, decide_eq_true_eq, Option.any_eq_true] at hdir
  obtain ⟨hshown, cfg, hcfg, hprefix⟩ := hdir
  have hprefix := List.isPrefixOf_iff_prefix.1 hprefix
  have huuid : uuidOf cfg ≠ [] := fun hnil => hne (List.prefix_nil.1 (hnil ▸ hprefix))
  obtain ⟨hexisted, hload⟩ := configOf_eq_some_iff.1 hcfg
  refine ⟨cfg, hcfg, ?_⟩
  rw [scanByUuid, if_neg (by simp [hshown, valid_of_configOf hcfg]), hload]
  exact if_neg (by simp [hexisted, huuid, hprefix])

/-- Once there is one, a second one makes the reference ambiguous. -/
theorem scanByUuid_ok (hne : ref ≠ []) (found : Option Loaded) (dirs : List Text) :
    scanByUuid sys android host ref dirs (.ok, found) =
      if dirs.filter (isCandidate sys android host ref) = [] then (.ok, found)
      else (.badRequest, none) := by
  induction dirs with
  | nil => rfl
  | cons dir dirs ih =>
    cases hdir : isCandidate sys android host ref dir with
    | false =>
      rw [scanByUuid_of_not hdir, ih, List.filter_cons_of_neg (by simp [hdir])]
    | true =>
      obtain ⟨cfg, -, hscan⟩ := scanByUuid_of_candidate hdir hne dirs (.ok, found)
      rw [hscan, if_pos rfl, List.filter_cons_of_pos hdir, if_neg (List.cons_ne_nil _ _)]

variable (sys android host) in
/-- **What the scan makes of its candidates.** -/
theorem scanByUuid_eq (hne : ref ≠ []) (dirs : List Text) :
    match dirs.filter (isCandidate sys android host ref) with
    | [] => scanByUuid sys android host ref dirs (.notFound, none) = (.notFound, none)
    | dir :: others => ∃ cfg, configOf sys android host dir = some cfg ∧
        scanByUuid sys android host ref dirs (.notFound, none) =
          if ref.length = uuidLen ∨ others = [] then (.ok, some ⟨sanitize dir, cfg⟩)
          else (.badRequest, none) := by
  induction dirs with
  | nil => rfl
  | cons dir dirs ih =>
    cases hdir : isCandidate sys android host ref dir with
    | false => rwa [scanByUuid_of_not hdir, List.filter_cons_of_neg (by simp [hdir])]
    | true =>
      obtain ⟨cfg, hcfg, hscan⟩ := scanByUuid_of_candidate hdir hne dirs (.notFound, none)
      rw [List.filter_cons_of_pos hdir]
      refine ⟨cfg, hcfg, ?_⟩
      rw [hscan, if_neg (fun h => SocketdStatus.noConfusion h), scanByUuid_ok hne]
      by_cases hlen : ref.length = uuidLen
      · rw [if_pos hlen, if_pos (Or.inl hlen)]
      · simp [hlen]

theorem scanByUuid_nil (hne : ref ≠ []) {dirs : List Text}
    (h : dirs.filter (isCandidate sys android host ref) = []) :
    scanByUuid sys android host ref dirs (.notFound, none) = (.notFound, none) := by
  have hscan := scanByUuid_eq sys android host hne dirs
  rwa [h] at hscan

theorem scanByUuid_first (hne : ref ≠ []) {dirs others : List Text}
    (h : dirs.filter (isCandidate sys android host ref) = dir :: others)
    (hlast : ref.length = uuidLen ∨ others = []) :
    ∃ cfg, configOf sys android host dir = some cfg ∧
      scanByUuid sys android host ref dirs (.notFound, none) = (.ok, some ⟨sanitize dir, cfg⟩) := by
  have hscan := scanByUuid_eq sys android host hne dirs
  rw [h] at hscan
  simpa only [if_pos hlast] using hscan

theorem scanByUuid_many (hne : ref ≠ []) {dirs others : List Text} {other : Text}
    (h : dirs.filter (isCandidate sys android host ref) = dir :: other :: others)
    (hlen : ref.length ≠ uuidLen) :
    scanByUuid sys android host ref dirs (.notFound, none) = (.badRequest, none) := by
  have hscan := scanByUuid_eq sys android host hne dirs
  rw [h] at hscan
  obtain ⟨cfg, -, hscan⟩ := hscan
  rw [hscan, if_neg (by simp [hlen])]

end Scan

/-! ## Names and directories -/

section Workspace

variable {sys : System} {android : Bool} {w : Workspace sys android} {ref dir name : Text}

theorem Workspace.existed_iff (hvalid : validateContainerName name = true) :
    configFileExisted android w.host name = true ↔
      (w.host.files (hostConfigOf android name)).isSome = true := by
  rw [configFileExisted, Bool.or_eq_true, or_iff_right_of_imp]
  intro hrunning
  obtain ⟨config, hconfig⟩ := Option.isSome_iff_exists.1 hrunning
  obtain ⟨p, hp, hsome⟩ := Option.bind_eq_some_iff.1 hconfig
  exact w.running name p hvalid hp (by rw [hsome]; rfl)

theorem Workspace.existed_sanitize (hvalid : validateContainerName name = true) :
    configFileExisted android w.host (sanitize name) = true ↔
      configFileExisted android w.host name = true := by
  rw [w.existed_iff hvalid, w.existed_iff (validateContainerName_sanitize hvalid), hostConfigOf,
    containerDirOf, sanitize_sanitize hvalid]
  rfl

/-- A container with that name is where the name leads. -/
theorem Workspace.IsNamed.hit (h : w.IsNamed ref dir) :
    validateContainerName ref = true ∧ configFileExisted android w.host ref = true ∧
      dir = sanitize ref := by
  obtain ⟨hmem, hname⟩ := h
  obtain ⟨cfg, hcfg, rfl⟩ := Option.map_eq_some_iff.1 hname
  obtain ⟨hvalid, hdir⟩ := w.placed dir hmem cfg hcfg
  refine ⟨hvalid, ?_, hdir.symm⟩
  rw [← w.existed_sanitize hvalid, hdir]
  exact (configOf_eq_some_iff.1 hcfg).1

/-- A directory with a container in it is written with dashes. -/
theorem Workspace.sanitize_dir (hmem : dir ∈ w.dirs) {cfg : DsConfig}
    (hcfg : configOf sys android w.host dir = some cfg) : sanitize dir = dir := by
  obtain ⟨hvalid, hdir⟩ := w.placed dir hmem cfg hcfg
  rw [← hdir, sanitize_sanitize hvalid]

theorem Workspace.filter_isCandidate (w : Workspace sys android) (ref : Text) :
    w.dirs.filter (isCandidate sys android w.host ref) =
      (w.withPrefix ref).filter fun dir => dir.head? ≠ some '.' := by
  rw [Workspace.withPrefix, List.filter_filter]
  rfl

/-! ## The answers -/

variable (sys) in
theorem load_of_hit {host : ProcHost} (hne : ref ≠ []) (hlen : ref.length < recordNameMax)
    (hhit : validateContainerName ref = true ∧ configFileExisted android host ref = true) :
    ∃ cfg, configOf sys android host ref = some cfg ∧ ∀ dirs,
      socketdLoadConfigByRef sys android host dirs ref = (.ok, some ⟨sanitize ref, cfg⟩) := by
  obtain ⟨cfg, hcfg⟩ := exists_load sys android host hhit.1
  refine ⟨cfg, configOf_eq_some_iff.2 ⟨hhit.2, hcfg⟩, fun dirs => ?_⟩
  rw [socketdLoadConfigByRef, if_neg (by simp [hne, hlen]), if_pos hhit.1, hcfg]
  exact if_pos hhit.2

theorem load_of_not_hit {host : ProcHost} (hne : ref ≠ []) (hlen : ref.length < recordNameMax)
    (hhit : ¬ (validateContainerName ref = true ∧ configFileExisted android host ref = true))
    (dirs : List Text) :
    socketdLoadConfigByRef sys android host dirs ref = loadByUuid sys android host dirs ref := by
  rw [socketdLoadConfigByRef, if_neg (by simp [hne, hlen])]
  split
  · next hvalid =>
    obtain ⟨cfg, hcfg⟩ := exists_load sys android host hvalid
    rw [hcfg]
    exact if_neg fun hexisted => hhit ⟨hvalid, hexisted⟩
  · rfl

variable (w)

theorem resolvesRef_of_unnamed (hnone : ∀ dir, ¬ w.IsNamed ref dir)
    (horder : ∀ dirs, dirs.Perm w.dirs →
      socketdLoadConfigByRef sys android w.host dirs ref = w.answer ref)
    (hfreed : (w.answer ref).1 ≠ .ok → (w.answer ref).2 = none) :
    ResolvesRef w ref ↔ w.GoesByUuid ref :=
  ⟨fun h => h.byUuid hnone, fun h => ⟨fun dir hdir => absurd hdir (hnone dir), fun _ => h, horder,
    hfreed⟩⟩

theorem resolvesRef_nil_iff : ResolvesRef w [] ↔ 2 ≤ (w.withPrefix []).length := by
  have hload (dirs : List Text) :
      socketdLoadConfigByRef sys android w.host dirs [] = (.badRequest, none) := if_pos (Or.inl rfl)
  have hanswer : w.answer [] = (.badRequest, none) := hload _
  have hnone (dir : Text) : ¬ w.IsNamed [] dir := fun h => absurd h.hit.1 (by decide)
  rw [resolvesRef_of_unnamed w hnone (fun dirs _ => (hload dirs).trans hanswer.symm)
    (fun _ => by rw [hanswer]), Workspace.GoesByUuid]
  rcases w.withPrefix [] with _ | ⟨dir, _ | ⟨other, others⟩⟩
  · simp [hanswer]
  · simp [hanswer, Workspace.Finds]
  · simp [hanswer]

variable (hne : ref ≠ []) (hlen : ref.length < recordNameMax)
include hne hlen

theorem resolvesRef_of_hit
    (hhit : validateContainerName ref = true ∧ configFileExisted android w.host ref = true) :
    ResolvesRef w ref ↔ w.IsNamed ref (sanitize ref) ∨ w.withPrefix ref = [sanitize ref] := by
  obtain ⟨cfg, hcfg, hload⟩ := load_of_hit sys hne hlen hhit
  have hanswer : w.answer ref = (.ok, some ⟨sanitize ref, cfg⟩) := hload _
  have hfinds : w.Finds ref (sanitize ref) := ⟨ref, cfg, rfl, hcfg, hanswer⟩
  have horder (dirs : List Text) (_ : dirs.Perm w.dirs) :
      socketdLoadConfigByRef sys android w.host dirs ref = w.answer ref :=
    (hload dirs).trans hanswer.symm
  have hfreed : (w.answer ref).1 ≠ .ok → (w.answer ref).2 = none := fun h =>
    absurd (by rw [hanswer]) h
  by_cases hnamed : w.IsNamed ref (sanitize ref)
  · refine iff_of_true ⟨fun dir hdir => ?_, fun h => absurd hnamed (h _), horder, hfreed⟩
      (Or.inl hnamed)
    rw [hdir.hit.2.2]
    exact hfinds
  · have hnone (dir : Text) : ¬ w.IsNamed ref dir := fun h => hnamed (h.hit.2.2 ▸ h)
    rw [resolvesRef_of_unnamed w hnone horder hfreed, or_iff_right hnamed, Workspace.GoesByUuid]
    rcases w.withPrefix ref with _ | ⟨dir, _ | ⟨other, others⟩⟩
    · simp [hanswer]
    · constructor
      · rintro ⟨name, cfg', -, -, hfound⟩
        rw [hanswer] at hfound
        simpa using (congrArg (fun a : Answer => a.2.map Loaded.dir) hfound).symm
      · intro h
        rw [(List.cons.inj h).1]
        exact hfinds
    · simp [hanswer]

variable (hmiss : ¬ (validateContainerName ref = true ∧
  configFileExisted android w.host ref = true))
include hmiss

omit hne hlen in
theorem Workspace.not_isNamed (dir : Text) : ¬ w.IsNamed ref dir := fun h =>
  hmiss ⟨h.hit.1, h.hit.2.1⟩

theorem resolvesRef_of_not_hex (hhex : isUuidPrefixRef ref = false) :
    ResolvesRef w ref ↔ w.withPrefix ref = [] := by
  have hload (dirs : List Text) :
      socketdLoadConfigByRef sys android w.host dirs ref = (.notFound, none) := by
    rw [load_of_not_hit hne hlen hmiss, loadByUuid, if_neg (by simp [hhex])]
  have hanswer : w.answer ref = (.notFound, none) := hload _
  rw [resolvesRef_of_unnamed w (w.not_isNamed hmiss)
    (fun dirs _ => (hload dirs).trans hanswer.symm) (fun _ => by rw [hanswer]),
    Workspace.GoesByUuid]
  rcases w.withPrefix ref with _ | ⟨dir, _ | ⟨other, others⟩⟩
  · simp [hanswer]
  · simp [hanswer, Workspace.Finds]
  · simp [hanswer]

variable (hhex : isUuidPrefixRef ref = true)
include hhex

theorem load_of_hex (dirs : List Text) :
    socketdLoadConfigByRef sys android w.host dirs ref =
      scanByUuid sys android w.host ref dirs (.notFound, none) := by
  rw [load_of_not_hit hne hlen hmiss, loadByUuid, if_pos hhex]

/-- What the scan gets right, it gets right in any order. -/
theorem load_perm
    (hfull : ref.length = uuidLen →
      (w.dirs.filter (isCandidate sys android w.host ref)).length ≤ 1)
    {dirs : List Text} (hperm : dirs.Perm w.dirs) :
    socketdLoadConfigByRef sys android w.host dirs ref = w.answer ref := by
  have hload := load_of_hex w hne hlen hmiss hhex
  have hfilter := hperm.filter (isCandidate sys android w.host ref)
  rw [Workspace.answer, hload, hload]
  rcases hv : w.dirs.filter (isCandidate sys android w.host ref) with _ | ⟨dir, _ | ⟨other, others⟩⟩
  · rw [hv, List.perm_nil] at hfilter
    rw [scanByUuid_nil hne hv, scanByUuid_nil hne hfilter]
  · rw [hv, List.perm_singleton] at hfilter
    obtain ⟨cfg, hcfg, hscan⟩ := scanByUuid_first hne hv (Or.inr rfl)
    obtain ⟨cfg', hcfg', hscan'⟩ := scanByUuid_first hne hfilter (Or.inr rfl)
    rw [hscan, hscan', Option.some.inj (hcfg'.symm.trans hcfg)]
  · have hpart : ref.length ≠ uuidLen := fun h => by simpa [hv] using hfull h
    have hlength := hfilter.length_eq
    rw [hv] at hlength
    rcases hv' : dirs.filter (isCandidate sys android w.host ref) with _ | ⟨dir', _ | ⟨other', _⟩⟩
    · simp [hv'] at hlength
    · simp [hv'] at hlength
    · rw [scanByUuid_many hne hv hpart, scanByUuid_many hne hv' hpart]

theorem resolvesRef_of_hex :
    ResolvesRef w ref ↔ (ref.length = uuidLen → (w.withPrefix ref).length ≤ 1) ∧
      ((∀ dir ∈ w.withPrefix ref, dir.head? ≠ some '.') ∨
        2 ≤ ((w.withPrefix ref).filter fun dir => dir.head? ≠ some '.').length) := by
  have hanswer : w.answer ref = _ := load_of_hex w hne hlen hmiss hhex w.dirs
  have hnone := w.not_isNamed hmiss
  have hvisible := w.filter_isCandidate ref
  constructor
  · intro h
    have huuid := h.byUuid hnone
    unfold Workspace.GoesByUuid at huuid
    rcases hm : w.withPrefix ref with _ | ⟨dir, _ | ⟨other, others⟩⟩
    · simp
    · rw [hm] at huuid hvisible
      refine ⟨fun _ => Nat.le_refl _, Or.inl ?_⟩
      rintro x hx hhidden
      rw [List.mem_singleton.1 hx] at hhidden
      obtain ⟨name, cfg, -, -, hfound⟩ := huuid
      rw [hanswer, scanByUuid_nil hne (hvisible.trans (by simp [hhidden]))] at hfound
      cases hfound
    · rw [hm] at huuid
      rw [← hm, ← hvisible]
      simp only at huuid
      rw [hanswer] at huuid
      rcases hv : w.dirs.filter (isCandidate sys android w.host ref) with
        _ | ⟨first, _ | ⟨second, rest⟩⟩
      · rw [scanByUuid_nil hne hv] at huuid
        cases huuid
      · obtain ⟨cfg, -, hscan⟩ := scanByUuid_first hne hv (Or.inr rfl)
        rw [hscan] at huuid
        cases huuid
      · refine ⟨fun hfull => ?_, Or.inr (by simp)⟩
        obtain ⟨cfg, -, hscan⟩ := scanByUuid_first hne hv (Or.inl hfull)
        rw [hscan] at huuid
        cases huuid
  · rintro ⟨hfull, hhidden⟩
    have hfull' (h : ref.length = uuidLen) :
        (w.dirs.filter (isCandidate sys android w.host ref)).length ≤ 1 := by
      rw [hvisible]
      exact (List.length_filter_le _ _).trans (hfull h)
    have huuid : w.GoesByUuid ref := by
      unfold Workspace.GoesByUuid
      rcases hm : w.withPrefix ref with _ | ⟨dir, _ | ⟨other, others⟩⟩
      · rw [hm] at hvisible
        exact hanswer.trans (scanByUuid_nil hne hvisible)
      · have hshown : dir.head? ≠ some '.' := fun hdot => by simp [hm, hdot] at hhidden
        have hmem : dir ∈ w.withPrefix ref := by simp [hm]
        rw [hm, List.filter_cons_of_pos (by simpa using hshown)] at hvisible
        obtain ⟨cfg, hcfg, hscan⟩ := scanByUuid_first hne hvisible (Or.inr rfl)
        rw [w.sanitize_dir (List.mem_of_mem_filter hmem) hcfg] at hscan
        exact ⟨dir, cfg, w.sanitize_dir (List.mem_of_mem_filter hmem) hcfg, hcfg,
          hanswer.trans hscan⟩
      · have hmany : 2 ≤ (w.dirs.filter (isCandidate sys android w.host ref)).length := by
          rw [hvisible]
          rcases hhidden with hall | hmany
          · rw [List.filter_eq_self.2 fun x hx => by simpa using hall x hx, hm]
            simp
          · exact hmany
        have hpart : ref.length ≠ uuidLen := fun h => by
          have hle := hfull' h
          omega
        rcases hv : w.dirs.filter (isCandidate sys android w.host ref) with
          _ | ⟨first, _ | ⟨second, rest⟩⟩
        · simp [hv] at hmany
        · simp [hv] at hmany
        · exact hanswer.trans (scanByUuid_many hne hv hpart)
    refine ⟨fun dir hdir => absurd hdir (hnone dir), fun _ => huuid,
      fun dirs => load_perm w hne hlen hmiss hhex hfull', fun hok => ?_⟩
    rw [hanswer] at hok ⊢
    rcases hv : w.dirs.filter (isCandidate sys android w.host ref) with
      _ | ⟨first, _ | ⟨second, rest⟩⟩
    · rw [scanByUuid_nil hne hv]
    · obtain ⟨cfg, -, hscan⟩ := scanByUuid_first hne hv (Or.inr rfl)
      exact absurd (congrArg Prod.fst hscan) hok
    · rw [scanByUuid_many hne hv fun h => by simpa [hv] using hfull' h]

end Workspace

/-! ## A container and a copy of it -/

theorem sanitize_eq_of_hostConfigOf_eq {android : Bool} {m n : Text}
    (h : hostConfigOf android m = hostConfigOf android n) : sanitize m = sanitize n :=
  List.append_cancel_left (List.append_cancel_right h)

def copyUuid : Text := "0123456789abcdef0123456789abcdef".toList

/-- The configuration was copied, with the UUID in it. -/
def copyHost : ProcHost where
  procs := []
  files path :=
    if path = hostConfigOf true "web".toList then some ("name=web\nuuid=".toList ++ copyUuid)
    else if path = hostConfigOf true "web copy".toList then
      some ("name=web copy\nuuid=".toList ++ copyUuid)
    else none

theorem listed_copy (name : Text)
    (hfile : (copyHost.files (hostConfigOf true name)).isSome = true) :
    sanitize name ∈ ["web".toList, "web-copy".toList] := by
  simp only [copyHost] at hfile
  split at hfile
  · next h =>
    rw [sanitize_eq_of_hostConfigOf_eq h]
    decide
  · split at hfile
    · next h =>
      rw [sanitize_eq_of_hostConfigOf_eq h]
      decide
    · cases hfile

theorem placed_copy : ∀ dir ∈ ["web".toList, "web-copy".toList],
    ∀ cfg, configOf plainSystem true copyHost dir = some cfg →
      validateContainerName (nameOf cfg) = true ∧ sanitize (nameOf cfg) = dir := by
  have hall : ∀ dir ∈ ["web".toList, "web-copy".toList],
      (configOf plainSystem true copyHost dir).all (fun cfg =>
        validateContainerName (nameOf cfg) && sanitize (nameOf cfg) == dir) = true := by
    decide +kernel
  intro dir hdir cfg hcfg
  have hdir := hall dir hdir
  rw [hcfg, Option.all_some, Bool.and_eq_true, beq_iff_eq] at hdir
  exact hdir

theorem nodup_copy : ["web".toList, "web-copy".toList].Nodup := by decide

def copied : Workspace plainSystem true where
  host := copyHost
  dirs := ["web".toList, "web-copy".toList]
  nodup := nodup_copy
  listed name _ hfile := listed_copy name hfile
  running name p _ hp _ := by
    rw [copyHost, findContainerByName, List.find?_nil, ite_self] at hp
    cases hp
  placed := placed_copy

/-! ## Which references are resolved -/

/-- **References are resolved as Docker's are, exactly under the condition.** -/
theorem resolvesRef_iff {sys : System} {android : Bool} (w : Workspace sys android) {ref : Text}
    (hlen : ref.length < recordNameMax) : ResolvesRef w ref ↔ IsResolvable w ref := by
  unfold IsResolvable
  split_ifs with hnil hhit hhex
  · rw [hnil]
    exact resolvesRef_nil_iff w
  · exact resolvesRef_of_hit w hnil hlen hhit
  · exact resolvesRef_of_hex w hnil hlen hhit hhex
  · exact resolvesRef_of_not_hex w hnil hlen hhit (Bool.eq_false_iff.2 hhex)

theorem resolvesRef_copy : ResolvesRef copied "web copy".toList := by
  refine (resolvesRef_iff copied (by decide)).2 ?_
  rw [IsResolvable, if_neg (by decide), if_pos (by decide +kernel)]
  exact Or.inl (by unfold Workspace.IsNamed; decide +kernel)

/-- Both have that UUID, and the first one that `readdir` comes upon is the answer. -/
theorem not_resolvesRef_copyUuid : ¬ ResolvesRef copied copyUuid := by
  intro h
  have horder := h.order ["web-copy".toList, "web".toList] (List.Perm.swap _ _ _)
  have hdirs := congrArg (fun a : Answer => a.2.map Loaded.dir) horder
  revert hdirs
  decide +kernel

end Droidspaces.Socketd
