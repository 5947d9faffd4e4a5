import Droidspaces.Config.Recovery

/-!
# The identity of a container

Everything that the runtime keeps of a container on the host lies under a path that is made of the
container's name, with dashes for blanks.  Names that differ in nothing else name one container;
`apart_iff` says that all others have nothing in common.
-/

namespace Droidspaces.Config

open CustomBinds FileSystem

/-! ## The code -/

/-- `get_pids_dir` -/
def pidsDir (android : Bool) : Text := workspaceDir android ++ "/Pids".toList

/-- `get_lock_path` -/
def lockPathOf (android : Bool) (name : Text) : Text :=
  if validateContainerName name then
    (pidsDir android).take 2048 ++ '/' :: (sanitize name).take 256 ++ ".lock".toList
  else []

/-- `pidfile_to_sidecar` -/
def sidecarOf (pidfile ext : Text) : Text :=
  if ".pid".toList.isSuffixOf pidfile then pidfile.take (pidfile.length - 4) ++ ext
  else pidfile ++ ext

/-- `pidfile_to_initfile` -/
def initfileOf (pidfile : Text) : Text := sidecarOf pidfile ".init".toList

/-- The directory that `ds_config_save_by_name` makes. -/
def containerDirOf (android : Bool) (name : Text) : Text :=
  workspaceDir android ++ "/Containers/".toList ++ sanitize name

def cgroupRoot : Text := "/sys/fs/cgroup".toList

/-- What the runtime keeps of a container on the host. -/
inductive Kept where
  | pidfile
  | lock
  | mountfile
  | initfile
  | containerDir
  | mountPoint
  | cgroup
  /-- The cgroup of a hierarchy that is mounted at this entry of `/sys/fs/cgroup`. -/
  | cgroupIn (hierarchy : Text)
  deriving DecidableEq

/-- Where it is. -/
def Kept.path (android : Bool) (name : Text) : Kept → Text
  | .pidfile => pidfileOf android name
  | .lock => lockPathOf android name
  | .mountfile => mountfileOf (pidfileOf android name)
  | .initfile => initfileOf (pidfileOf android name)
  | .containerDir => containerDirOf android name
  | .mountPoint => mountPointOf (sanitize name)
  | .cgroup => cgroupRoot ++ "/droidspaces/".toList ++ sanitize name
  | .cgroupIn hierarchy =>
    cgroupRoot ++ '/' :: hierarchy ++ "/droidspaces/".toList ++ sanitize name

/-- An entry of `/sys/fs/cgroup` that is not the parent of the containers' own cgroups. -/
def Kept.IsHierarchy : Kept → Prop
  | .cgroupIn hierarchy => '/' ∉ hierarchy ∧ hierarchy ≠ "droidspaces".toList
  | _ => True

/-- The path is the other one, or lies below it. -/
def AtOrBelow (p q : Text) : Prop := p = q ∨ ∃ rest, p = q ++ '/' :: rest

def Apart (p q : Text) : Prop := ¬ AtOrBelow p q ∧ ¬ AtOrBelow q p

/-! ## Names -/

def dashed (name : Text) : Text := name.map fun c => if c = ' ' then '-' else c

theorem sanitize_eq_dashed {name : Text} (h : validateContainerName name = true) :
    sanitize name = dashed name := by
  have hlen := length_of_valid h
  rw [sanitize, List.take_of_length_le (by omega)]
  rfl

theorem slash_not_mem_sanitize {name : Text} (h : validateContainerName name = true) :
    '/' ∉ sanitize name := by
  intro hmem
  have hchar := (isNameChar_sanitize h _ hmem).1
  exact absurd hchar (by decide)

/-! ## Components -/

/-- The directory that it is in. -/
def Kept.dir (android : Bool) : Kept → Text
  | .pidfile | .lock | .mountfile | .initfile => pidsDir android
  | .containerDir => workspaceDir android ++ "/Containers".toList
  | .mountPoint => "/mnt/Droidspaces".toList
  | .cgroup => cgroupRoot ++ "/droidspaces".toList
  | .cgroupIn hierarchy => cgroupRoot ++ '/' :: hierarchy ++ "/droidspaces".toList

/-- What stands behind the name. -/
def Kept.extension : Kept → Text
  | .pidfile => ".pid".toList
  | .lock => ".lock".toList
  | .mountfile => ".mount".toList
  | .initfile => ".init".toList
  | _ => []

theorem components_below (q rest : Text) :
    components (q ++ '/' :: rest) = components q ++ components rest :=
  List.splitOn_append_cons_self q rest

theorem components_append (dir : Text) {base : Text} (h : '/' ∉ base) :
    components (dir ++ '/' :: base) = components dir ++ [base] := by
  have hbase : components base = [base] := List.splitOn_eq_singleton h
  rw [components_below, hbase]

theorem AtOrBelow.components_above {p q : Text} (h : AtOrBelow p q) :
    components q <+: components p := by
  rcases h with rfl | ⟨rest, rfl⟩
  · exact List.prefix_rfl
  · rw [components_below]
    exact List.prefix_append _ _

section Path

variable {name : Text} (h : validateContainerName name = true)
include h

theorem take_sanitize : (sanitize name).take 256 = sanitize name :=
  List.take_of_length_le (by rw [length_sanitize h]; exact (length_of_valid h).le)

theorem pidfileOf_eq (android : Bool) :
    pidfileOf android name = (pidsDir android ++ '/' :: sanitize name) ++ ".pid".toList := by
  have hdir : (workspaceDir android ++ "/Pids".toList).take 3800 = pidsDir android := by
    cases android <;> decide
  rw [pidfileOf, if_pos h, hdir, take_sanitize h]

theorem lockPathOf_eq (android : Bool) :
    lockPathOf android name = (pidsDir android ++ '/' :: sanitize name) ++ ".lock".toList := by
  have hdir : (pidsDir android).take 2048 = pidsDir android := by cases android <;> decide
  rw [lockPathOf, if_pos h, hdir, take_sanitize h]

theorem sidecarOf_pidfile (android : Bool) (ext : Text) :
    sidecarOf (pidfileOf android name) ext = (pidsDir android ++ '/' :: sanitize name) ++ ext := by
  rw [pidfileOf_eq h]
  generalize pidsDir android ++ '/' :: sanitize name = stem
  have hlen : ".pid".toList.length = 4 := by decide
  have hsuffix : ".pid".toList.isSuffixOf (stem ++ ".pid".toList) = true :=
    List.isSuffixOf_iff_suffix.2 (List.suffix_append _ _)
  rw [sidecarOf, if_pos hsuffix, List.length_append, hlen, Nat.add_sub_cancel, List.take_left]

theorem path_eq (android : Bool) (k : Kept) :
    k.path android name = k.dir android ++ '/' :: (sanitize name ++ k.extension) := by
  have hslash : ∀ {dir : Text}, dir ++ ['/'] ++ sanitize name = dir ++ '/' :: (sanitize name ++ []) := by
    intro dir
    simp
  cases k with
  | pidfile => exact (pidfileOf_eq h android).trans (List.append_assoc _ _ _)
  | lock => exact (lockPathOf_eq h android).trans (List.append_assoc _ _ _)
  | mountfile => exact (sidecarOf_pidfile h android _).trans (List.append_assoc _ _ _)
  | initfile => exact (sidecarOf_pidfile h android _).trans (List.append_assoc _ _ _)
  | containerDir =>
    have hdir : workspaceDir android ++ "/Containers/".toList =
        workspaceDir android ++ "/Containers".toList ++ ['/'] := by cases android <;> decide
    exact (congrArg (· ++ sanitize name) hdir).trans hslash
  | mountPoint =>
    have hdir : "/mnt/Droidspaces/".toList = "/mnt/Droidspaces".toList ++ ['/'] := by decide +kernel
    exact (congrArg (· ++ sanitize name) hdir).trans hslash
  | cgroup =>
    have hdir : cgroupRoot ++ "/droidspaces/".toList =
        cgroupRoot ++ "/droidspaces".toList ++ ['/'] := by decide
    exact (congrArg (· ++ sanitize name) hdir).trans hslash
  | cgroupIn hierarchy =>
    have hend : "/droidspaces/".toList = "/droidspaces".toList ++ ['/'] := by decide
    have hdir : cgroupRoot ++ '/' :: hierarchy ++ "/droidspaces/".toList =
        cgroupRoot ++ '/' :: hierarchy ++ "/droidspaces".toList ++ ['/'] := by
      rw [hend, List.append_assoc, List.append_assoc, List.append_assoc]
    exact (congrArg (· ++ sanitize name) hdir).trans hslash

/-- The path ends in the name, with what stands behind it. -/
theorem components_path (android : Bool) (k : Kept) :
    components (k.path android name) =
      components (k.dir android) ++ [sanitize name ++ k.extension] := by
  have hname := slash_not_mem_sanitize h
  have hext : '/' ∉ k.extension := by
    cases k with
    | cgroupIn hierarchy => exact List.not_mem_nil
    | _ => decide
  have hbase : '/' ∉ sanitize name ++ k.extension := by simp [hname, hext]
  rw [path_eq h, components_append _ hbase]

end Path

/-! ## Paths of two containers -/

theorem components_cgroupIn {hierarchy : Text} (h : '/' ∉ hierarchy) (android : Bool) :
    components ((Kept.cgroupIn hierarchy).dir android) =
      components cgroupRoot ++ [hierarchy, "droidspaces".toList] := by
  have hend : "/droidspaces".toList = '/' :: "droidspaces".toList := by decide
  have hbase : '/' ∉ "droidspaces".toList := by decide
  show components (cgroupRoot ++ '/' :: hierarchy ++ "/droidspaces".toList) = _
  rw [hend, components_append _ hbase, components_append _ h, List.append_assoc]
  rfl

theorem components_injective {p q : Text} (h : components p = components q) : p = q := by
  have hjoin : ∀ t : Text, ['/'].intercalate (components t) = t := fun t =>
    List.intercalate_splitOn '/'
  rw [← hjoin p, ← hjoin q, h]

/-- Those that do not depend on the host. -/
def Kept.fixed : List Kept :=
  [.pidfile, .lock, .mountfile, .initfile, .containerDir, .mountPoint, .cgroup]

theorem mem_fixed (k : Kept) : k ∈ Kept.fixed ∨ ∃ hierarchy, k = .cgroupIn hierarchy := by
  cases k with
  | cgroupIn hierarchy => exact Or.inr ⟨hierarchy, rfl⟩
  | _ => exact Or.inl (by decide)

theorem length_dir_fixed (android : Bool) {k : Kept} (hk : k ∈ Kept.fixed) :
    (components (k.dir android)).length ≤ 5 := by
  have hall : ∀ k ∈ Kept.fixed, (components (k.dir android)).length ≤ 5 := by
    cases android <;> decide +kernel
  exact hall k hk

theorem length_dir_cgroupIn {hierarchy : Text} (h : '/' ∉ hierarchy) (android : Bool) :
    (components ((Kept.cgroupIn hierarchy).dir android)).length = 6 := by
  have hroot : (components cgroupRoot).length = 4 := by decide
  rw [components_cgroupIn h, List.length_append, hroot]
  rfl

/-- A directory that is not as deep as another one is not above it. -/
theorem not_dir_above {android : Bool} {k l : Kept} (hk : k.IsHierarchy) (hl : l.IsHierarchy)
    (hlt : (components (k.dir android)).length < (components (l.dir android)).length) :
    ¬ components (k.dir android) <+: components (l.dir android) := by
  have hroot : (components cgroupRoot).length = 4 := by decide
  rcases mem_fixed k with hkfix | ⟨hierarchy, rfl⟩
  · rcases mem_fixed l with hlfix | ⟨hierarchy, rfl⟩
    · have hfixed : ∀ k ∈ Kept.fixed, ∀ l ∈ Kept.fixed,
          (components (k.dir android)).length < (components (l.dir android)).length →
          ¬ components (k.dir android) <+: components (l.dir android) := by
        cases android <;> decide +kernel
      exact hfixed k hkfix l hlfix hlt
    · intro habove
      rw [components_cgroupIn hl.1] at habove
      by_cases hcgroup : k = .cgroup
      · -- the hierarchy would be the directory of the containers' own cgroups
        have hdir : components (Kept.cgroup.dir android) =
            components cgroupRoot ++ ["droidspaces".toList] := by cases android <;> decide +kernel
        rw [hcgroup, hdir, List.prefix_append_right_inj, List.cons_prefix_cons] at habove
        exact hl.2 habove.1.symm
      · have hother : ∀ k ∈ Kept.fixed, k ≠ .cgroup →
            ¬ (components (k.dir android)).take 4 <+: components cgroupRoot := by
          cases android <;> decide +kernel
        refine hother k hkfix hcgroup ?_
        exact List.prefix_of_prefix_length_le ((List.take_prefix _ _).trans habove)
          (List.prefix_append _ _) (by simp [hroot])
  · rw [length_dir_cgroupIn hk.1] at hlt
    rcases mem_fixed l with hlfix | ⟨hierarchy', rfl⟩
    · have hl5 := length_dir_fixed android hlfix
      omega
    · rw [length_dir_cgroupIn hl.1] at hlt
      omega

/-- No directory is the other one's, or above it. -/
theorem dir_eq_of_above {android : Bool} {k l : Kept} (hk : k.IsHierarchy) (hl : l.IsHierarchy)
    {x y : Text} (h : components (k.dir android) ++ [x] <+: components (l.dir android) ++ [y]) :
    k.dir android = l.dir android ∧ x = y := by
  have hle := h.length_le
  simp only [List.length_append, List.length_singleton, Nat.add_le_add_iff_right] at hle
  rcases Nat.eq_or_lt_of_le hle with heq | hlt
  · have hsame := h.eq_of_length (by simp [heq])
    obtain ⟨hdir, hbase⟩ := List.append_inj hsame heq
    exact ⟨components_injective hdir, by simpa using hbase⟩
  · refine absurd ?_ (not_dir_above hk hl hlt)
    exact List.prefix_of_prefix_length_le ((List.prefix_append _ _).trans h)
      (List.prefix_append _ _) hlt.le

/-- The last letters of an extension are those of the path. -/
theorem take_reverse_extension {s t e f : Text} (h : s ++ e = t ++ f) (he : 4 ≤ e.length)
    (hf : 4 ≤ f.length) : e.reverse.take 4 = f.reverse.take 4 := by
  have hrev := congrArg (fun u : Text => u.reverse.take 4) h
  simp only [List.reverse_append] at hrev
  rwa [List.take_append_of_le_length (by simpa using he),
    List.take_append_of_le_length (by simpa using hf)] at hrev

/-- A directory has one thing for each name, or one for each extension. -/
theorem eq_of_dir_eq {android : Bool} {k l : Kept} (hk : k.IsHierarchy) (hl : l.IsHierarchy)
    {s t : Text} (hdir : k.dir android = l.dir android)
    (hbase : s ++ k.extension = t ++ l.extension) : k = l := by
  rcases mem_fixed k with hkfix | ⟨hierarchy, rfl⟩
  · rcases mem_fixed l with hlfix | ⟨hierarchy, rfl⟩
    · have hfixed : ∀ k ∈ Kept.fixed, ∀ l ∈ Kept.fixed, k.dir android = l.dir android →
          k = l ∨ 4 ≤ k.extension.length ∧ 4 ≤ l.extension.length ∧
            k.extension.reverse.take 4 ≠ l.extension.reverse.take 4 := by
        cases android <;> decide +kernel
      rcases hfixed k hkfix l hlfix hdir with heq | ⟨hk4, hl4, hne⟩
      · exact heq
      · exact absurd (take_reverse_extension hbase hk4 hl4) hne
    · have hk5 := length_dir_fixed android hkfix
      rw [hdir, length_dir_cgroupIn hl.1] at hk5
      omega
  · rcases mem_fixed l with hlfix | ⟨hierarchy', rfl⟩
    · have hl5 := length_dir_fixed android hlfix
      rw [← hdir, length_dir_cgroupIn hk.1] at hl5
      omega
    · have hcons := List.append_cancel_left (List.append_cancel_right hdir)
      rw [(List.cons.inj hcons).2]

section Pair

variable {android : Bool} {m n : Text} {k l : Kept} (hm : validateContainerName m = true)
  (hn : validateContainerName n = true) (hk : k.IsHierarchy) (hl : l.IsHierarchy)
include hm hn hk hl

theorem same_of_atOrBelow (h : AtOrBelow (l.path android n) (k.path android m)) :
    k = l ∧ dashed m = dashed n := by
  have habove := h.components_above
  rw [components_path hm, components_path hn] at habove
  obtain ⟨hdir, hbase⟩ := dir_eq_of_above hk hl habove
  obtain rfl := eq_of_dir_eq hk hl hdir hbase
  rw [← sanitize_eq_dashed hm, ← sanitize_eq_dashed hn]
  exact ⟨rfl, List.append_cancel_right hbase⟩

/-- **Names that differ in more than blanks and dashes have nothing in common**, and others
everything. -/
theorem path_apart_iff :
    (k.path android m = l.path android n ↔ k = l ∧ dashed m = dashed n) ∧
      (Apart (k.path android m) (l.path android n) ↔ ¬ (k = l ∧ dashed m = dashed n)) := by
  have hsame : k = l ∧ dashed m = dashed n → k.path android m = l.path android n := by
    rintro ⟨rfl, hname⟩
    rw [path_eq hm, path_eq hn, sanitize_eq_dashed hm, sanitize_eq_dashed hn, hname]
  refine ⟨⟨fun heq => ?_, hsame⟩, fun hapart hboth => ?_, fun hne => ⟨fun h => ?_, fun h => ?_⟩⟩
  · exact same_of_atOrBelow hm hn hk hl (Or.inl heq.symm)
  · exact hapart.1 (Or.inl (hsame hboth))
  · have hboth := same_of_atOrBelow hn hm hl hk h
    exact hne ⟨hboth.1.symm, hboth.2.symm⟩
  · exact hne (same_of_atOrBelow hm hn hk hl h)

end Pair

theorem path_apart_web :
    Apart (Kept.pidfile.path true "web".toList) (Kept.pidfile.path true "web.pid".toList) :=
  (@path_apart_iff true _ _ .pidfile .pidfile (by decide) (by decide) trivial trivial).2.2
    (by decide)

/-- Two names for the same files and directories. -/
theorem same_paths_blank : validateContainerName "my box".toList = true ∧
    validateContainerName "my-box".toList = true ∧ "my box".toList ≠ "my-box".toList ∧
    ∀ k ∈ Kept.fixed, k.path true "my box".toList = k.path true "my-box".toList := by
  decide +kernel

end Droidspaces.Config
