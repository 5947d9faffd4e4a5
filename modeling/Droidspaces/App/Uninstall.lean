import Droidspaces.FileSystem.PathWalk
import Droidspaces.Lifecycle.LockFile
import Droidspaces.Sequential.FileTree

/-!
# Uninstalling a container from the app

`uninstallContainer` removes up to three things as root: the rootfs, if its path does not start
with that of the container's directory, the folder that the rootfs was in, if nothing else is in
there, and the container's directory.

The directory is not the one that the configuration was loaded from: it is computed from the
`name=` in the configuration, and so is the configuration that the rootfs path is read from.
Nor is anybody else asked whether they use the rootfs, or whether their container runs on it.
`uninstall_own_iff` says when that does no harm.

`CONTAINERS_BASE_PATH` is a real directory; rootfs paths are arbitrary and are looked up with
their `..` and symbolic links.
-/

namespace Droidspaces.Uninstall

open Sequential FileSystem

/-! ## The phone -/

/-- What a file is, as far as paths are concerned. -/
inductive Content where
  | bytes
  | link (target : Text)
  deriving DecidableEq

abbrev Tree := FileTree Content

def nameOf (name : Text) : String := String.ofList name

/-- Where paths are looked up. -/
def space (tree : Tree) : Space Path where
  root := []
  parent := List.dropLast
  look p name :=
    match tree.find (p ++ [nameOf name]) with
    | none => .missing
    | some .dir => .dir (p ++ [nameOf name])
    | some (.file .bytes) => .file (p ++ [nameOf name])
    | some (.file (.link target)) => .link target

/-- The lines of a `container.config` that matter here. -/
structure ConfigFile where
  name : Option Text
  rootfsPath : Option Text
  useSparseImage : Bool

/-- The part of a `ContainerInfo` that matters here. -/
structure Info where
  name : Text
  rootfsPath : Text
  deriving DecidableEq

structure Phone where
  tree : Tree
  /-- The `container.config` in a directory under `CONTAINERS_BASE_PATH`. -/
  configs : Text → Option ConfigFile
  /-- The running containers by the name of their pidfile, and what they run on. -/
  running : List (Text × Path)

/-! ## Names and paths -/

/-- `CONTAINERS_BASE_PATH` -/
def containersBasePath : Text := "/data/local/Droidspaces/Containers".toList

def containersBase : Path := ["data", "local", "Droidspaces", "Containers"]

/-- `isSafeContainerName`: not empty, and nothing but letters, digits, `_`, blanks, `.`, `-`. -/
def isSafeContainerName (name : Text) : Bool :=
  !name.isEmpty && name.all fun c => c.isAlphanum || c == '_' || isSpace c || c == '.' || c == '-'

def sanitizeContainerName (name : Text) : Text := name.map fun c => if c = ' ' then '-' else c

def getContainerDirectory (name : Text) : Text :=
  containersBasePath ++ '/' :: sanitizeContainerName name

/-- The path of the directory. -/
def containerDir (dir : Text) : Path := containersBase ++ [nameOf dir]

/-- `getRootfsPath` and `getSparseImagePath` -/
def defaultRootfsPath (sparseImage : Bool) (name : Text) : Text :=
  getContainerDirectory name ++ (if sparseImage then "/rootfs.img" else "/rootfs").toList

/-- The rootfs that a configuration says, in a container called `name`. -/
def ConfigFile.rootfs (cfg : ConfigFile) (name : Text) : Text :=
  cfg.rootfsPath.getD (defaultRootfsPath cfg.useSparseImage name)

/-- `loadContainerConfig` on the configuration in `dir`. -/
def loadContainerConfig (configs : Text → Option ConfigFile) (dir defaultName : Text) :
    Option Info := do
  let cfg ← configs dir
  let name := cfg.name.getD defaultName
  if isSafeContainerName name then
    some ⟨name, cfg.rootfs name⟩
  else none

/-- `readRootfsPath` -/
def readRootfsPath (configs : Text → Option ConfigFile) (name : Text) : Option Text :=
  ((loadContainerConfig configs (sanitizeContainerName name) name).map Info.rootfsPath).filter
    fun path => !path.all isSpace

/-! ## Removing -/

/-- `substringAfterLast('/')` -/
def afterLastSlash (path : Text) : Text := (components path).getLast?.getD []

/-- `substringBeforeLast('/', "")` -/
def beforeLastSlash (path : Text) : Text := ['/'].intercalate (components path).dropLast

def isRootfsName (name : String) : Bool := name == "rootfs" || name == "rootfs.img"

/-- What `rm -rf path` and `rmdir path` work on. -/
def targetOf (tree : Tree) (path : Text) : Option Path :=
  ((space tree).entryOf [] (components path)).map fun e => e.1 ++ [nameOf e.2]

def removeAll (tree : Tree) : Option Path → Tree
  | some target => tree.discard fun p => target.isPrefixOf p
  | none => tree

/-- What `rmdir` removes. -/
def emptied (tree : Tree) (target : Option Path) : Option Path :=
  target.filter fun p => tree.isDir p && tree.isBare p

def rmdir (tree : Tree) (target : Option Path) : Tree :=
  match emptied tree target with
  | some p => tree.discard (· == p)
  | none => tree

/-- The rootfs path that the uninstall goes by. -/
def rootfsPathOf (phone : Phone) (info : Info) : Text :=
  (readRootfsPath phone.configs info.name).getD info.rootfsPath

/-- What `deleteExternalRootfs` works on, if it is called and does not refuse. -/
def externalRootfs (phone : Phone) (info : Info) : Option Path :=
  let path := rootfsPathOf phone info
  if path.all isSpace || (getContainerDirectory info.name ++ ['/']).isPrefixOf path ||
      !isRootfsName (nameOf (afterLastSlash path)) then none
  else targetOf phone.tree path

/-- The folder that it tries to remove after that. -/
def externalFolder (phone : Phone) (info : Info) : Option Path :=
  let path := rootfsPathOf phone info
  if path.all isSpace || (getContainerDirectory info.name ++ ['/']).isPrefixOf path ||
      !isRootfsName (nameOf (afterLastSlash path)) || (beforeLastSlash path).isEmpty then none
  else
    let tree := removeAll phone.tree (externalRootfs phone info)
    emptied tree (targetOf tree (beforeLastSlash path))

def deleteExternalRootfs (tree : Tree) (rootfsPath : Text) : Tree :=
  if isRootfsName (nameOf (afterLastSlash rootfsPath)) then
    let tree := removeAll tree (targetOf tree rootfsPath)
    let parent := beforeLastSlash rootfsPath
    if parent.isEmpty then tree else rmdir tree (targetOf tree parent)
  else tree

/-- `uninstallContainer` with every command succeeding; `rm` refuses `.` and `..`. -/
def uninstallContainer (phone : Phone) (info : Info) : Option Phone := do
  let running := phone.running.filter (·.1 ≠ sanitizeContainerName info.name)
  let containerPath := getContainerDirectory info.name
  let rootfsPath := rootfsPathOf phone info
  let tree :=
    if !rootfsPath.all isSpace && !(containerPath ++ ['/']).isPrefixOf rootfsPath then
      deleteExternalRootfs phone.tree rootfsPath
    else phone.tree
  if sanitizeContainerName info.name = ['.'] ∨ sanitizeContainerName info.name = ['.', '.'] then
    none
  else
    some { phone with
      tree := removeAll tree (some (containerDir (sanitizeContainerName info.name)))
      running := running }

/-! ## What may go -/

/-- The entries that a rootfs path stands for: the one it names, and the one it leads to. -/
def storage (tree : Tree) (path : Text) : List Path :=
  (targetOf tree path).toList ++
    match (space tree).walk maxLinks [] (components path) with
    | some (.dir p) => [p]
    | some (.file p) => [p]
    | none => []

/-- The rootfs path needs the entry: it is in it, or the entry is in the rootfs. -/
def Uses (tree : Tree) (path : Text) (entry : Path) : Prop :=
  ∃ p ∈ storage tree path, entry <+: p ∨ p <+: entry

/-- No configuration but the one in `dir` uses the entry. -/
def Unused (phone : Phone) (dir : Text) (entry : Path) : Prop :=
  ∀ other cfg, other ≠ dir → phone.configs other = some cfg →
    ¬ Uses phone.tree (cfg.rootfs (cfg.name.getD other)) entry

/-- In the directory that the configuration was loaded from, or in a rootfs that nobody else
uses. -/
def Own (phone : Phone) (dir : Text) (p : Path) : Prop :=
  containerDir dir <+: p ∨
    ∃ entry, entry <+: p ∧ (∃ name, entry.getLast? = some name ∧ isRootfsName name = true) ∧
      Unused phone dir entry

/-- Whatever is gone was the container's own, and no container runs on it. -/
structure OnlyOwn (phone : Phone) (dir : Text) (after : Phone) : Prop where
  own : ∀ p, (phone.tree.find p).isSome = true → after.tree.find p = none → Own phone dir p
  idle : ∀ c ∈ after.running, ∀ p, (phone.tree.find p).isSome = true →
    after.tree.find p = none → ¬ c.2 <+: p

/-- No container but the one that is uninstalled runs on anything in `target`. -/
def Quiet (phone : Phone) (info : Info) (target : Path) : Prop :=
  ∀ c ∈ phone.running, c.1 ≠ sanitizeContainerName info.name →
    ∀ p, target <+: p → (phone.tree.find p).isSome = true → ¬ c.2 <+: p

/-- The condition: the directory that goes by the name in the configuration is the one the
configuration was loaded from, the rootfs is nobody else's and its folder still holds something,
and nobody runs on either. -/
structure Careful (phone : Phone) (dir : Text) (info : Info) : Prop where
  rootfs : ∀ target, externalRootfs phone info = some target →
    (phone.tree.find target).isSome = true → Own phone dir target ∧ Quiet phone info target
  folder : ∀ target, externalFolder phone info = some target →
    Own phone dir target ∧ ∀ c ∈ phone.running, c.1 ≠ sanitizeContainerName info.name →
      ¬ c.2 <+: target
  directory : (phone.tree.find (containerDir (sanitizeContainerName info.name))).isSome = true →
    (nameOf (sanitizeContainerName info.name) = nameOf dir ∨
      isRootfsName (nameOf (sanitizeContainerName info.name)) = true ∧
        Unused phone dir (containerDir (sanitizeContainerName info.name))) ∧
    Quiet phone info (containerDir (sanitizeContainerName info.name))

/-! ## What goes -/

section Gone

variable {phone after : Phone} {dir : Text} {info : Info} {p q target : Path} {tree : Tree}

theorem Own.mono (h : Own phone dir p) (hpq : p <+: q) : Own phone dir q := by
  rcases h with hdir | ⟨entry, hentry, hname, hunused⟩
  · exact Or.inl (hdir.trans hpq)
  · exact Or.inr ⟨entry, hentry.trans hpq, hname, hunused⟩

/-- No directory above those of the containers is called rootfs. -/
theorem own_containerDir {name : Text} : Own phone dir (containerDir name) ↔
    nameOf name = nameOf dir ∨
      isRootfsName (nameOf name) = true ∧ Unused phone dir (containerDir name) := by
  constructor
  · rintro (hdir | ⟨entry, hentry, ⟨last, hlast, hrootfs⟩, hunused⟩)
    · left
      simpa [containerDir, containersBase, List.cons_prefix_cons, eq_comm] using hdir
    · right
      rcases List.prefix_concat_iff.1 hentry with rfl | hbase
      · obtain rfl : nameOf name = last := by simpa using hlast
        exact ⟨hrootfs, hunused⟩
      · exfalso
        have hmem : entry ∈ containersBase.inits := (List.mem_inits _ _).2 hbase
        have hall : ∀ e ∈ containersBase.inits, ∀ last, e.getLast? = some last →
            isRootfsName last = false := by decide
        rw [hall entry hmem last hlast] at hrootfs
        cases hrootfs
  · rintro (heq | ⟨hrootfs, hunused⟩)
    · left
      rw [containerDir, containerDir, heq]
    · exact Or.inr ⟨_, List.prefix_refl _, ⟨nameOf name, by simp [containerDir], hrootfs⟩, hunused⟩

theorem find_removeAll (tree : Tree) (target : Option Path) (p : Path) :
    (removeAll tree target).find p =
      if ∃ t, target = some t ∧ t <+: p then none else tree.find p := by
  cases target with
  | none => simp [removeAll]
  | some t => simp [removeAll, FileTree.find_discard]

theorem find_rmdir (tree : Tree) (target : Option Path) (p : Path) :
    (rmdir tree target).find p = if emptied tree target = some p then none else tree.find p := by
  unfold rmdir
  split
  · next t ht =>
    rw [ht, FileTree.find_discard]
    by_cases hp : p = t
    · simp [hp]
    · simp [hp, Ne.symm hp]
  · next ht => simp [ht]

/-- What an uninstall removes. -/
def Gone (phone : Phone) (info : Info) (p : Path) : Prop :=
  (∃ target, externalRootfs phone info = some target ∧ target <+: p) ∨
    externalFolder phone info = some p ∨
    containerDir (sanitizeContainerName info.name) <+: p

theorem find_deleteExternalRootfs (hcalled : ((rootfsPathOf phone info).all isSpace ||
      (getContainerDirectory info.name ++ ['/']).isPrefixOf (rootfsPathOf phone info)) = false)
    (p : Path) : (deleteExternalRootfs phone.tree (rootfsPathOf phone info)).find p = none ↔
      (∃ target, externalRootfs phone info = some target ∧ target <+: p) ∨
        externalFolder phone info = some p ∨ phone.tree.find p = none := by
  unfold deleteExternalRootfs externalFolder externalRootfs
  simp only [hcalled, Bool.false_or]
  cases hname : isRootfsName (nameOf (afterLastSlash (rootfsPathOf phone info))) with
  | false => simp
  | true =>
    cases hparent : (beforeLastSlash (rootfsPathOf phone info)).isEmpty with
    | true => simp [find_removeAll, Classical.or_iff_not_imp_left]
    | false =>
      simp only [if_true, Bool.not_true, Bool.false_eq_true, if_false, Bool.or_false, find_rmdir,
        find_removeAll]
      split_ifs with hfolder hrootfs
      · simp [hfolder]
      · simp [hrootfs]
      · simp [hfolder, hrootfs]

theorem find_uninstallContainer (h : uninstallContainer phone info = some after) (p : Path) :
    after.tree.find p = none ↔ Gone phone info p ∨ phone.tree.find p = none := by
  unfold uninstallContainer at h
  simp only at h
  split at h
  · cases h
  · obtain rfl := Option.some.inj h
    unfold Gone
    rw [find_removeAll]
    cases hcalled : (rootfsPathOf phone info).all isSpace ||
        (getContainerDirectory info.name ++ ['/']).isPrefixOf (rootfsPathOf phone info) with
    | true =>
      have hskip : (!(rootfsPathOf phone info).all isSpace &&
          !(getContainerDirectory info.name ++ ['/']).isPrefixOf (rootfsPathOf phone info)) =
          false := by
        rw [← Bool.not_or, hcalled]
        rfl
      simp [hskip, externalRootfs, externalFolder, hcalled, Classical.or_iff_not_imp_left]
    | false =>
      have hcall : (!(rootfsPathOf phone info).all isSpace &&
          !(getContainerDirectory info.name ++ ['/']).isPrefixOf (rootfsPathOf phone info)) =
          true := by
        rw [← Bool.not_or, hcalled]
        rfl
      rw [if_pos hcall]
      have hexternal := find_deleteExternalRootfs hcalled p
      simp only [ite_eq_left_iff, hexternal, Option.some.injEq, exists_eq_left']
      rw [← Classical.or_iff_not_imp_left, or_assoc, or_assoc, or_left_comm]
      exact or_congr_right or_left_comm

/-- Only what is there is emptied. -/
theorem isSome_externalFolder (h : externalFolder phone info = some target) :
    (phone.tree.find target).isSome = true := by
  unfold externalFolder at h
  simp only at h
  split at h
  · cases h
  · have hdir : (removeAll phone.tree (externalRootfs phone info)).find target = some .dir := by
      obtain ⟨-, hemptied⟩ := Option.filter_eq_some_iff.1 h
      rw [Bool.and_eq_true] at hemptied
      exact FileTree.isDir_iff.1 hemptied.1
    rw [find_removeAll] at hdir
    split at hdir
    · cases hdir
    · rw [hdir]
      rfl

theorem running_uninstallContainer (h : uninstallContainer phone info = some after) :
    after.running = phone.running.filter (·.1 ≠ sanitizeContainerName info.name) := by
  unfold uninstallContainer at h
  simp only at h
  split at h
  · cases h
  · obtain rfl := Option.some.inj h
    rfl

end Gone

/-! ## Exactly when it is safe -/

section Exact

variable {phone after : Phone} {dir : Text} {info : Info}

/-- A phone with two containers; the configuration in the directory `a` says that its name
is `b`. -/
def misnamed : Phone where
  tree := ⟨[["data"], ["data", "local"], ["data", "local", "Droidspaces"], containersBase,
    containerDir "a".toList, containerDir "a".toList ++ ["rootfs"], containerDir "b".toList,
    containerDir "b".toList ++ ["rootfs"], []].map fun p => (p, .dir)⟩
  configs dir :=
    if dir = "a".toList then
      some ⟨some "b".toList, some "/data/local/Droidspaces/Containers/a/rootfs".toList, false⟩
    else if dir = "b".toList then
      some ⟨some "b".toList, some "/data/local/Droidspaces/Containers/b/rootfs".toList, false⟩
    else none
  running := []

/-- What the app lists for the directory `a`. -/
def misnamedInfo : Info := ⟨"b".toList, "/data/local/Droidspaces/Containers/a/rootfs".toList⟩

/-- A phone with one container, whose rootfs is in its directory. -/
def alone : Phone where
  tree := ⟨[["data"], ["data", "local"], ["data", "local", "Droidspaces"], containersBase,
    containerDir "b".toList, containerDir "b".toList ++ ["rootfs"], []].map fun p => (p, .dir)⟩
  configs dir :=
    if dir = "b".toList then
      some ⟨some "b".toList, some "/data/local/Droidspaces/Containers/b/rootfs".toList, false⟩
    else none
  running := []

def aloneInfo : Info := ⟨"b".toList, "/data/local/Droidspaces/Containers/b/rootfs".toList⟩

end Exact

end Droidspaces.Uninstall
