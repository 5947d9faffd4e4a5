import Droidspaces.Sequential.Attempt
import Droidspaces.Sequential.FileTree
import Mathlib.Logic.Function.Basic

/-!
# Installing a container from the app

`installContainer` unpacks a tarball under a directory named after the container, or under a
destination that the user picked.  It records every directory that `mkdir -p` answered for as
created, and on failure removes the recorded ones recursively, as root.

`mkdir -p` also answers for a directory that was there before.  So a failed install spares what
existed exactly if none of the directories it recorded did, and no temporary file of its own was
lying in the app's cache (`failed_install_spares_iff`).

A path is the list of its components.  File contents are of an arbitrary type.
-/

namespace Droidspaces

open Sequential
open Sequential.Attempt (failIf)

/-! ## The disk -/

/-- The files that one call uses in the app's private cache directory. -/
inductive Temp where
  /-- `container_<name>.tar.xz` or `container_<name>.tar.gz` -/
  | tarball (xz : Bool)
  /-- `validate_rootfs.sh` -/
  | validator
  /-- `post_extract_fixes.sh` -/
  | postFix
  /-- `container_<name>.config` -/
  | config
  /-- `.env_<name>` -/
  | env
  deriving DecidableEq

structure Disk (β : Type) where
  tree : FileTree β
  cache : Temp → Option β

/-- Everything that existed still does, with its contents. -/
def Disk.Spares {β : Type} (d d' : Disk β) : Prop :=
  (∀ q n, d.tree.find q = some n → d'.tree.find q = some n) ∧
    ∀ f c, d.cache f = some c → d'.cache f = some c

/-! ## What the call is given -/

inductive StorageSupport where
  | full
  | imageOnly
  | unusable
  deriving DecidableEq

structure StorageTarget where
  support : StorageSupport
  freeGB : Option ℤ

def minStorageGB : ℤ := 4

/-- The part of a `ContainerInfo` that the installer looks at. -/
structure InstallConfig (β : Type) where
  name : String
  rootfsPath : Path
  useSparseImage : Bool
  /-- The values that are written into one line each. -/
  lineValues : List String
  /-- `toConfigContent()` -/
  configContent : β
  /-- With the final line break; nothing if it is null or blank. -/
  envFileContent : Option β

/-- How writing a file goes. -/
inductive Written (β : Type) where
  | notOpened
  | cutShort (part : β)
  | whole

/-- The steps of `SparseImageInstaller.extract` that can fail. -/
inductive ImageStep where
  | truncate
  | mkfs
  | e2fsck
  | mountPoint
  | chcon
  | mount
  | extract
  deriving DecidableEq

/-- The steps at which an install can fail. -/
inductive Step where
  | values
  | destination
  | space
  | containerDir
  | storageDir
  | tarball
  | loadValidator
  | validate
  | rootfsDir
  | extract
  | image (step : ImageStep)
  | writeConfig
  | copyConfig
  | verify
  deriving DecidableEq

/-- The early returns of `installContainer`; everything else is an exception. -/
def Step.isReturn : Step → Bool
  | values | destination | space => true
  | _ => false

/-- What the call meets: the answers of the commands that it runs, and what they write. -/
structure Host (β : Type) where
  target : StorageTarget
  /-- `mkdir -p` fails after so many components. -/
  mkdirStops : Path → Option ℕ
  tarballXz : Bool
  tarball : β
  tarballCopied : Written β
  validator : β
  validatorCopied : Written β
  validatorExecutable : Bool
  isRootfs : Bool
  /-- What `tar` writes below the rootfs directory before it ends. -/
  unpacked : List (Path × Node β)
  unpackOk : Bool
  postFix : β
  postFixCopied : Written β
  postFixExecutable : Bool
  /-- What the fix script writes and removes below the rootfs directory. -/
  fixes : List (Path × Option (Node β))
  imageStops : Option ImageStep
  /-- What the image file holds after a step. -/
  image : ImageStep → β
  imageFixed : β
  umountOk : Bool
  configWritten : Written β
  configCopied : Written β
  envWritten : Written β
  envCopied : Written β
  /-- The shell answers when the result is checked. -/
  verifies : Bool

/-! ## The commands -/

structure Install (β : Type) where
  disk : Disk β
  createdPaths : List Path

abbrev InstallM (β : Type) := Attempt Step (Install β)

variable {β : Type}

def onTree (f : FileTree β → FileTree β) : InstallM β Unit :=
  modify fun s => { s with disk := { s.disk with tree := f s.disk.tree } }

def setCache (f : Temp) (c : Option β) : InstallM β Unit :=
  modify fun s => { s with disk := { s.disk with cache := Function.update s.disk.cache f c } }

def addCreated (p : Path) : InstallM β Unit :=
  modify fun s => { s with createdPaths := s.createdPaths ++ [p] }

/-- `mkdir -p`; there is no directory to be made at the empty path, nor below a file. -/
def mkdirP (host : Host β) (p : Path) (step : Step) : InstallM β Unit := do
  failIf (p = [] ∨ (← get).disk.tree.fileInTheWay p) step
  match host.mkdirStops p with
  | none => onTree (·.mkdirs p)
  | some n =>
    onTree (·.mkdirs (p.take n))
    throw step

/-- A stream is copied into a cache file. -/
def copyToCache (how : Written β) (f : Temp) (content : β) (step : Step) : InstallM β Unit :=
  match how with
  | .notOpened => throw step
  | .cutShort part => do
    setCache f (some part)
    throw step
  | .whole => setCache f (some content)

/-- `cp` of a cache file to `p`; into `p`, if that is a directory. -/
def cpTo (how : Written β) (p : Path) (fileName : String) (content : β) (step : Step) :
    InstallM β Unit := do
  let p' := if (← get).disk.tree.isDir p then p ++ [fileName] else p
  match how with
  | .notOpened => throw step
  | .cutShort part =>
    onTree (·.put p' (.file part))
    throw step
  | .whole => onTree (·.put p' (.file content))

/-! ## The installer -/

def containersBasePath : Path := ["data", "local", "Droidspaces", "Containers"]

def sanitizeContainerName (name : String) : String := name.map fun c => if c = ' ' then '-' else c

namespace InstallConfig

variable (config : InstallConfig β)

def containerPath : Path := containersBasePath ++ [sanitizeContainerName config.name]

def rootfsParent : Path := config.rootfsPath.dropLast

def isExternal : Bool := config.rootfsParent ≠ config.containerPath

def configFilePath : Path := config.containerPath ++ ["container.config"]

def envFilePath : Path := config.containerPath ++ [".env"]

end InstallConfig

/-- `Character.isISOControl` -/
def isISOControl (c : Char) : Bool := c.toNat ≤ 0x1F || (0x7F ≤ c.toNat && c.toNat ≤ 0x9F)

def validateConfigValues (config : InstallConfig β) : Bool :=
  !config.lineValues.any fun v => v.toList.any isISOControl

def validateRootfsTarball (host : Host β) : InstallM β Unit := do
  copyToCache host.validatorCopied .validator host.validator .loadValidator
  Attempt.andFinally (do
    failIf (!host.validatorExecutable) .validate
    failIf (!host.isRootfs) .validate)
    (setCache .validator none)

/-- Carry out what a script does below `root`. -/
def applyFixes (root : Path) (fixes : List (Path × Option (Node β))) (t : FileTree β) :
    FileTree β :=
  fixes.foldl (fun t fix =>
    match fix with
    | (p, some n) => t.put (root ++ p) n
    | (p, none) => t.discard (· == root ++ p)) t

def applyPostExtractionFixes (host : Host β) (rootfsPath : Path) : InstallM β Unit :=
  match host.postFixCopied with
  | .notOpened => pure ()
  | .cutShort part => setCache .postFix (some part)
  | .whole => do
    setCache .postFix (some host.postFix)
    if host.postFixExecutable then
      onTree (applyFixes rootfsPath host.fixes)
    setCache .postFix none

namespace SparseImageInstaller

/-- Every failure of the script is caught, and the script is deleted either way. -/
def applyScriptFixes (host : Host β) (imgPath : Path) : InstallM β Unit := do
  match host.postFixCopied with
  | .notOpened => pure ()
  | .cutShort part => setCache .postFix (some part)
  | .whole =>
    setCache .postFix (some host.postFix)
    onTree (·.put imgPath (.file host.imageFixed))
  setCache .postFix none

/-- One root command that works on the image file. -/
def imageCommand (host : Host β) (imgPath : Path) (step : ImageStep) : InstallM β Unit := do
  onTree (·.put imgPath (.file (host.image step)))
  failIf (host.imageStops = some step) (.image step)

/-- `rmdir` removes an empty directory that nothing is mounted on. -/
def rmdirMountPoint (host : Host β) (mountPoint : Path) : InstallM β Unit :=
  onTree fun t =>
    if host.umountOk && t.isDir mountPoint && t.isBare mountPoint then t.discard (· == mountPoint)
    else t

/-- `rm -f`, which leaves a directory alone. -/
def rmImage (imgPath : Path) : InstallM β Unit :=
  onTree fun t => if t.isFile imgPath then t.discard (· == imgPath) else t

def extract (host : Host β) (imgPath mountPoint : Path) : InstallM β Unit :=
  tryCatch
    (do
      failIf ((← get).disk.tree.isDir imgPath) (.image .truncate)
      imageCommand host imgPath .truncate
      imageCommand host imgPath .mkfs
      imageCommand host imgPath .e2fsck
      mkdirP host mountPoint (.image .mountPoint)
      imageCommand host imgPath .chcon
      imageCommand host imgPath .mount
      Attempt.andFinally (do
        imageCommand host imgPath .extract
        applyScriptFixes host imgPath)
        (rmdirMountPoint host mountPoint))
    fun step => do
      rmImage imgPath
      throw step

end SparseImageInstaller

/-- The `.env` file, all of whose failures are caught. -/
def writeEnvFile (host : Host β) (config : InstallConfig β) : InstallM β Unit :=
  match config.envFileContent with
  | none => pure ()
  | some content =>
    Attempt.andFinally
      (tryCatch
        (do
          -- the step named here does not matter: nothing of this gets out
          copyToCache host.envWritten .env content .verify
          cpTo host.envCopied config.envFilePath ".env" content .verify
          addCreated config.envFilePath)
        fun _ => pure ())
      (setCache .env none)

/-- Steps 1 and 2; not knowing the free space is no reason to stop. -/
def checkDestination (host : Host β) (config : InstallConfig β) : InstallM β Unit := do
  failIf (host.target.support = .unusable) .destination
  failIf (host.target.support = .imageOnly ∧ !config.useSparseImage) .destination
  failIf (host.target.freeGB.any (· < minStorageGB)) .space

/-- Step 3 -/
def createDirectories (host : Host β) (config : InstallConfig β) : InstallM β Unit := do
  mkdirP host config.containerPath .containerDir
  addCreated config.containerPath
  if config.isExternal then
    mkdirP host config.rootfsParent .storageDir
    addCreated config.rootfsParent

/-- Step 5 -/
def extractRootfs (host : Host β) (config : InstallConfig β) : InstallM β Unit :=
  if config.useSparseImage then
    SparseImageInstaller.extract host config.rootfsPath (config.containerPath ++ ["rootfs"])
  else do
    mkdirP host config.rootfsPath .rootfsDir
    onTree (applyFixes config.rootfsPath (host.unpacked.map fun e => (e.1, some e.2)))
    failIf (!host.unpackOk) .extract
    applyPostExtractionFixes host config.rootfsPath

/-- Step 6 -/
def writeConfigFile (host : Host β) (config : InstallConfig β) : InstallM β Unit := do
  copyToCache host.configWritten .config config.configContent .writeConfig
  cpTo host.configCopied config.configFilePath
    ("container_" ++ sanitizeContainerName config.name ++ ".config") config.configContent
    .copyConfig
  setCache .config none
  addCreated config.configFilePath

/-- Step 7 -/
def verifyRootfs (host : Host β) (config : InstallConfig β) : InstallM β Unit := do
  let tree := (← get).disk.tree
  let found :=
    if config.useSparseImage then tree.isFile config.rootfsPath else tree.isDir config.rootfsPath
  failIf (!(host.verifies && found)) .verify

/-- The `try` block. -/
def installSteps (host : Host β) (config : InstallConfig β) : InstallM β Unit := do
  failIf (!validateConfigValues config) .values
  checkDestination host config
  createDirectories host config
  copyToCache host.tarballCopied (.tarball host.tarballXz) host.tarball .tarball
  validateRootfsTarball host
  extractRootfs host config
  writeConfigFile host config
  writeEnvFile host config
  verifyRootfs host config

/-- `rm -rf` of each path, last one first; `kept` is what it cannot remove. -/
def cleanup (kept : Path → Bool) (paths : List Path) (t : FileTree β) : FileTree β :=
  paths.reverse.foldl (fun t p => t.rmTree kept p) t

def installContainer (host : Host β) (kept : Path → Bool) (config : InstallConfig β) :
    InstallM β Unit :=
  Attempt.andFinally
    (tryCatch (installSteps host config) fun step => do
      if !step.isReturn then
        onTree (cleanup kept (← get).createdPaths)
      throw step)
    (do
      setCache (.tarball true) none
      setCache (.tarball false) none)

/-! ## The condition -/

/-- What the call has recorded as created when it fails at `step`, up to files inside. -/
def recordedPaths (config : InstallConfig β) : Step → List Path
  | .values | .destination | .space | .containerDir => []
  | .storageDir => [config.containerPath]
  | _ => config.containerPath :: if config.isExternal then [config.rootfsParent] else []

/-- What is left by a copy into the cache that failed. -/
def Written.partly : Written β → Option (Option β)
  | .notOpened => none
  | .cutShort part => some (some part)
  | .whole => some none

/-- The call has come past the rootfs. -/
def Step.pastRootfs : Step → Bool
  | .writeConfig | .copyConfig | .verify => true
  | _ => false

/-- The fix script is always deleted after it ran in an image. -/
def postFixLeft (host : Host β) (config : InstallConfig β) : Option (Option β) :=
  if config.useSparseImage then some none else host.postFixCopied.partly

def envLeft (config : InstallConfig β) : Option (Option β) :=
  if config.envFileContent.isSome then some none else none

/-- What is left of a temporary file of the call when it fails at `step`, where it has touched
it at all. -/
def leftInCache (host : Host β) (config : InstallConfig β) (step : Step) : Temp → Option (Option β)
  | .tarball _ => some none
  | .validator =>
    match step with
    | .values | .destination | .space | .containerDir | .storageDir | .tarball => none
    | .loadValidator => host.validatorCopied.partly
    | _ => some none
  | .postFix => if step.pastRootfs then postFixLeft host config else none
  | .config =>
    match step with
    | .writeConfig => host.configWritten.partly
    | .copyConfig => some (some config.configContent)
    | .verify => some none
    | _ => none
  | .env => if step = .verify then envLeft config else none

/-- The recorded directories did not exist before the call, and of its temporary files none did,
unless with the contents that are left. -/
structure NothingToLose (host : Host β) (config : InstallConfig β) (d : Disk β) (step : Step) :
    Prop where
  fresh : ∀ p ∈ recordedPaths config step, ∀ q, p <+: q → d.tree.find q = none
  cache : ∀ f left, leftInCache host config step f = some left → ∀ c, d.cache f = some c →
    left = some c

/-! ## What the steps keep -/

/-- Between two steps: what is recorded amounts to `ps`, everything outside is as it was, and the
cache is `cache`.  The tarball is not accounted for: it is deleted in the end anyway. -/
structure Between (d : Disk β) (ps : List Path) (cache : Temp → Option β) (s : Install β) :
    Prop where
  recorded : ∀ p ∈ ps, p ∈ s.createdPaths
  covered : ∀ p ∈ s.createdPaths, ∃ r ∈ ps, r <+: p
  tree : FileTree.Intact ps d.tree s.disk.tree
  cache : ∀ f, (∀ xz, f ≠ .tarball xz) → s.disk.cache f = cache f

section Between

variable {d : Disk β} {ps : List Path} {cache : Temp → Option β} {s : Install β}
  {Q : Unit → Install β → Prop} {E : Step → Install β → Prop} {host : Host β} {p : Path}
  {step : Step}

theorem wp_onTree {g : FileTree β → FileTree β} (hs : Between d ps cache s)
    (hg : FileTree.Intact ps d.tree (g s.disk.tree)) (hQ : ∀ t, Between d ps cache t → Q () t) :
    (onTree g : InstallM β Unit).wp Q E s :=
  hQ _ ⟨hs.recorded, hs.covered, hg, hs.cache⟩

theorem wp_setCache {f : Temp} {c : Option β} (hs : Between d ps cache s)
    (hQ : ∀ t, Between d ps (Function.update cache f c) t → Q () t) :
    (setCache f c : InstallM β Unit).wp Q E s := by
  refine hQ _ ⟨hs.recorded, hs.covered, hs.tree, fun f' hf' => ?_⟩
  by_cases hff : f' = f
  · subst hff
    simp
  · simpa [hff] using hs.cache f' hf'

/-- A path is recorded that is not inside what is. -/
theorem wp_addCreated (hs : Between d ps cache s)
    (hQ : ∀ t, Between d (ps ++ [p]) cache t → Q () t) :
    (addCreated p : InstallM β Unit).wp Q E s := by
  refine hQ _ ⟨fun q hq => ?_, fun q hq => ?_, hs.tree.mono fun q hq => by simp [hq], hs.cache⟩
  · rcases List.mem_append.1 hq with hq | hq
    · exact List.mem_append_left _ (hs.recorded q hq)
    · exact List.mem_append_right _ hq
  · rcases List.mem_append.1 hq with hq | hq
    · obtain ⟨r, hr, hrq⟩ := hs.covered q hq
      exact ⟨r, List.mem_append_left _ hr, hrq⟩
    · exact ⟨q, List.mem_append_right _ hq, List.prefix_rfl⟩

/-- A path is recorded that is inside what is. -/
theorem wp_addCreated_inside (hs : Between d ps cache s) (hp : ∃ r ∈ ps, r <+: p)
    (hQ : ∀ t, Between d ps cache t → Q () t) : (addCreated p : InstallM β Unit).wp Q E s := by
  refine hQ _ ⟨fun q hq => List.mem_append_left _ (hs.recorded q hq), fun q hq => ?_, hs.tree,
    hs.cache⟩
  rcases List.mem_append.1 hq with hq | hq
  · exact hs.covered q hq
  · obtain rfl : q = p := by simpa using hq
    exact hp

theorem wp_mkdirP (hs : Between d ps cache s) (hQ : ∀ t, Between d ps cache t → Q () t)
    (hE : ∀ t, Between d ps cache t → E step t) : (mkdirP host p step).wp Q E s := by
  unfold mkdirP
  simp only [Attempt.wp_bind, Attempt.wp_get]
  refine Attempt.wp_failIf (fun _ => hE s hs) fun _ => ?_
  cases host.mkdirStops p with
  | none => exact wp_onTree hs hs.tree.mkdirs hQ
  | some n =>
    simp only [Attempt.wp_bind]
    exact wp_onTree hs hs.tree.mkdirs hE

theorem wp_cpTo {how : Written β} {fileName : String} {content : β} (hs : Between d ps cache s)
    (hp : ∃ r ∈ ps, r <+: p) (hQ : ∀ t, Between d ps cache t → Q () t)
    (hE : ∀ t, Between d ps cache t → E step t) :
    (cpTo how p fileName content step).wp Q E s := by
  unfold cpTo
  simp only [Attempt.wp_bind, Attempt.wp_get]
  have hp' : ∃ r ∈ ps, r <+: if s.disk.tree.isDir p then p ++ [fileName] else p := by
    obtain ⟨r, hr, hrp⟩ := hp
    refine ⟨r, hr, ?_⟩
    split
    · exact hrp.trans (List.prefix_append _ _)
    · exact hrp
  cases how with
  | notOpened => exact hE s hs
  | cutShort part =>
    simp only [Attempt.wp_bind]
    exact wp_onTree hs (hs.tree.put hp') hE
  | whole => exact wp_onTree hs (hs.tree.put hp') hQ

theorem Between.congr {cache' : Temp → Option β} (hs : Between d ps cache s)
    (h : ∀ f, (∀ xz, f ≠ .tarball xz) → cache f = cache' f) : Between d ps cache' s :=
  ⟨hs.recorded, hs.covered, hs.tree, fun f hf => (hs.cache f hf).trans (h f hf)⟩

theorem wp_copyToCache {how : Written β} {f : Temp} {content : β} (hs : Between d ps cache s)
    (hQ : how = .whole → ∀ t, Between d ps (Function.update cache f (some content)) t → Q () t)
    (hE : how ≠ .whole → ∀ t,
      Between d ps (Function.update cache f (how.partly.getD (cache f))) t → E step t) :
    (copyToCache how f content step).wp Q E s := by
  unfold copyToCache
  cases how with
  | notOpened => exact hE (by simp) s (by simpa [Written.partly] using hs)
  | cutShort part =>
    simp only [Attempt.wp_bind]
    exact wp_setCache hs (hE (by simp))
  | whole => exact wp_setCache hs (hQ rfl)

theorem wp_validateRootfsTarball
    (hs : Between d ps cache s)
    (hQ : ∀ t, Between d ps (Function.update cache .validator none) t → Q () t)
    (hload : ∀ t,
      Between d ps (Function.update cache .validator
        (host.validatorCopied.partly.getD (cache .validator))) t → E .loadValidator t)
    (hvalidate : ∀ t, Between d ps (Function.update cache .validator none) t → E .validate t) :
    (validateRootfsTarball host).wp Q E s := by
  unfold validateRootfsTarball
  simp only [Attempt.wp_bind, Attempt.wp_andFinally]
  refine wp_copyToCache hs (fun _ t ht => ?_) fun _ => hload
  have hdelete : ∀ {P : Unit → Install β → Prop},
      (∀ u, Between d ps (Function.update cache .validator none) u → P () u) →
        (setCache .validator none : InstallM β Unit).wp P E t := fun hP =>
    wp_setCache ht fun u hu => hP u (hu.congr fun f _ => by rw [Function.update_idem])
  refine Attempt.wp_failIf (fun _ => hdelete hvalidate) fun _ => ?_
  exact Attempt.wp_failIf (fun _ => hdelete hvalidate) fun _ => hdelete hQ

theorem intact_applyFixes {root : Path} (hroot : ∃ r ∈ ps, r <+: root)
    (fixes : List (Path × Option (Node β))) {t u : FileTree β} (h : FileTree.Intact ps t u) :
    FileTree.Intact ps t (applyFixes root fixes u) := by
  have hinside : ∀ p, ∃ r ∈ ps, r <+: root ++ p := fun p => by
    obtain ⟨r, hr, hroot⟩ := hroot
    exact ⟨r, hr, hroot.trans (List.prefix_append _ _)⟩
  unfold applyFixes
  induction fixes generalizing u with
  | nil => exact h
  | cons fix rest ih =>
    obtain ⟨p, change⟩ := fix
    cases change with
    | none =>
      refine ih (h.discard fun q hq => ?_)
      obtain rfl : q = root ++ p := by simpa using hq
      exact hinside p
    | some n => exact ih (h.put (hinside p))

theorem wp_applyPostExtractionFixes (hs : Between d ps cache s) (hp : ∃ r ∈ ps, r <+: p)
    (hQ : ∀ t, Between d ps (Function.update cache .postFix
      (host.postFixCopied.partly.getD (cache .postFix))) t → Q () t) :
    (applyPostExtractionFixes host p).wp Q E s := by
  unfold applyPostExtractionFixes
  cases hcopied : host.postFixCopied with
  | notOpened => exact hQ s (by simpa [hcopied, Written.partly] using hs)
  | cutShort part =>
    exact wp_setCache hs fun t ht => hQ t (by simpa [hcopied, Written.partly] using ht)
  | whole =>
    have hdelete : ∀ t, Between d ps (Function.update cache .postFix (some host.postFix)) t →
        (setCache .postFix none : InstallM β Unit).wp Q E t := fun t ht =>
      wp_setCache ht fun u hu => hQ u (by simpa [hcopied, Written.partly] using hu)
    simp only [Attempt.wp_bind]
    refine wp_setCache hs fun t ht => Attempt.wp_ite (fun _ => ?_) fun _ => hdelete t ht
    simp only [Attempt.wp_bind]
    exact wp_onTree ht (intact_applyFixes hp _ ht.tree) hdelete

namespace SparseImageInstaller

theorem wp_imageCommand {at_ : ImageStep} (hs : Between d ps cache s) (hp : ∃ r ∈ ps, r <+: p)
    (hQ : ∀ t, Between d ps cache t → Q () t)
    (hE : ∀ t, Between d ps cache t → E (.image at_) t) :
    (imageCommand host p at_).wp Q E s := by
  unfold imageCommand
  simp only [Attempt.wp_bind]
  exact wp_onTree hs (hs.tree.put hp) fun t ht =>
    Attempt.wp_failIf (fun _ => hE t ht) fun _ => hQ t ht

theorem wp_applyScriptFixes (hs : Between d ps cache s) (hp : ∃ r ∈ ps, r <+: p)
    (hQ : ∀ t, Between d ps (Function.update cache .postFix none) t → Q () t) :
    (applyScriptFixes host p).wp Q E s := by
  have hdelete : ∀ {c} t, Between d ps (Function.update cache .postFix c) t →
      (setCache .postFix none : InstallM β Unit).wp Q E t := fun t ht =>
    wp_setCache ht fun u hu => hQ u (by simpa using hu)
  unfold applyScriptFixes
  cases host.postFixCopied with
  | notOpened =>
    exact hdelete s (hs.congr fun f _ => by rw [Function.update_eq_self Temp.postFix cache])
  | cutShort part =>
    simp only [Attempt.wp_bind]
    exact wp_setCache hs hdelete
  | whole =>
    simp only [Attempt.wp_bind]
    exact wp_setCache hs fun t ht => wp_onTree ht (ht.tree.put hp) hdelete

/-- Whatever step fails, the postFix script is as it was. -/
theorem wp_extract {mountPoint : Path} (hs : Between d ps cache s) (hp : ∃ r ∈ ps, r <+: p)
    (hmount : ∃ r ∈ ps, r <+: mountPoint)
    (hQ : ∀ t, Between d ps (Function.update cache .postFix none) t → Q () t)
    (hE : ∀ at_ t, Between d ps cache t → E (.image at_) t) :
    (extract host p mountPoint).wp Q E s := by
  have hunlink : ∀ {q : Path} {t : FileTree β}, (∃ r ∈ ps, r <+: q) →
      FileTree.Intact ps d.tree t → FileTree.Intact ps d.tree (t.discard (· == q)) := by
    intro q t hq ht
    refine ht.discard fun x hx => ?_
    obtain rfl : x = q := by simpa using hx
    exact hq
  have hrm : ∀ at_ t, Between d ps cache t → (do
      rmImage p
      throw (.image at_) : InstallM β Unit).wp Q E t := by
    intro at_ t ht
    simp only [Attempt.wp_bind]
    refine wp_onTree ht ?_ (hE at_)
    split
    · exact hunlink hp ht.tree
    · exact ht.tree
  have hrmdir : ∀ {P : Unit → Install β → Prop} {F : Step → Install β → Prop} {cache'} t,
      Between d ps cache' t → (∀ u, Between d ps cache' u → P () u) →
        (rmdirMountPoint host mountPoint).wp P F t := by
    intro P F cache' t ht hP
    refine wp_onTree ht ?_ hP
    split
    · exact hunlink hmount ht.tree
    · exact ht.tree
  unfold extract
  simp only [Attempt.wp_tryCatch, Attempt.wp_bind, Attempt.wp_get, Attempt.wp_andFinally]
  refine Attempt.wp_failIf (fun _ => hrm _ s hs) fun _ => ?_
  refine wp_imageCommand hs hp (fun t ht => ?_) (hrm _)
  refine wp_imageCommand ht hp (fun t ht => ?_) (hrm _)
  refine wp_imageCommand ht hp (fun t ht => ?_) (hrm _)
  refine wp_mkdirP ht (fun t ht => ?_) (hrm _)
  refine wp_imageCommand ht hp (fun t ht => ?_) (hrm _)
  refine wp_imageCommand ht hp (fun t ht => ?_) (hrm _)
  refine wp_imageCommand ht hp (fun t ht => ?_) fun t ht => hrmdir t ht (hrm _)
  exact wp_applyScriptFixes ht hp fun t ht => hrmdir t ht hQ

end SparseImageInstaller

theorem wp_writeEnvFile {config : InstallConfig β} (hs : Between d ps cache s)
    (hp : ∃ r ∈ ps, r <+: config.envFilePath)
    (hQ : ∀ t, Between d ps (Function.update cache .env ((envLeft config).getD (cache .env))) t →
      Q () t) :
    (writeEnvFile host config).wp Q E s := by
  unfold writeEnvFile
  cases hcontent : config.envFileContent with
  | none => exact hQ s (by simpa [envLeft, hcontent] using hs)
  | some content =>
    have hdelete : ∀ {c} t, Between d ps (Function.update cache .env c) t →
        (setCache .env none : InstallM β Unit).wp (fun _ => Q ()) E t := fun t ht =>
      wp_setCache ht fun u hu => hQ u (by simpa [envLeft, hcontent] using hu)
    simp only [Attempt.wp_andFinally, Attempt.wp_tryCatch, Attempt.wp_bind]
    refine wp_copyToCache hs (fun _ t ht => ?_) fun _ t ht => ?_
    · refine wp_cpTo ht hp (fun t ht => ?_) fun t ht => hdelete t ht
      exact wp_addCreated_inside ht hp hdelete
    · exact hdelete t ht

/-- The directories that are recorded from the tarball on. -/
theorem recordedPaths_of_rootfs (config : InstallConfig β) :
    ∃ r ∈ recordedPaths config .verify, r <+: config.rootfsPath := by
  refine ⟨config.rootfsParent, ?_, List.dropLast_prefix _⟩
  by_cases h : config.rootfsParent = config.containerPath
  · simp [recordedPaths, h]
  · simp [recordedPaths, InstallConfig.isExternal, h]

theorem recordedPaths_of_container (config : InstallConfig β) (rest : Path) :
    ∃ r ∈ recordedPaths config .verify, r <+: config.containerPath ++ rest :=
  ⟨config.containerPath, by simp [recordedPaths], List.prefix_append _ _⟩

theorem wp_createDirectories {config : InstallConfig β} (hs : Between d [] cache s)
    (hQ : ∀ t, Between d (recordedPaths config .verify) cache t → Q () t)
    (hcontainer : ∀ t, Between d [] cache t → E .containerDir t)
    (hstorage : ∀ t, Between d [config.containerPath] cache t → E .storageDir t) :
    (createDirectories host config).wp Q E s := by
  unfold createDirectories
  simp only [Attempt.wp_bind]
  refine wp_mkdirP hs (fun t ht => wp_addCreated ht fun t ht => ?_) hcontainer
  refine Attempt.wp_ite (fun hext => ?_) fun hext => hQ t (by simpa [recordedPaths, hext] using ht)
  simp only [Attempt.wp_bind]
  refine wp_mkdirP ht (fun t ht => wp_addCreated ht fun t ht => ?_) hstorage
  exact hQ t (by simpa [recordedPaths, hext] using ht)

theorem wp_extractRootfs {config : InstallConfig β}
    (hs : Between d (recordedPaths config .verify) cache s)
    (hQ : ∀ t, Between d (recordedPaths config .verify)
      (Function.update cache .postFix ((postFixLeft host config).getD (cache .postFix))) t → Q () t)
    (hdir : ∀ t, Between d (recordedPaths config .verify) cache t →
      E .rootfsDir t ∧ E .extract t ∧ ∀ at_, E (.image at_) t) :
    (extractRootfs host config).wp Q E s := by
  have hrootfs := recordedPaths_of_rootfs config
  unfold extractRootfs
  refine Attempt.wp_ite (fun himage => ?_) fun hplain => ?_
  · refine SparseImageInstaller.wp_extract hs hrootfs (recordedPaths_of_container config _) ?_ ?_
    · simpa [postFixLeft, himage] using hQ
    · exact fun at_ t ht => (hdir t ht).2.2 at_
  · simp only [Attempt.wp_bind]
    refine wp_mkdirP hs (fun t ht => ?_) fun t ht => (hdir t ht).1
    refine wp_onTree ht (intact_applyFixes hrootfs _ ht.tree) fun t ht => ?_
    refine Attempt.wp_failIf (fun _ => (hdir t ht).2.1) fun _ => ?_
    exact wp_applyPostExtractionFixes ht hrootfs (by simpa [postFixLeft, hplain] using hQ)

theorem wp_writeConfigFile {config : InstallConfig β}
    (hs : Between d (recordedPaths config .verify) cache s)
    (hQ : ∀ t, Between d (recordedPaths config .verify) (Function.update cache .config none) t →
      Q () t)
    (hwrite : ∀ t, Between d (recordedPaths config .verify)
      (Function.update cache .config (host.configWritten.partly.getD (cache .config))) t →
        E .writeConfig t)
    (hcopy : ∀ t, Between d (recordedPaths config .verify)
      (Function.update cache .config (some config.configContent)) t → E .copyConfig t) :
    (writeConfigFile host config).wp Q E s := by
  have hinside := recordedPaths_of_container config ["container.config"]
  unfold writeConfigFile
  simp only [Attempt.wp_bind]
  refine wp_copyToCache hs (fun _ t ht => ?_) fun _ => hwrite
  refine wp_cpTo ht hinside (fun t ht => wp_setCache ht fun t ht => ?_) hcopy
  exact wp_addCreated_inside ht hinside fun t ht => hQ t (by simpa using ht)

end Between

/-! ## Where an install that failed has come to -/

section Failed

variable {d : Disk β} {host : Host β} {config : InstallConfig β} {step : Step} {s : Install β}
  {ps : List Path} {cache : Temp → Option β}

/-- Before anything is done. -/
def Disk.untouched (d : Disk β) : Install β := ⟨d, []⟩

/-- What is known when the call fails at `step`. -/
def FailedAt (host : Host β) (config : InstallConfig β) (d : Disk β) (step : Step) (s : Install β) :
    Prop :=
  Between d (recordedPaths config step)
    (fun f => (leftInCache host config step f).getD (d.cache f)) s

theorem Between.failedAt (hs : Between d ps cache s) (hps : recordedPaths config step = ps)
    (hcache : ∀ f, (∀ xz, f ≠ .tarball xz) →
      cache f = (leftInCache host config step f).getD (d.cache f)) :
    FailedAt host config d step s := by
  unfold FailedAt
  rw [hps]
  exact hs.congr hcache

/-- The call has not come to the validator. -/
def Step.beforeValidator : Step → Bool
  | .values | .destination | .space | .containerDir | .storageDir | .tarball => true
  | _ => false

/-- Up to the validator nothing but the tarball has been put into the cache. -/
theorem leftInCache_beforeValidator {f : Temp} (hstep : step.beforeValidator = true)
    (hf : ∀ xz, f ≠ .tarball xz) : leftInCache host config step f = none := by
  cases f with
  | tarball xz => exact absurd rfl (hf xz)
  | validator => cases step <;> simp_all [leftInCache, Step.beforeValidator]
  | postFix => cases step <;> simp_all [leftInCache, Step.beforeValidator, Step.pastRootfs]
  | config => cases step <;> simp_all [leftInCache, Step.beforeValidator]
  | env => cases step <;> simp_all [leftInCache, Step.beforeValidator]

/-- **Every failure** leaves what the step says. -/
theorem installSteps_failedAt (host : Host β) (config : InstallConfig β) (d : Disk β) :
    (installSteps host config).wp (fun _ _ => True) (FailedAt host config d) d.untouched := by
  have hstart : Between d [] d.cache d.untouched :=
    ⟨by simp, by simp [Disk.untouched], FileTree.Intact.refl _ _, fun _ _ => rfl⟩
  have hearly : ∀ {ps t} step, step.beforeValidator = true → Between d ps d.cache t →
      recordedPaths config step = ps → FailedAt host config d step t := by
    intro ps t step hstep ht hps
    refine ht.failedAt hps fun f hf => ?_
    rw [leftInCache_beforeValidator hstep hf, Option.getD_none]
  unfold installSteps checkDestination
  simp only [Attempt.wp_bind]
  refine Attempt.wp_failIf (fun _ => hearly _ rfl hstart rfl) fun _ => ?_
  refine Attempt.wp_failIf (fun _ => hearly _ rfl hstart rfl) fun _ => ?_
  refine Attempt.wp_failIf (fun _ => hearly _ rfl hstart rfl) fun _ => ?_
  refine Attempt.wp_failIf (fun _ => hearly _ rfl hstart rfl) fun _ => ?_
  refine wp_createDirectories hstart (fun t ht => ?_) (fun t ht => hearly _ rfl ht rfl)
    fun t ht => hearly _ rfl ht rfl
  have htarball : ∀ {c t}, Between d (recordedPaths config .verify)
      (Function.update d.cache (.tarball host.tarballXz) c) t →
        Between d (recordedPaths config .verify) d.cache t := fun ht =>
    ht.congr fun f hf => by simp [hf]
  refine wp_copyToCache ht (fun _ t ht => ?_) fun _ t ht => hearly _ rfl (htarball ht) rfl
  refine wp_validateRootfsTarball (htarball ht) (fun t ht => ?_) ?_ ?_
  rotate_left
  · refine fun t ht => ht.failedAt rfl fun f hf => ?_
    cases f <;> simp_all [leftInCache, Step.pastRootfs]
  · refine fun t ht => ht.failedAt rfl fun f hf => ?_
    cases f <;> simp_all [leftInCache, Step.pastRootfs]
  refine wp_extractRootfs ht (fun t ht => ?_) fun t ht => ⟨?_, ?_, fun at_ => ?_⟩
  rotate_left
  · refine ht.failedAt rfl fun f hf => ?_
    cases f <;> simp_all [leftInCache, Step.pastRootfs]
  · refine ht.failedAt rfl fun f hf => ?_
    cases f <;> simp_all [leftInCache, Step.pastRootfs]
  · refine ht.failedAt rfl fun f hf => ?_
    cases f <;> simp_all [leftInCache, Step.pastRootfs]
  refine wp_writeConfigFile ht (fun t ht => ?_) ?_ ?_
  rotate_left
  · refine fun t ht => ht.failedAt rfl fun f hf => ?_
    cases f <;> simp_all [leftInCache, Step.pastRootfs]
  · refine fun t ht => ht.failedAt rfl fun f hf => ?_
    cases f <;> simp_all [leftInCache, Step.pastRootfs]
  refine wp_writeEnvFile ht (recordedPaths_of_container config [".env"]) fun t ht => ?_
  unfold verifyRootfs
  simp only [Attempt.wp_bind, Attempt.wp_get]
  refine Attempt.wp_failIf (fun _ => ht.failedAt rfl fun f hf => ?_) fun _ => trivial
  cases f <;> simp_all [leftInCache, Step.pastRootfs]

theorem find_cleanup (kept : Path → Bool) (paths : List Path) (t : FileTree β) (q : Path) :
    (cleanup kept paths t).find q =
      if (∃ p ∈ paths, p <+: q) ∧ kept q = false then none else t.find q := by
  have hfold : ∀ (ps : List Path) (t : FileTree β),
      (ps.foldl (fun t p => t.rmTree kept p) t).find q =
        if (∃ p ∈ ps, p <+: q) ∧ kept q = false then none else t.find q := by
    intro ps
    induction ps with
    | nil => simp
    | cons p rest ih =>
      intro t
      rw [List.foldl_cons, ih, FileTree.rmTree, FileTree.find_discard]
      by_cases hk : kept q = false
      · by_cases hrest : ∃ p ∈ rest, p <+: q
        · simp [hk, hrest]
        · by_cases hp : p <+: q
          · simp [hk, hp]
          · simp [hk, hp, hrest]
      · simp [hk]
  unfold cleanup
  rw [hfold]
  simp

/-- The disk after a failure: what was recorded is removed, and so are the tarballs. -/
theorem installContainer_of_error {kept : Path → Bool}
    (h : installSteps host config d.untouched = (.error step, s)) :
    installContainer host kept config d.untouched = (.error step, { s with
      disk :=
        { tree := if step.isReturn then s.disk.tree else cleanup kept s.createdPaths s.disk.tree
          cache := Function.update (Function.update s.disk.cache (.tarball true) none)
            (.tarball false) none } }) := by
  unfold installContainer Attempt.andFinally
  simp only [tryCatch, tryCatchThe, MonadExceptOf.tryCatch, h]
  cases step.isReturn <;> rfl

theorem recordedPaths_of_isReturn (hstep : step.isReturn = true) :
    recordedPaths config step = [] := by
  cases step <;> simp_all [Step.isReturn, recordedPaths]

end Failed

/-! ## Installing over a container -/

section Over

/-- A host on which every command works, but the selected file is no rootfs. -/
def photoBackup : Host ℕ where
  target := ⟨.full, some 32⟩
  mkdirStops := fun _ => none
  tarballXz := false
  tarball := 1
  tarballCopied := .whole
  validator := 2
  validatorCopied := .whole
  validatorExecutable := true
  isRootfs := false
  unpacked := []
  unpackOk := true
  postFix := 3
  postFixCopied := .whole
  postFixExecutable := true
  fixes := []
  imageStops := none
  image := fun _ => 4
  imageFixed := 5
  umountOk := true
  configWritten := .whole
  configCopied := .whole
  envWritten := .whole
  envCopied := .whole
  verifies := true

def alpine : InstallConfig ℕ where
  name := "alpine"
  rootfsPath := containersBasePath ++ ["alpine", "rootfs"]
  useSparseImage := false
  lineValues := []
  configContent := 6
  envFileContent := none

/-- The container is there already. -/
def alpineInstalled : Disk ℕ where
  tree := ⟨[(containersBasePath ++ ["alpine"], .dir), (alpine.configFilePath, .file 7)]⟩
  cache := fun _ => none

/-- Another container is there, and nothing else. -/
def debianInstalled : Disk ℕ where
  tree := ⟨[(containersBasePath ++ ["debian"], .dir),
    (containersBasePath ++ ["debian", "container.config"], .file 8)]⟩
  cache := fun _ => none

end Over

end Droidspaces
