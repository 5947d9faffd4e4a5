import Droidspaces.Sequential.Attempt
import Droidspaces.Sequential.FileTree

/-!
# Migrating a rootfs directory into an image

`cmd_migrate` of `sparsemgr.sh` copies `rootfs` into a new ext4 image, renames `rootfs` to
`rootfs.bak`, puts an empty directory in its place and removes `rootfs.bak`.  An EXIT trap removes
the image if anything goes wrong on the way.

Three things are not seen to.  The status of the copy is the status of `tar -x` alone, so what
`tar -c` has left out is never missed.  A `rootfs.bak` that is there already takes `rootfs` in, and
is removed with it.  And the trap is still armed while `rootfs.bak` is being removed, so that a
signal at that moment removes the other copy as well.  `migration_keeps_iff` says that there is
nothing else.

A tree is what `BASE_DIR` holds; no command of the script names a path outside it.
-/

namespace Droidspaces.SparseManager

open Sequential
open Sequential.Attempt (failIf)

/-! ## The directory -/

/-- `ROOTFS_DIR` -/
def rootfsDir : Path := ["rootfs"]

/-- `ROOTFS_IMG` -/
def rootfsImg : Path := ["rootfs.img"]

/-- `ROOTFS_SPARSE` -/
def rootfsSparse : Path := ["rootfs.sparse"]

/-- `backup_dir` -/
def backupDir : Path := ["rootfs.bak"]

structure Volume (β : Type) where
  tree : FileTree β
  /-- The file system in the image. -/
  image : FileTree β
  /-- The image is mounted on `rootfs.sparse`. -/
  mounted : Bool

/-- What a file is, besides its bytes. -/
structure Files (β : Type) where
  /-- `[ -f ]`: it is no device, FIFO or socket. -/
  regular : β → Bool
  /-- A new sparse file. -/
  sparse : β

/-! ## What the script meets -/

/-- How a command goes.  A signal ends the script, whether or not the command got its work done. -/
inductive Outcome where
  | ok
  | fails
  | signal (done : Bool)
  deriving DecidableEq

structure Answers where
  /-- `_is_mounted "$ROOTFS_DIR"` -/
  rootfsMounted : Bool
  /-- `check_migrate_requirements` -/
  toolsFound : Bool
  truncate : Outcome
  /-- The new file does not have size zero. -/
  sized : Bool
  mkfs : Outcome
  mkdir : Outcome
  mount : Outcome
  /-- What `tar -c` writes into the pipe; its own status is not looked at. -/
  archived : Path → Bool
  /-- What `tar -x` takes out of it. -/
  extracted : Path → Bool
  tarExtract : Outcome
  extracted_of_ok : tarExtract = .ok → ∀ p, extracted p = true
  /-- Either of the two attempts. -/
  umount : Outcome
  moveRootfs : Outcome
  moveSparse : Outcome
  moveBack : Outcome
  /-- A signal arrives while `rootfs.bak` is being removed. -/
  removeSignal : Bool
  /-- What is left of `rootfs.bak` after that. -/
  bakKept : Path → Bool
  /-- One of the three attempts of the trap. -/
  trapUmount : Bool
  /-- What the trap cannot remove. -/
  trapKept : Path → Bool

/-- Where the script can end before it is through. -/
inductive MigrateStep where
  | size
  | noRootfs
  | emptyRootfs
  | imgExists
  | sparseExists
  | rootfsMounted
  | tools
  | truncate
  | noFile
  | zeroSize
  | mkfs
  | mkdir
  | mount
  | tarPipe
  | umount
  | moveRootfs
  | moveSparse
  | removeBak
  deriving DecidableEq

/-- The trap is set. -/
def MigrateStep.trapped : MigrateStep → Bool
  | size | noRootfs | emptyRootfs | imgExists | sparseExists | rootfsMounted | tools => false
  | _ => true

/-! ## The script -/

section Script

variable {β : Type}

abbrev MigrateM (β : Type) := Attempt MigrateStep (Volume β)

def onTree (f : FileTree β → FileTree β) (v : Volume β) : Volume β := { v with tree := f v.tree }

/-- A command whose failure ends the script; failing, it has no effect. -/
def command (o : Outcome) (effect : Volume β → Volume β) (step : MigrateStep) :
    MigrateM β Unit := do
  match o with
  | .ok => modify effect
  | .fails => throw step
  | .signal done =>
    modify fun v => if done then effect v else v
    throw step

/-- Where `mv src dst` puts the directory `src`. -/
def mvTarget (t : FileTree β) (src dst : Path) : Path :=
  if t.isDir dst then dst ++ src.getLast?.toList else dst

/-- `rename` refuses a target that is a file or a directory with something in it. -/
def mvAllowed (t : FileTree β) (src dst : Path) : Bool :=
  (t.find (mvTarget t src dst)).isNone ||
    (t.isDir (mvTarget t src dst) && t.isBare (mvTarget t src dst))

def mvTree (src dst : Path) (t : FileTree β) : FileTree β := t.rename src (mvTarget t src dst)

/-- `_mv src dst`, for a directory. -/
def mv (src dst : Path) (o : Outcome) (step : MigrateStep) : MigrateM β Unit := do
  failIf (!mvAllowed (← get).tree src dst) step
  command o (onTree (mvTree src dst)) step

/-- `[ -f ]` -/
def isRegular (files : Files β) (t : FileTree β) (p : Path) : Bool :=
  match t.find p with
  | some (.file c) => files.regular c
  | _ => false

/-- The checks of the arguments and paths. -/
def checks (files : Files β) (a : Answers) (sizeGB : Option ℕ) : MigrateM β Unit := do
  failIf (!sizeGB.any fun gb => 4 ≤ gb && gb ≤ 512) .size
  let tree := (← get).tree
  failIf (!tree.isDir rootfsDir) .noRootfs
  failIf (tree.isBare rootfsDir) .emptyRootfs
  failIf (isRegular files tree rootfsImg) .imgExists
  failIf (tree.isDir rootfsSparse) .sparseExists
  failIf a.rootfsMounted .rootfsMounted
  failIf (!a.toolsFound) .tools

/-- Steps 1 and 2. -/
def createImage (files : Files β) (a : Answers) : MigrateM β Unit := do
  failIf ((← get).tree.isDir rootfsImg) .truncate
  command a.truncate (onTree fun t =>
    if (t.find rootfsImg).isNone then t.put rootfsImg (.file files.sparse) else t) .truncate
  failIf (!isRegular files (← get).tree rootfsImg) .noFile
  failIf (!a.sized) .zeroSize
  command a.mkfs (fun v => { v with image := ⟨[([], .dir)]⟩ }) .mkfs

/-- Step 3. -/
def mountImage (a : Answers) : MigrateM β Unit := do
  let mkdir := onTree fun t : FileTree β =>
    if (t.find rootfsSparse).isNone then t.put rootfsSparse .dir else t
  -- a failure of `_mkdir` is not looked at
  if a.mkdir ≠ .fails then
    command a.mkdir mkdir .mkdir
  failIf (!(← get).tree.isDir rootfsSparse) .mount
  command a.mount (fun v => { v with mounted := true }) .mount

/-- Step 4. -/
def copyRootfs (a : Answers) : MigrateM β Unit := do
  modify fun v => { v with
    image := v.image.graft [] v.tree rootfsDir fun p => a.archived p && a.extracted p }
  command a.tarExtract id .tarPipe

/-- Step 5. -/
def finalize (a : Answers) : MigrateM β Unit := do
  command a.umount (fun v => { v with mounted := false }) .umount
  mv rootfsDir backupDir a.moveRootfs .moveRootfs
  tryCatch (mv rootfsSparse rootfsDir a.moveSparse .moveSparse) fun step => do
    match a.moveSparse with
    | .signal _ => throw step
    | _ =>
      tryCatch (mv backupDir rootfsDir a.moveBack step) fun _ => pure ()
      throw step
  modify (onTree fun t => t.rmTree a.bakKept backupDir)
  failIf a.removeSignal .removeBak

/-- `_migrate_cleanup` -/
def migrateCleanup (a : Answers) (v : Volume β) : Volume β :=
  let v := { v with mounted := v.mounted && !a.trapUmount }
  let v :=
    if v.mounted then
      { v with image := v.image.discard fun p => !a.trapKept (rootfsSparse ++ p) }
    else onTree (fun t => t.rmTree a.trapKept rootfsSparse) v
  if v.tree.isFile rootfsImg && !a.trapKept rootfsImg then
    onTree (fun t => t.discard fun p => p == rootfsImg) v
  else v

def migrateSteps (files : Files β) (a : Answers) (sizeGB : Option ℕ) : MigrateM β Unit := do
  checks files a sizeGB
  createImage files a
  mountImage a
  copyRootfs a
  finalize a

/-- `cmd_migrate`, which reports success where it returns. -/
def cmdMigrate (files : Files β) (a : Answers) (sizeGB : Option ℕ) : MigrateM β Unit :=
  tryCatch (migrateSteps files a sizeGB) fun step => do
    if step.trapped then
      modify (migrateCleanup a)
    throw step

end Script

/-! ## What must not get lost -/

section Spec

variable {β : Type}

/-- `t` has at `p` everything that `before` has as the rootfs. -/
def CopyAt (before t : FileTree β) (p : Path) : Prop :=
  ∀ rel n, before.find (rootfsDir ++ rel) = some n → t.find (p ++ rel) = some n

/-- The image is there and has everything in it. -/
def CopyInImage (before : FileTree β) (v : Volume β) : Prop :=
  v.tree.isFile rootfsImg = true ∧ CopyAt before v.image []

/-- A complete copy is left, everything else is where it was, and a success means a complete
image. -/
structure Kept (before : FileTree β) (success : Bool) (after : Volume β) : Prop where
  copy : CopyAt before after.tree rootfsDir ∨ CopyAt before after.tree backupDir ∨
    CopyInImage before after
  others : FileTree.Intact [rootfsDir] before after.tree
  image : success = true → CopyInImage before after

/-- `tar -c` leaves nothing out. -/
def Archived (a : Answers) (before : FileTree β) : Prop :=
  ∀ rel n, rel ≠ [] → before.find (rootfsDir ++ rel) = some n → a.archived rel = true

/-- What the trap removes was not there before. -/
structure TrapSpares (a : Answers) (before : FileTree β) : Prop where
  sparse : ∀ p n, rootfsSparse <+: p → before.find p = some n → a.trapKept p = true
  img : ∀ c, before.find rootfsImg = some (.file c) → a.trapKept rootfsImg = true

/-- A `rootfs.bak` from before survives its removal. -/
def OldBackupStays (a : Answers) (before : FileTree β) : Prop :=
  ∀ p n, backupDir <+: p → before.find p = some n → a.bakKept p = true

/-- Once `rootfs` is moved, there is a complete copy at `rootfs.bak`. -/
def BackedUp (before : FileTree β) : Prop :=
  CopyAt before (mvTree rootfsDir backupDir before) backupDir

/-- The image is complete, and the trap cannot remove it. -/
def ImageStays (a : Answers) (before : FileTree β) : Prop :=
  a.trapKept rootfsImg = true ∧ Archived a before

/-- `rootfs.bak` was renamed back to `rootfs`. -/
def MovedBack (a : Answers) : Prop :=
  a.moveSparse = .fails ∧ (a.moveBack = .ok ∨ a.moveBack = .signal true)

/-- The condition under which a run that ends so loses nothing. -/
def Careful (a : Answers) (before : FileTree β) : Except MigrateStep Unit → Prop
  | .ok _ => Archived a before ∧ OldBackupStays a before
  | .error step => step.trapped = true → TrapSpares a before ∧
    match step with
    | .moveRootfs => a.moveRootfs = .signal true → mvAllowed before rootfsDir backupDir = true →
        BackedUp before ∨ ImageStays a before
    | .moveSparse => (BackedUp before ∨ ImageStays a before) ∧
        (MovedBack a → before.isDir backupDir = false)
    | .removeBak => OldBackupStays a before ∧
        ((BackedUp before ∧ ∀ rel n, before.find (rootfsDir ++ rel) = some n →
            a.bakKept (backupDir ++ rel) = true) ∨ ImageStays a before)
    | _ => True

end Spec

/-! ## The trap -/

section Trap

variable {β : Type} {a : Answers} {before : FileTree β} {v : Volume β} {q : Path}

@[simp] theorem not_img_prefix_sparse : ¬ rootfsSparse <+: rootfsImg := by decide

theorem find_migrateCleanup (a : Answers) (v : Volume β) (q : Path) :
    (migrateCleanup a v).tree.find q =
      if q = rootfsImg ∧ v.tree.isFile rootfsImg = true ∧ a.trapKept rootfsImg = false then none
      else if rootfsSparse <+: q ∧ a.trapKept q = false ∧ (v.mounted && !a.trapUmount) = false then
        none
      else v.tree.find q := by
  have hfile : (v.tree.rmTree a.trapKept rootfsSparse).isFile rootfsImg =
      v.tree.isFile rootfsImg := by
    have hoff : rootfsSparse.isPrefixOf rootfsImg = false := by decide
    simp [FileTree.isFile, FileTree.rmTree, FileTree.find_discard, hoff]
  unfold migrateCleanup
  cases hmounted : v.mounted && !a.trapUmount with
  | true =>
    simp only [if_true]
    by_cases hrm : (v.tree.isFile rootfsImg && !a.trapKept rootfsImg) = true
    · rw [if_pos hrm]
      simp_all [onTree, FileTree.find_discard]
    · rw [if_neg hrm]
      simp_all
  | false =>
    simp only [Bool.false_eq_true, if_false, onTree, hfile]
    by_cases hrm : (v.tree.isFile rootfsImg && !a.trapKept rootfsImg) = true
    · rw [if_pos hrm]
      simp_all [FileTree.find_discard, FileTree.rmTree, List.isPrefixOf_iff_prefix]
    · rw [if_neg hrm]
      simp_all [FileTree.find_discard, FileTree.rmTree, List.isPrefixOf_iff_prefix]

/-- The statement for one way to end. -/
def Ends (a : Answers) (before : FileTree β) (step : MigrateStep) (v : Volume β) : Prop :=
  Kept before false (if step.trapped then migrateCleanup a v else v) ↔
    Careful a before (.error step)

theorem ends_iff {step : MigrateStep} (htrap : step.trapped = true) : Ends a before step v ↔
    (Kept before false (migrateCleanup a v) ↔ Careful a before (.error step)) := by
  unfold Ends
  rw [if_pos htrap]

/-- Nothing is changed but the image and the mount point. -/
structure Early (before : FileTree β) (v : Volume β) : Prop where
  same : ∀ q, q ≠ rootfsImg → ¬ rootfsSparse <+: q → v.tree.find q = before.find q
  grown : ∀ q n, before.find q = some n → v.tree.find q = some n
  free : v.mounted = true → ∀ q, rootfsSparse <+: q → before.find q = none

theorem Early.refl (before : FileTree β) (image : FileTree β) :
    Early before ⟨before, image, false⟩ :=
  ⟨fun _ _ _ => rfl, fun _ _ h => h, fun h => by cases h⟩

/-- The trap takes the image and the mount point and nothing else. -/
theorem Early.kept_iff (hv : Early before v) :
    Kept before false (migrateCleanup a v) ↔ TrapSpares a before := by
  constructor
  · intro hkept
    refine ⟨fun q n hq hn => ?_, fun c hc => ?_⟩
    · by_contra hremoved
      have hmounted : v.mounted = false := by
        by_contra hm
        have hnone := hv.free (by simpa using hm) q hq
        rw [hn] at hnone
        cases hnone
      rcases hkept.others q n hn with hafter | ⟨p, hp, hpq⟩
      · rw [find_migrateCleanup] at hafter
        simp [hq, hremoved, hmounted] at hafter
      · obtain rfl : p = rootfsDir := by simpa using hp
        obtain ⟨rel, rfl⟩ := hq
        obtain ⟨rel', hrel'⟩ := hpq
        simp [rootfsDir, rootfsSparse] at hrel'
    · by_contra hremoved
      have hfile : v.tree.isFile rootfsImg = true := by
        simp [FileTree.isFile, hv.grown _ _ hc]
      rcases hkept.others _ _ hc with hafter | ⟨p, hp, hpq⟩
      · rw [find_migrateCleanup] at hafter
        simp [hremoved, hfile] at hafter
      · obtain rfl : p = rootfsDir := by simpa using hp
        exact absurd hpq (by decide)
  · intro hspares
    have hsame : ∀ q n, before.find q = some n → (migrateCleanup a v).tree.find q = some n := by
      intro q n hn
      rw [find_migrateCleanup]
      split_ifs with himg hsparse
      · obtain ⟨rfl, hfile, hremoved⟩ := himg
        rw [FileTree.isFile, hv.grown _ _ hn] at hfile
        cases n with
        | dir => cases hfile
        | file c =>
          rw [hspares.img c hn] at hremoved
          cases hremoved
      · obtain ⟨hq, hremoved, -⟩ := hsparse
        rw [hspares.sparse q n hq hn] at hremoved
        cases hremoved
      · exact hv.grown q n hn
    exact ⟨Or.inl fun rel n hn => hsame _ n hn, fun q n hn => Or.inl (hsame q n hn),
      fun h => by cases h⟩

/-- The steps before anything is moved. -/
def MigrateStep.early : MigrateStep → Bool
  | moveRootfs | moveSparse | removeBak => false
  | _ => true

theorem Early.ends (hv : Early before v) {step : MigrateStep} (htrap : step.trapped = true)
    (hearly : step.early = true) : Ends a before step v := by
  rw [ends_iff htrap, hv.kept_iff]
  cases step <;> simp_all [Careful, MigrateStep.early, MigrateStep.trapped]

end Trap

/-! ## Up to the copy -/

section Copy

variable {β : Type} {files : Files β} {a : Answers} {before image : FileTree β} {v : Volume β}
  {sizeGB : Option ℕ} {Q : Unit → Volume β → Prop} {E : MigrateStep → Volume β → Prop}

/-- What the checks have found. -/
structure Checked (files : Files β) (before : FileTree β) : Prop where
  rootfs : before.isDir rootfsDir = true
  full : before.isBare rootfsDir = false
  img : isRegular files before rootfsImg = false
  sparse : before.isDir rootfsSparse = false

theorem wp_command {o : Outcome} {effect : Volume β → Volume β} {step : MigrateStep}
    (hQ : o = .ok → Q () (effect v)) (hfails : o = .fails → E step v)
    (hdone : o = .signal true → E step (effect v)) (hnone : o = .signal false → E step v) :
    (command o effect step).wp Q E v := by
  unfold command
  cases o with
  | ok => exact hQ rfl
  | fails => exact hfails rfl
  | signal done =>
    cases done with
    | true => exact hdone rfl
    | false => exact hnone rfl

theorem wp_checks (hQ : Checked files before → Q () ⟨before, image, false⟩)
    (hE : ∀ step, step.trapped = false → E step ⟨before, image, false⟩) :
    (checks files a sizeGB).wp Q E ⟨before, image, false⟩ := by
  unfold checks
  simp only [Attempt.wp_bind, Attempt.wp_get]
  refine Attempt.wp_failIf (fun _ => hE _ rfl) fun _ => ?_
  refine Attempt.wp_failIf (fun _ => hE _ rfl) fun hrootfs => ?_
  refine Attempt.wp_failIf (fun _ => hE _ rfl) fun hfull => ?_
  refine Attempt.wp_failIf (fun _ => hE _ rfl) fun himg => ?_
  refine Attempt.wp_failIf (fun _ => hE _ rfl) fun hsparse => ?_
  refine Attempt.wp_failIf (fun _ => hE _ rfl) fun _ => ?_
  refine Attempt.wp_failIf (fun _ => hE _ rfl) fun _ => hQ ?_
  exact ⟨by simpa using hrootfs, by simpa using hfull, by simpa using himg, by simpa using hsparse⟩

theorem Early.put (hv : Early before v) {p : Path} {n : Node β} (hnew : before.find p = none)
    (hp : p = rootfsImg ∨ rootfsSparse <+: p) :
    Early before { v with tree := v.tree.put p n } where
  same q himg hsparse := by
    have hne : q ≠ p := by
      rintro rfl
      rcases hp with hp | hp
      · exact himg hp
      · exact hsparse hp
    rw [FileTree.find_put, if_neg hne, hv.same q himg hsparse]
  grown q m hq := by
    have hne : q ≠ p := by
      rintro rfl
      rw [hnew] at hq
      cases hq
    rw [FileTree.find_put, if_neg hne, hv.grown q m hq]
  free := hv.free

/-- The image is made: there was nothing in its place. -/
theorem wp_createImage (hc : Checked files before)
    (hQ : before.find rootfsImg = none →
      Q () ⟨before.put rootfsImg (.file files.sparse), ⟨[([], .dir)]⟩, false⟩)
    (hE : ∀ step v, step.trapped = true → step.early = true → Early before v → E step v) :
    (createImage files a).wp Q E ⟨before, image, false⟩ := by
  have hbegin : Early before ⟨before, image, false⟩ := Early.refl before image
  unfold createImage
  simp only [Attempt.wp_bind, Attempt.wp_get]
  refine Attempt.wp_failIf (fun _ => hE _ _ rfl rfl hbegin) fun _ => ?_
  cases himg : before.find rootfsImg with
  | none =>
    have hmade : Early before ⟨before.put rootfsImg (.file files.sparse), image, false⟩ :=
      hbegin.put himg (Or.inl rfl)
    refine wp_command (fun _ => ?_) (fun _ => hE _ _ rfl rfl hbegin) (fun _ => ?_)
      (fun _ => hE _ _ rfl rfl hbegin)
    · simp only [onTree, himg, Option.isNone_none, if_true]
      refine Attempt.wp_failIf (fun _ => hE _ _ rfl rfl hmade) fun _ => ?_
      refine Attempt.wp_failIf (fun _ => hE _ _ rfl rfl hmade) fun _ => ?_
      refine wp_command (fun _ => hQ himg) (fun _ => hE _ _ rfl rfl hmade) (fun _ => ?_)
        (fun _ => hE _ _ rfl rfl hmade)
      exact hE _ _ rfl rfl ⟨hmade.same, hmade.grown, fun h => by cases h⟩
    · simp only [onTree, himg, Option.isNone_none, if_true]
      exact hE _ _ rfl rfl hmade
  | some n =>
    have hsame : onTree (fun t : FileTree β => if (t.find rootfsImg).isNone then
        t.put rootfsImg (.file files.sparse) else t) ⟨before, image, false⟩ =
        ⟨before, image, false⟩ := by
      simp [onTree, himg]
    refine wp_command (fun _ => ?_) (fun _ => hE _ _ rfl rfl hbegin) (fun _ => ?_)
      (fun _ => hE _ _ rfl rfl hbegin)
    · rw [hsame]
      refine Attempt.wp_failIf (fun _ => hE _ _ rfl rfl hbegin) fun hregular => ?_
      -- a regular file in its place has not passed the checks
      simp [hc.img] at hregular
    · rw [hsame]
      exact hE _ _ rfl rfl hbegin

/-- The tree before the renames. -/
def readyTree (files : Files β) (before : FileTree β) : FileTree β :=
  (before.put rootfsImg (.file files.sparse)).put rootfsSparse .dir

/-- The image is mounted: there was nothing at the mount point. -/
theorem wp_mountImage (hc : Checked files before) (himg : before.find rootfsImg = none)
    (hwf : before.WellFormed)
    (hQ : before.find rootfsSparse = none →
      Q () ⟨readyTree files before, image, true⟩)
    (hE : ∀ step v, step.trapped = true → step.early = true → Early before v → E step v) :
    (mountImage a).wp Q E ⟨before.put rootfsImg (.file files.sparse), image, false⟩ := by
  have hmade : Early before ⟨before.put rootfsImg (.file files.sparse), image, false⟩ :=
    (Early.refl before image).put himg (Or.inl rfl)
  have hfind : (before.put rootfsImg (.file files.sparse)).find rootfsSparse =
      before.find rootfsSparse := by
    rw [FileTree.find_put, if_neg (by decide)]
  have hnodir : (before.put rootfsImg (.file files.sparse)).isDir rootfsSparse = false := by
    rw [FileTree.isDir, hfind]
    exact hc.sparse
  unfold mountImage
  simp only
  refine Attempt.wp_ite (fun _ => ?_) fun _ => ?_
  · cases hsparse : before.find rootfsSparse with
    | none =>
      have hdir : Early before
          ⟨(before.put rootfsImg (.file files.sparse)).put rootfsSparse .dir, image, false⟩ :=
        hmade.put hsparse (Or.inr (List.prefix_refl _))
      have hfree : ∀ q, rootfsSparse <+: q → before.find q = none := by
        rintro q ⟨rel, rfl⟩
        cases rel with
        | nil => simpa using hsparse
        | cons r rs => exact hwf.find_below (by simp [hsparse]) (by simp)
      simp only [Attempt.wp_bind]
      refine wp_command (fun _ => ?_) (fun _ => hE _ _ rfl rfl hmade) (fun _ => ?_)
        (fun _ => hE _ _ rfl rfl hmade)
      · simp only [onTree, hfind, hsparse, Option.isNone_none, if_true, Attempt.wp_get]
        refine Attempt.wp_failIf (fun _ => hE _ _ rfl rfl hdir) fun _ => ?_
        refine wp_command (fun _ => hQ hsparse) (fun _ => hE _ _ rfl rfl hdir) (fun _ => ?_)
          (fun _ => hE _ _ rfl rfl hdir)
        exact hE _ _ rfl rfl ⟨hdir.same, hdir.grown, fun _ => hfree⟩
      · simp only [onTree, hfind, hsparse, Option.isNone_none, if_true]
        exact hE _ _ rfl rfl hdir
    | some n =>
      have hsame : onTree (fun t : FileTree β => if (t.find rootfsSparse).isNone then
          t.put rootfsSparse .dir else t)
          ⟨before.put rootfsImg (.file files.sparse), image, false⟩ =
          ⟨before.put rootfsImg (.file files.sparse), image, false⟩ := by
        simp [onTree, hfind, hsparse]
      simp only [Attempt.wp_bind]
      refine wp_command (fun _ => ?_) (fun _ => hE _ _ rfl rfl hmade) (fun _ => ?_)
        (fun _ => hE _ _ rfl rfl hmade)
      · rw [hsame]
        -- an image is not mounted on a file
        exact Attempt.wp_failIf (fun _ => hE .mount _ rfl rfl hmade) fun hdir =>
          absurd (by rw [hnodir]; rfl) hdir
      · rw [hsame]
        exact hE _ _ rfl rfl hmade
  · simp only [Attempt.wp_bind, Attempt.wp_get]
    exact Attempt.wp_failIf (fun _ => hE .mount _ rfl rfl hmade) fun hdir =>
      absurd (by rw [hnodir]; rfl) hdir

/-- Everything is ready for the renames; the image has what went through the pipe. -/
structure Copied (files : Files β) (a : Answers) (before : FileTree β) (v : Volume β) : Prop where
  tree : v.tree = readyTree files before
  img : before.find rootfsImg = none
  sparse : ∀ q, rootfsSparse <+: q → before.find q = none
  image : CopyAt before v.image [] ↔ Archived a before

theorem find_ready (q : Path) :
    (readyTree files before).find q =
      if q = rootfsSparse then some .dir
      else if q = rootfsImg then some (.file files.sparse)
      else before.find q := by
  rw [readyTree, FileTree.find_put, FileTree.find_put]

theorem Copied.early (hv : Copied files a before v) : Early before v where
  same q himg hsparse := by
    have hne : q ≠ rootfsSparse := fun h => hsparse (h ▸ List.prefix_refl _)
    rw [hv.tree, find_ready, if_neg hne, if_neg himg]
  grown q n hq := by
    have himg : q ≠ rootfsImg := by
      rintro rfl
      rw [hv.img] at hq
      cases hq
    have hsparse : q ≠ rootfsSparse := by
      rintro rfl
      rw [hv.sparse _ (List.prefix_refl _)] at hq
      cases hq
    rw [hv.tree, find_ready, if_neg hsparse, if_neg himg, hq]
  free _ := hv.sparse

/-- The image gets what the left side of the pipe has written. -/
theorem copyAt_image_iff (hdir : before.isDir rootfsDir = true) {t : FileTree β}
    (ht : ∀ rel, t.find (rootfsDir ++ rel) = before.find (rootfsDir ++ rel))
    (hall : ∀ p, a.extracted p = true) :
    CopyAt before ((⟨[([], .dir)]⟩ : FileTree β).graft [] t rootfsDir
      fun p => a.archived p && a.extracted p) [] ↔ Archived a before := by
  have hroot : before.find rootfsDir = some .dir := by
    unfold FileTree.isDir at hdir
    split at hdir
    · assumption
    · cases hdir
  constructor
  · intro hcopy rel n hrel hn
    have hin := hcopy rel n hn
    rw [FileTree.find_graft_below] at hin
    by_contra hleft
    have hlost : (⟨[([], .dir)]⟩ : FileTree β).find ([] ++ rel) = none := by
      simp [FileTree.find, List.lookup_cons, beq_false_of_ne hrel]
    rw [if_neg (by simp [hleft]), hlost] at hin
    cases hin
  · intro harchived rel n hn
    rw [FileTree.find_graft_below]
    cases rel with
    | nil =>
      have hn' : n = .dir := by
        rw [List.append_nil, hroot] at hn
        exact (Option.some.inj hn).symm
      subst hn'
      rw [ht, hn]
      split <;> rfl
    | cons r rs =>
      rw [if_pos (by simp [harchived _ n (by simp) hn, hall]), ht, hn]
      rfl

theorem wp_copyRootfs (hc : Checked files before) (himg : before.find rootfsImg = none)
    (hsparse : ∀ q, rootfsSparse <+: q → before.find q = none)
    (hQ : ∀ v, Copied files a before v → Q () v)
    (hE : ∀ step v, step.trapped = true → step.early = true → Early before v → E step v) :
    (copyRootfs a).wp Q E
      ⟨readyTree files before, ⟨[([], .dir)]⟩, true⟩ := by
  have hready : ∀ image, Early before ⟨readyTree files before, image, true⟩ :=
    fun image =>
      have hput : Early before ⟨readyTree files before, image, false⟩ :=
        ((Early.refl before image).put himg (Or.inl rfl)).put (hsparse _ (List.prefix_refl _))
          (Or.inr (List.prefix_refl _))
      ⟨hput.same, hput.grown, fun _ => hsparse⟩
  unfold copyRootfs
  simp only [Attempt.wp_bind, Attempt.wp_modify]
  refine wp_command (fun hok => hQ _ ?_) (fun _ => hE _ _ rfl rfl (hready _))
    (fun _ => hE _ _ rfl rfl (hready _)) (fun _ => hE _ _ rfl rfl (hready _))
  refine ⟨rfl, himg, hsparse, copyAt_image_iff hc.rootfs (fun rel => ?_) (a.extracted_of_ok hok)⟩
  rw [find_ready, if_neg (by simp [rootfsDir, rootfsSparse]),
    if_neg (by simp [rootfsDir, rootfsImg])]

end Copy

/-! ## After the first rename -/

section Moved

variable {β : Type} {files : Files β} {a : Answers} {before : FileTree β} {v : Volume β}
  {q : Path}

/-- `rootfs` goes to `rootfs.bak` or into it. -/
theorem mvTarget_backup (t : FileTree β) :
    mvTarget t rootfsDir backupDir =
      if t.isDir backupDir then backupDir ++ ["rootfs"] else backupDir := rfl

/-- Where `rootfs` goes there is nothing, or an empty directory. -/
theorem free_of_mvAllowed (hwf : before.WellFormed)
    (hallowed : mvAllowed before rootfsDir backupDir = true) {rel : Path} {n : Node β}
    (hn : before.find (mvTarget before rootfsDir backupDir ++ rel) = some n) :
    rel = [] ∧ n = .dir := by
  unfold mvAllowed at hallowed
  rcases Bool.or_eq_true_iff.1 hallowed with hnone | hempty
  · exfalso
    have hmissing := Option.isNone_iff_eq_none.1 hnone
    cases rel with
    | nil =>
      rw [List.append_nil, hmissing] at hn
      cases hn
    | cons r rs =>
      rw [hwf.find_below (by simp [hmissing]) (by simp)] at hn
      cases hn
  · obtain ⟨hdir, hbare⟩ := Bool.and_eq_true_iff.1 hempty
    have hrel : rel = [] := by
      by_contra hne
      rw [FileTree.find_of_isBare hbare (List.prefix_append _ rel) (by simpa using hne)] at hn
      cases hn
    subst hrel
    rw [List.append_nil] at hn
    rw [FileTree.isDir, hn] at hdir
    cases n with
    | dir => exact ⟨rfl, rfl⟩
    | file c => cases hdir

/-- The tree after the first rename. -/
def movedTree (files : Files β) (before : FileTree β) : FileTree β :=
  mvTree rootfsDir backupDir (readyTree files before)

theorem isDir_readyTree : (readyTree files before).isDir backupDir = before.isDir backupDir := by
  unfold FileTree.isDir
  rw [find_ready, if_neg (by decide), if_neg (by decide)]

theorem mvTarget_ready : mvTarget (readyTree files before) rootfsDir backupDir =
    mvTarget before rootfsDir backupDir := by
  rw [mvTarget_backup, mvTarget_backup, isDir_readyTree]

theorem mvAllowed_ready : mvAllowed (readyTree files before) rootfsDir backupDir =
    mvAllowed before rootfsDir backupDir := by
  have hbare : ∀ p, backupDir <+: p → (readyTree files before).isBare p = before.isBare p := by
    rintro p ⟨rel, rfl⟩
    simp [FileTree.isBare, readyTree, FileTree.put, backupDir, rootfsSparse, rootfsImg,
      List.isPrefixOf]
  have hfind : ∀ p, backupDir <+: p → (readyTree files before).find p = before.find p := by
    rintro p ⟨rel, rfl⟩
    rw [find_ready, if_neg (by simp [backupDir, rootfsSparse]),
      if_neg (by simp [backupDir, rootfsImg])]
  have htarget : backupDir <+: mvTarget before rootfsDir backupDir := by
    rw [mvTarget_backup]
    split
    · exact List.prefix_append _ _
    · exact List.prefix_refl _
  unfold mvAllowed FileTree.isDir
  rw [mvTarget_ready, hbare _ htarget, hfind _ htarget]

/-- `rootfs.bak` and what is below it is elsewhere than the rest. -/
theorem not_prefix_of_backup {q : Path} (hq : backupDir <+: q) :
    ¬ rootfsDir <+: q ∧ ¬ rootfsSparse <+: q ∧ q ≠ rootfsImg := by
  obtain ⟨rel, rfl⟩ := hq
  simp [backupDir, rootfsDir, rootfsSparse, rootfsImg, List.cons_prefix_cons]

theorem find_movedTree (hq : ¬ rootfsDir <+: q) (himg : q ≠ rootfsImg)
    (hsparse : ¬ rootfsSparse <+: q) :
    (movedTree files before).find q = (mvTree rootfsDir backupDir before).find q := by
  have hne : q ≠ rootfsSparse := fun h => hsparse (h ▸ List.prefix_refl _)
  have hready : (readyTree files before).find q = before.find q := by
    rw [find_ready, if_neg hne, if_neg himg]
  unfold movedTree mvTree
  rw [mvTarget_ready]
  by_cases htarget : mvTarget before rootfsDir backupDir <+: q
  · obtain ⟨rel, rfl⟩ := htarget
    have hbelow : (readyTree files before).find (rootfsDir ++ rel) =
        before.find (rootfsDir ++ rel) := by
      rw [find_ready, if_neg (by simp [rootfsDir, rootfsSparse]),
        if_neg (by simp [rootfsDir, rootfsImg])]
    rw [FileTree.find_rename_below, FileTree.find_rename_below, hbelow, hready]
  · rw [FileTree.find_rename_off htarget hq, FileTree.find_rename_off htarget hq, hready]

/-- The rename loses nothing outside `rootfs`. -/
theorem movedTree_keeps (hwf : before.WellFormed) (hdir : before.isDir rootfsDir = true)
    (hallowed : mvAllowed before rootfsDir backupDir = true) {n : Node β}
    (hn : before.find q = some n) (hq : ¬ rootfsDir <+: q) :
    (mvTree rootfsDir backupDir before).find q = some n := by
  unfold mvTree
  by_cases htarget : mvTarget before rootfsDir backupDir <+: q
  · obtain ⟨rel, rfl⟩ := htarget
    obtain ⟨rfl, rfl⟩ := free_of_mvAllowed hwf hallowed hn
    rw [FileTree.find_rename_below, if_neg hq, hn]
    unfold FileTree.isDir at hdir
    split at hdir
    · next hroot => simp [hroot]
    · cases hdir
  · rw [FileTree.find_rename_off htarget hq, hn]

/-- Where there was no `rootfs.bak`, it is now a complete copy. -/
theorem backedUp_of_not_isDir (h : before.isDir backupDir = false) : BackedUp before := by
  intro rel n hn
  have htarget : mvTarget before rootfsDir backupDir = backupDir := by
    rw [mvTarget_backup, h]
    rfl
  unfold mvTree
  rw [htarget, FileTree.find_rename_below, hn]
  rfl

/-- What the rest of the run may do to the tree: remove some of `rootfs.bak`, and put something
empty in the place of `rootfs`. -/
structure Settled (files : Files β) (before : FileTree β) (keep : Path → Bool)
    (t : FileTree β) : Prop where
  off : ∀ q, ¬ rootfsDir <+: q → q ≠ rootfsImg → ¬ rootfsSparse <+: q →
    t.find q = if backupDir <+: q ∧ keep q = false then none else (movedTree files before).find q
  rootfs : ∀ rel, rel ≠ [] → t.find (rootfsDir ++ rel) = none

/-- Everything else is where it was exactly if an old `rootfs.bak` is kept. -/
theorem Settled.intact_iff {keep : Path → Bool} {t : FileTree β} (ht : Settled files before keep t)
    (hwf : before.WellFormed) (hdir : before.isDir rootfsDir = true)
    (hallowed : mvAllowed before rootfsDir backupDir = true)
    (himg : before.find rootfsImg = none)
    (hsparse : ∀ q, rootfsSparse <+: q → before.find q = none) :
    FileTree.Intact [rootfsDir] before t ↔
      ∀ p n, backupDir <+: p → before.find p = some n → keep p = true := by
  have hoff : ∀ q n, before.find q = some n → q ≠ rootfsImg ∧ ¬ rootfsSparse <+: q := by
    intro q n hn
    constructor
    · rintro rfl
      rw [himg] at hn
      cases hn
    · intro hq
      rw [hsparse q hq] at hn
      cases hn
  constructor
  · intro hintact p n hp hn
    obtain ⟨hrootfs, hsp, hne⟩ := not_prefix_of_backup hp
    by_contra hremoved
    rcases hintact p n hn with hafter | ⟨r, hr, hrp⟩
    · rw [ht.off p hrootfs hne hsp, if_pos ⟨hp, by simpa using hremoved⟩] at hafter
      cases hafter
    · obtain rfl : r = rootfsDir := by simpa using hr
      exact hrootfs hrp
  · intro hkeep q n hn
    by_cases hrootfs : rootfsDir <+: q
    · exact Or.inr ⟨rootfsDir, by simp, hrootfs⟩
    · obtain ⟨hne, hsp⟩ := hoff q n hn
      have hstays : ¬ (backupDir <+: q ∧ keep q = false) := by
        rintro ⟨hq, hlost⟩
        rw [hkeep q n hq hn] at hlost
        cases hlost
      refine Or.inl ?_
      rw [ht.off q hrootfs hne hsp, if_neg hstays, find_movedTree hrootfs hne hsp]
      exact movedTree_keeps hwf hdir hallowed hn hrootfs

/-- `rootfs.bak` is complete exactly if it was and all of it is kept. -/
theorem Settled.copyAt_backup_iff {keep : Path → Bool} {t : FileTree β}
    (ht : Settled files before keep t) :
    CopyAt before t backupDir ↔ BackedUp before ∧
      ∀ rel n, before.find (rootfsDir ++ rel) = some n → keep (backupDir ++ rel) = true := by
  have hfind : ∀ rel, t.find (backupDir ++ rel) = if keep (backupDir ++ rel) = false then none
      else (mvTree rootfsDir backupDir before).find (backupDir ++ rel) := by
    intro rel
    obtain ⟨hrootfs, hsp, hne⟩ := not_prefix_of_backup (List.prefix_append backupDir rel)
    rw [ht.off _ hrootfs hne hsp, find_movedTree hrootfs hne hsp]
    simp
  constructor
  · intro hcopy
    have hkept : ∀ rel n, before.find (rootfsDir ++ rel) = some n →
        keep (backupDir ++ rel) = true ∧
          (mvTree rootfsDir backupDir before).find (backupDir ++ rel) = some n := by
      intro rel n hn
      have hafter := hcopy rel n hn
      rw [hfind] at hafter
      split at hafter
      · cases hafter
      · next hkeep => exact ⟨by simpa using hkeep, hafter⟩
    exact ⟨fun rel n hn => (hkept rel n hn).2, fun rel n hn => (hkept rel n hn).1⟩
  · rintro ⟨hbacked, hkeep⟩ rel n hn
    rw [hfind, if_neg (by simp [hkeep rel n hn])]
    exact hbacked rel n hn

/-- The rootfs had something in it, so what is in its place now is no copy. -/
theorem Settled.not_copyAt_rootfs {keep : Path → Bool} {t : FileTree β}
    (ht : Settled files before keep t) (hfull : before.isBare rootfsDir = false) :
    ¬ CopyAt before t rootfsDir := by
  intro hcopy
  obtain ⟨q, n, ⟨rel, rfl⟩, hne, hn⟩ := FileTree.exists_of_not_isBare hfull
  have hafter := hcopy rel n hn
  rw [ht.rootfs rel (by simpa using hne)] at hafter
  cases hafter

/-- The trap leaves it so. -/
theorem Settled.cleanup {keep : Path → Bool} {t image : FileTree β}
    (ht : Settled files before keep t) :
    Settled files before keep (migrateCleanup a ⟨t, image, false⟩).tree where
  off q hrootfs himg hsparse := by
    rw [find_migrateCleanup, if_neg (by simp [himg]), if_neg (by simp [hsparse])]
    exact ht.off q hrootfs himg hsparse
  rootfs rel hrel := by
    have himg : rootfsDir ++ rel ≠ rootfsImg := by simp [rootfsDir, rootfsImg]
    have hsparse : ¬ rootfsSparse <+: rootfsDir ++ rel := by
      simp [rootfsDir, rootfsSparse, List.cons_prefix_cons]
    rw [find_migrateCleanup, if_neg (by simp [himg]), if_neg (by simp [hsparse])]
    exact ht.rootfs rel hrel

theorem isFile_migrateCleanup {t image : FileTree β} (himg : t.isFile rootfsImg = true) :
    (migrateCleanup a ⟨t, image, false⟩).tree.isFile rootfsImg = a.trapKept rootfsImg := by
  unfold FileTree.isFile at himg ⊢
  rw [find_migrateCleanup]
  cases hkept : a.trapKept rootfsImg with
  | true => simpa using himg
  | false => simp [FileTree.isFile, himg]

theorem image_migrateCleanup {t image : FileTree β} :
    (migrateCleanup a ⟨t, image, false⟩).image = image := by
  unfold migrateCleanup
  simp only [Bool.false_and, Bool.false_eq_true, if_false]
  split <;> rfl

/-- What is left after the trap, if the run got as far as the renames. -/
theorem Settled.kept_iff {keep : Path → Bool} {t image : FileTree β}
    (ht : Settled files before keep t) (himgfile : t.isFile rootfsImg = true)
    (hwf : before.WellFormed) (hc : Checked files before)
    (hallowed : mvAllowed before rootfsDir backupDir = true)
    (himg : before.find rootfsImg = none)
    (hsparse : ∀ q, rootfsSparse <+: q → before.find q = none)
    (himage : CopyAt before image [] ↔ Archived a before) :
    Kept before false (migrateCleanup a ⟨t, image, false⟩) ↔
      (∀ p n, backupDir <+: p → before.find p = some n → keep p = true) ∧
        ((BackedUp before ∧ ∀ rel n, before.find (rootfsDir ++ rel) = some n →
            keep (backupDir ++ rel) = true) ∨ ImageStays a before) := by
  have hafter : Settled files before keep (migrateCleanup a ⟨t, image, false⟩).tree := ht.cleanup
  have hinImage : CopyInImage before (migrateCleanup a ⟨t, image, false⟩) ↔
      ImageStays a before := by
    unfold CopyInImage ImageStays
    rw [isFile_migrateCleanup himgfile, image_migrateCleanup, himage]
  have hothers := hafter.intact_iff hwf hc.rootfs hallowed himg hsparse
  constructor
  · intro hkept
    refine ⟨hothers.1 hkept.others, ?_⟩
    rcases hkept.copy with hrootfs | hbackup | himage'
    · exact absurd hrootfs (hafter.not_copyAt_rootfs hc.full)
    · exact Or.inl (hafter.copyAt_backup_iff.1 hbackup)
    · exact Or.inr (hinImage.1 himage')
  · rintro ⟨hstays, hcopy⟩
    refine ⟨Or.inr ?_, hothers.2 hstays, fun h => by cases h⟩
    exact hcopy.imp hafter.copyAt_backup_iff.2 hinImage.2

theorem trapSpares_of_none (himg : before.find rootfsImg = none)
    (hsparse : ∀ q, rootfsSparse <+: q → before.find q = none) : TrapSpares a before where
  sparse p n hp hn := by
    rw [hsparse p hp] at hn
    cases hn
  img c hc := by
    rw [himg] at hc
    cases hc

/-- With nothing of `rootfs.bak` removed. -/
theorem Settled.kept_all_iff {t image : FileTree β}
    (ht : Settled files before (fun _ => true) t) (himgfile : t.isFile rootfsImg = true)
    (hwf : before.WellFormed) (hc : Checked files before)
    (hallowed : mvAllowed before rootfsDir backupDir = true)
    (himg : before.find rootfsImg = none)
    (hsparse : ∀ q, rootfsSparse <+: q → before.find q = none)
    (himage : CopyAt before image [] ↔ Archived a before) :
    Kept before false (migrateCleanup a ⟨t, image, false⟩) ↔
      BackedUp before ∨ ImageStays a before := by
  rw [ht.kept_iff himgfile hwf hc hallowed himg hsparse himage]
  simp

/-! ## The trees of the last step -/

theorem find_movedTree_rootfs (hq : rootfsDir <+: q) : (movedTree files before).find q = none := by
  have htarget : ¬ mvTarget (readyTree files before) rootfsDir backupDir <+: q := by
    rintro ⟨rel, rfl⟩
    rw [mvTarget_backup] at hq
    split at hq <;> simp [rootfsDir, backupDir, List.cons_prefix_cons] at hq
  unfold movedTree mvTree
  rw [FileTree.find_rename_src htarget hq]

theorem find_movedTree_ready (hq : ¬ rootfsDir <+: q) (hbak : ¬ backupDir <+: q) :
    (movedTree files before).find q = (readyTree files before).find q := by
  have htarget : ¬ mvTarget (readyTree files before) rootfsDir backupDir <+: q := by
    intro h
    refine hbak (List.IsPrefix.trans ?_ h)
    rw [mvTarget_backup]
    split
    · exact List.prefix_append _ _
    · exact List.prefix_refl _
  unfold movedTree mvTree
  rw [FileTree.find_rename_off htarget hq]

theorem isFile_movedTree : (movedTree files before).isFile rootfsImg = true := by
  unfold FileTree.isFile
  rw [find_movedTree_ready (by decide) (by decide)]
  rw [find_ready, if_neg (by decide), if_pos rfl]

theorem settled_movedTree : Settled files before (fun _ => true) (movedTree files before) where
  off q _ _ _ := by simp
  rootfs rel _ := find_movedTree_rootfs (List.prefix_append _ _)

/-- `rootfs.sparse` has taken the place of `rootfs`. -/
def swappedTree (files : Files β) (before : FileTree β) : FileTree β :=
  mvTree rootfsSparse rootfsDir (movedTree files before)

/-- `rootfs.bak` has been renamed back. -/
def restoredTree (files : Files β) (before : FileTree β) : FileTree β :=
  mvTree backupDir rootfsDir (movedTree files before)

/-- There is no `rootfs` any more, so the next rename puts something in its place. -/
theorem mvTarget_rootfs (src : Path) :
    mvTarget (movedTree files before) src rootfsDir = rootfsDir := by
  have hnone : (movedTree files before).find rootfsDir = none :=
    find_movedTree_rootfs (List.prefix_refl _)
  have hdir : (movedTree files before).isDir rootfsDir = false := by
    simp [FileTree.isDir, hnone]
  rw [mvTarget, hdir]
  rfl

theorem mvAllowed_rootfs (src : Path) :
    mvAllowed (movedTree files before) src rootfsDir = true := by
  unfold mvAllowed
  rw [mvTarget_rootfs, find_movedTree_rootfs (List.prefix_refl _)]
  rfl

theorem settled_swappedTree (hsparse : ∀ q, rootfsSparse <+: q → before.find q = none) :
    Settled files before (fun _ => true) (swappedTree files before) where
  off q hrootfs _ hsp := by
    unfold swappedTree mvTree
    rw [mvTarget_rootfs, FileTree.find_rename_off hrootfs hsp]
    simp
  rootfs rel hrel := by
    have hbelow : (movedTree files before).find (rootfsSparse ++ rel) = none := by
      rw [find_movedTree_ready (by simp [rootfsDir, rootfsSparse, List.cons_prefix_cons])
        (by simp [backupDir, rootfsSparse, List.cons_prefix_cons])]
      rw [find_ready, if_neg (by simpa [rootfsSparse] using hrel),
        if_neg (by simp [rootfsSparse, rootfsImg]), hsparse _ (List.prefix_append _ rel)]
    unfold swappedTree mvTree
    rw [mvTarget_rootfs, FileTree.find_rename_below, hbelow,
      find_movedTree_rootfs (List.prefix_append _ rel)]
    simp

theorem isFile_swappedTree : (swappedTree files before).isFile rootfsImg = true := by
  unfold FileTree.isFile swappedTree mvTree
  rw [mvTarget_rootfs, FileTree.find_rename_off (by decide) (by decide)]
  exact isFile_movedTree

/-- Removing `rootfs.bak`. -/
theorem Settled.rmTree {keep : Path → Bool} {t : FileTree β}
    (ht : Settled files before (fun _ => true) t) :
    Settled files before keep (t.rmTree keep backupDir) where
  off q hrootfs himg hsparse := by
    have hq := ht.off q hrootfs himg hsparse
    simp only [Bool.true_eq_false, and_false, if_false] at hq
    simp [FileTree.rmTree, FileTree.find_discard, List.isPrefixOf_iff_prefix, hq]
  rootfs rel hrel := by
    have hoff : ¬ backupDir <+: rootfsDir ++ rel := by
      simp [backupDir, rootfsDir, List.cons_prefix_cons]
    simp [FileTree.rmTree, FileTree.find_discard, hoff, ht.rootfs rel hrel]

theorem isFile_rmTree_backup {keep : Path → Bool} {t : FileTree β}
    (ht : t.isFile rootfsImg = true) : (t.rmTree keep backupDir).isFile rootfsImg = true := by
  have hoff : backupDir.isPrefixOf rootfsImg = false := by decide
  simpa [FileTree.isFile, FileTree.rmTree, FileTree.find_discard, hoff] using ht

/-- Renaming `rootfs.bak` back restores `rootfs` exactly if it was not there before. -/
theorem restored_kept_iff {image : FileTree β} (hwf : before.WellFormed)
    (hallowed : mvAllowed before rootfsDir backupDir = true)
    (himg : before.find rootfsImg = none)
    (hsparse : ∀ q, rootfsSparse <+: q → before.find q = none) :
    Kept before false (migrateCleanup a ⟨restoredTree files before, image, false⟩) ↔
      before.isDir backupDir = false := by
  have hfind : ∀ q, q ≠ rootfsImg → ¬ rootfsSparse <+: q →
      (migrateCleanup a ⟨restoredTree files before, image, false⟩).tree.find q =
        (restoredTree files before).find q := by
    intro q hne hsp
    rw [find_migrateCleanup, if_neg (by simp [hne]), if_neg (by simp [hsp])]
  have hrestored :
      restoredTree files before = (movedTree files before).rename backupDir rootfsDir := by
    unfold restoredTree mvTree
    rw [mvTarget_rootfs]
  constructor
  · intro hkept
    by_contra hdir
    rw [Bool.not_eq_false, FileTree.isDir_iff] at hdir
    -- the old `rootfs.bak` has gone along
    rcases hkept.others _ _ hdir with hafter | ⟨p, hp, hpq⟩
    · rw [hfind _ (by decide) (by decide), hrestored,
        FileTree.find_rename_src (by decide) (List.prefix_refl _)] at hafter
      cases hafter
    · obtain rfl : p = rootfsDir := by simpa using hp
      exact absurd hpq (by decide)
  · intro hdir
    have htarget : mvTarget before rootfsDir backupDir = backupDir := by
      rw [mvTarget_backup, hdir]
      rfl
    have hbacked := backedUp_of_not_isDir hdir
    refine ⟨Or.inl fun rel n hn => ?_, fun q n hn => ?_, fun h => by cases h⟩
    · obtain ⟨hrootfs, hsp, hne⟩ := not_prefix_of_backup (List.prefix_append backupDir rel)
      rw [hfind _ (by simp [rootfsDir, rootfsImg])
        (by simp [rootfsDir, rootfsSparse, List.cons_prefix_cons]), hrestored,
        FileTree.find_rename_below, find_movedTree hrootfs hne hsp, hbacked rel n hn]
      rfl
    · by_cases hrootfs : rootfsDir <+: q
      · exact Or.inr ⟨rootfsDir, by simp, hrootfs⟩
      · have hne : q ≠ rootfsImg := by
          rintro rfl
          rw [himg] at hn
          cases hn
        have hsp : ¬ rootfsSparse <+: q := by
          intro hq
          rw [hsparse q hq] at hn
          cases hn
        have hbak : ¬ backupDir <+: q := by
          rintro ⟨rel, rfl⟩
          rw [← htarget] at hn
          obtain ⟨rfl, rfl⟩ := free_of_mvAllowed hwf hallowed hn
          rw [List.append_nil, htarget, ← FileTree.isDir_iff, hdir] at hn
          cases hn
        refine Or.inl ?_
        rw [hfind q hne hsp, hrestored, FileTree.find_rename_off hrootfs hbak,
          find_movedTree_ready hrootfs hbak]
        rw [find_ready, if_neg fun h => hsp (by rw [h]), if_neg hne, hn]

end Moved

/-! ## The last step and the whole run -/

section Run

variable {β : Type} {files : Files β} {a : Answers} {before : FileTree β} {v : Volume β}
  {sizeGB : Option ℕ} {Q : Unit → Volume β → Prop} {E : MigrateStep → Volume β → Prop}

theorem wp_mv {src dst : Path} {o : Outcome} {step : MigrateStep}
    (hQ : mvAllowed v.tree src dst = true → o = .ok → Q () (onTree (mvTree src dst) v))
    (hstay : (mvAllowed v.tree src dst = true → o = .fails ∨ o = .signal false) → E step v)
    (hdone : mvAllowed v.tree src dst = true → o = .signal true →
      E step (onTree (mvTree src dst) v)) : (mv src dst o step).wp Q E v := by
  unfold mv
  simp only [Attempt.wp_bind, Attempt.wp_get]
  refine Attempt.wp_failIf (fun hnot => hstay fun hallowed => ?_) fun hallowed => ?_
  · simp [hallowed] at hnot
  · have hallowed' : mvAllowed v.tree src dst = true := by simpa using hallowed
    exact wp_command (hQ hallowed') (fun h => hstay fun _ => Or.inl h) (hdone hallowed')
      fun h => hstay fun _ => Or.inr h

/-- A success leaves a complete image if nothing was left out, and an old `rootfs.bak` if it could
not be removed. -/
theorem success_kept_iff {image t : FileTree β} {keep : Path → Bool}
    (ht : Settled files before keep t) (himgfile : t.isFile rootfsImg = true)
    (hwf : before.WellFormed) (hc : Checked files before)
    (hallowed : mvAllowed before rootfsDir backupDir = true)
    (himg : before.find rootfsImg = none)
    (hsparse : ∀ q, rootfsSparse <+: q → before.find q = none)
    (himage : CopyAt before image [] ↔ Archived a before) :
    Kept before true ⟨t, image, false⟩ ↔ Archived a before ∧
      ∀ p n, backupDir <+: p → before.find p = some n → keep p = true := by
  have hothers := ht.intact_iff hwf hc.rootfs hallowed himg hsparse
  constructor
  · intro hkept
    exact ⟨himage.1 (hkept.image rfl).2, hothers.1 hkept.others⟩
  · rintro ⟨harchived, hstays⟩
    have hinImage : CopyInImage before ⟨t, image, false⟩ := ⟨himgfile, himage.2 harchived⟩
    exact ⟨Or.inr (Or.inr hinImage), hothers.2 hstays, fun _ => hinImage⟩

theorem wp_finalize (hv : Copied files a before v) (hwf : before.WellFormed)
    (hc : Checked files before)
    (hQ : ∀ v, (Kept before true v ↔ Careful a before (.ok ())) → Q () v)
    (hE : ∀ step v, Ends a before step v → E step v) : (finalize a).wp Q E v := by
  have hearly := hv.early
  obtain ⟨htree, himg, hsparse, himage⟩ := hv
  obtain ⟨tree, image, mounted⟩ := v
  obtain rfl : tree = readyTree files before := htree
  have hspares : TrapSpares a before := trapSpares_of_none himg hsparse
  have hready : Early before ⟨readyTree files before, image, false⟩ :=
    ⟨hearly.same, hearly.grown, fun h => by cases h⟩
  unfold finalize
  simp only [Attempt.wp_bind]
  refine wp_command (fun _ => ?_) (fun _ => hE _ _ (hearly.ends rfl rfl))
    (fun _ => hE _ _ (hready.ends rfl rfl)) fun _ => hE _ _ (hearly.ends rfl rfl)
  refine wp_mv (fun hallowed _ => ?_) (fun hstay => hE _ _ ?_) fun hallowed hdone => hE _ _ ?_
  · -- `rootfs` is moved
    rw [mvAllowed_ready] at hallowed
    have hends : ∀ t, Settled files before (fun _ => true) t → t.isFile rootfsImg = true →
        ¬ MovedBack a → Ends a before .moveSparse ⟨t, image, false⟩ := by
      intro t ht hfile hback
      rw [ends_iff rfl, ht.kept_all_iff hfile hwf hc hallowed himg hsparse himage]
      simp [Careful, hspares, hback, MigrateStep.trapped]
    change Attempt.wp _ _ _ (⟨movedTree files before, image, false⟩ : Volume β)
    simp only [Attempt.wp_tryCatch]
    refine wp_mv (fun _ _ => ?_) (fun hstay => ?_) fun _ hdone => ?_
    · -- and `rootfs.sparse` is in its place
      simp only [Attempt.wp_modify]
      have hsettled : Settled files before a.bakKept
          ((swappedTree files before).rmTree a.bakKept backupDir) :=
        (settled_swappedTree hsparse).rmTree
      have hfile :
          ((swappedTree files before).rmTree a.bakKept backupDir).isFile rootfsImg = true :=
        isFile_rmTree_backup isFile_swappedTree
      have hendsBak : Ends a before .removeBak
          ⟨(swappedTree files before).rmTree a.bakKept backupDir, image, false⟩ := by
        rw [ends_iff rfl, hsettled.kept_iff hfile hwf hc hallowed himg hsparse himage]
        simp [Careful, hspares, OldBackupStays, MigrateStep.trapped]
      exact Attempt.wp_failIf (fun _ => hE _ _ hendsBak) fun _ => hQ _
        (success_kept_iff hsettled hfile hwf hc hallowed himg hsparse himage)
    · rcases hstay (mvAllowed_rootfs _) with hfails | hsignal
      · -- the rename back
        simp only [hfails, Attempt.wp_bind, Attempt.wp_tryCatch, Attempt.wp_pure, Attempt.wp_throw]
        have hstays : (a.moveBack = .fails ∨ a.moveBack = .signal false) →
            Ends a before .moveSparse ⟨movedTree files before, image, false⟩ := by
          intro hback
          refine hends _ settled_movedTree isFile_movedTree fun hmoved => ?_
          rcases hback with hback | hback <;> simp [MovedBack, hback] at hmoved
        have hrestores : (a.moveBack = .ok ∨ a.moveBack = .signal true) →
            Ends a before .moveSparse ⟨restoredTree files before, image, false⟩ := by
          intro hback
          have hmoved : MovedBack a := ⟨hfails, hback⟩
          rw [ends_iff rfl, restored_kept_iff hwf hallowed himg hsparse]
          simp only [Careful, hspares, hmoved, MigrateStep.trapped, true_and, forall_const]
          exact ⟨fun hdir => ⟨Or.inl (backedUp_of_not_isDir hdir), hdir⟩, And.right⟩
        refine wp_mv (fun _ hok => hE _ _ (hrestores (Or.inl hok))) (fun hback => hE _ _ ?_)
          fun _ hdone => hE _ _ (hrestores (Or.inr hdone))
        exact hstays (hback (mvAllowed_rootfs _))
      · simp only [hsignal, Attempt.wp_throw]
        refine hE _ _ (hends _ settled_movedTree isFile_movedTree fun hmoved => ?_)
        simp [MovedBack, hsignal] at hmoved
    · simp only [hdone, Attempt.wp_throw]
      refine hE _ _ (hends _ (settled_swappedTree hsparse) isFile_swappedTree fun hmoved => ?_)
      simp [MovedBack, hdone] at hmoved
  · -- `rootfs` stays where it is
    rw [ends_iff rfl, hready.kept_iff]
    simp only [Careful, hspares, MigrateStep.trapped, true_and, forall_const, true_iff]
    intro hsignal hallowed
    rcases hstay (mvAllowed_ready.trans hallowed) with h | h <;> simp [h] at hsignal
  · -- it is moved all the same
    rw [mvAllowed_ready] at hallowed
    show Ends a before .moveRootfs ⟨movedTree files before, image, false⟩
    rw [ends_iff rfl, settled_movedTree.kept_all_iff isFile_movedTree hwf hc hallowed himg hsparse
      himage]
    simp [Careful, hspares, hdone, hallowed, MigrateStep.trapped]

/-- A refused migration changes nothing. -/
theorem ends_of_not_trapped {image : FileTree β} {step : MigrateStep}
    (hstep : step.trapped = false) : Ends a before step ⟨before, image, false⟩ := by
  have hkept : Kept before false (⟨before, image, false⟩ : Volume β) :=
    ⟨Or.inl fun _ _ h => h, FileTree.Intact.refl _ _, fun h => by cases h⟩
  simp [Ends, Careful, hstep, hkept]

theorem wp_migrateSteps (files : Files β) (a : Answers) (sizeGB : Option ℕ)
    (hwf : before.WellFormed) (image : FileTree β) :
    (migrateSteps files a sizeGB).wp
      (fun _ v => Kept before true v ↔ Careful a before (.ok ()))
      (fun step v => Ends a before step v) ⟨before, image, false⟩ := by
  unfold migrateSteps
  simp only [Attempt.wp_bind]
  refine wp_checks (fun hc => ?_) fun step hstep => ends_of_not_trapped hstep
  refine wp_createImage hc (fun himg => ?_) fun step v htrap hearly hv => hv.ends htrap hearly
  refine wp_mountImage hc himg hwf (fun hsparse => ?_)
    fun step v htrap hearly hv => hv.ends htrap hearly
  have hfree : ∀ q, rootfsSparse <+: q → before.find q = none := by
    rintro q ⟨rel, rfl⟩
    cases rel with
    | nil => simpa using hsparse
    | cons r rs => exact hwf.find_below (by simp [hsparse]) (by simp)
  refine wp_copyRootfs hc himg hfree (fun v hv => ?_)
    fun step v htrap hearly hv => hv.ends htrap hearly
  exact wp_finalize hv hwf hc (fun _ h => h) fun _ _ h => h

/-- What the trap makes of a run of the steps. -/
def trapOf (a : Answers) :
    Except MigrateStep Unit × Volume β → Except MigrateStep Unit × Volume β
  | (.ok u, v) => (.ok u, v)
  | (.error step, v) => (.error step, if step.trapped then migrateCleanup a v else v)

theorem cmdMigrate_eq : cmdMigrate files a sizeGB v = trapOf a (migrateSteps files a sizeGB v) := by
  have htrap : ∀ step : MigrateStep, ∀ w : Volume β,
      ((do
        if step.trapped then
          modify (migrateCleanup a)
        throw step : MigrateM β Unit) w) =
      (.error step, if step.trapped then migrateCleanup a w else w) := by
    intro step w
    cases step.trapped <;> rfl
  unfold cmdMigrate
  simp only [tryCatch, tryCatchThe, MonadExceptOf.tryCatch]
  rcases migrateSteps files a sizeGB v with ⟨r, w⟩
  cases r with
  | ok u => rfl
  | error step => exact htrap step w

/-- **A migration loses nothing exactly if it was careful**, wherever it ends. -/
theorem migration_keeps_iff (files : Files β) (a : Answers) (sizeGB : Option ℕ)
    (before image : FileTree β) (hwf : before.WellFormed) :
    Kept before (cmdMigrate files a sizeGB ⟨before, image, false⟩).1.isOk
        (cmdMigrate files a sizeGB ⟨before, image, false⟩).2 ↔
      Careful a before (cmdMigrate files a sizeGB ⟨before, image, false⟩).1 := by
  have hspec := wp_migrateSteps files a sizeGB hwf image
  rw [cmdMigrate_eq]
  unfold Attempt.wp at hspec
  split at hspec
  · next hrun =>
    rw [hrun]
    exact hspec
  · next hrun =>
    rw [hrun]
    exact hspec

end Run

/-! ## Two runs -/

section Example

/-- A rootfs with one file, and a backup of something else. -/
def withBackup : FileTree String :=
  ⟨[([], .dir), (rootfsDir, .dir), (rootfsDir ++ ["etc"], .file "new"), (backupDir, .dir),
    (backupDir ++ ["notes"], .file "old")]⟩

def plainRootfs : FileTree String :=
  ⟨[([], .dir), (rootfsDir, .dir), (rootfsDir ++ ["etc"], .file "new")]⟩

def stringFiles : Files String where
  regular _ := true
  sparse := ""

/-- Every command works. -/
def smooth : Answers where
  rootfsMounted := false
  toolsFound := true
  truncate := .ok
  sized := true
  mkfs := .ok
  mkdir := .ok
  mount := .ok
  archived _ := true
  extracted _ := true
  tarExtract := .ok
  extracted_of_ok _ _ := rfl
  umount := .ok
  moveRootfs := .ok
  moveSparse := .ok
  moveBack := .ok
  removeSignal := false
  bakKept _ := false
  trapUmount := true
  trapKept _ := false

/-- Without a `rootfs.bak` in the way a smooth run keeps everything. -/
theorem migration_keeps_plain :
    (cmdMigrate stringFiles smooth (some 8) ⟨plainRootfs, ⟨[]⟩, false⟩).1.isOk = true ∧
    Kept plainRootfs (cmdMigrate stringFiles smooth (some 8) ⟨plainRootfs, ⟨[]⟩, false⟩).1.isOk
      (cmdMigrate stringFiles smooth (some 8) ⟨plainRootfs, ⟨[]⟩, false⟩).2 := by
  have hrun : (cmdMigrate stringFiles smooth (some 8) ⟨plainRootfs, ⟨[]⟩, false⟩).1 = .ok () := by
    decide +kernel
  have hnoBackup : ∀ q n, backupDir <+: q → plainRootfs.find q ≠ some n := by
    rintro q n ⟨rel, rfl⟩
    simp [plainRootfs, FileTree.find, List.lookup_cons, rootfsDir, backupDir]
  refine ⟨by rw [hrun]; rfl, ?_⟩
  refine (migration_keeps_iff stringFiles smooth (some 8) plainRootfs ⟨[]⟩
    (FileTree.wellFormed_of_listsParents (by decide +kernel))).2 ?_
  rw [hrun]
  exact ⟨fun _ _ _ _ => rfl, fun p n hp hn => absurd hn (hnoBackup p n hp)⟩

/-- The tar that writes fails half-way: the script reports success, and the file is gone. -/
theorem migration_loses_rest :
    (cmdMigrate stringFiles { smooth with archived := fun p => p == [] } (some 8)
      ⟨plainRootfs, ⟨[]⟩, false⟩).1.isOk = true ∧
    ¬ Kept plainRootfs (cmdMigrate stringFiles { smooth with archived := fun p => p == [] } (some 8)
        ⟨plainRootfs, ⟨[]⟩, false⟩).1.isOk
      (cmdMigrate stringFiles { smooth with archived := fun p => p == [] } (some 8)
        ⟨plainRootfs, ⟨[]⟩, false⟩).2 := by
  have hrun : (cmdMigrate stringFiles { smooth with archived := fun p => p == [] } (some 8)
      ⟨plainRootfs, ⟨[]⟩, false⟩).1.isOk = true := by decide +kernel
  refine ⟨hrun, fun hkept => ?_⟩
  have hcopy := (hkept.image hrun).2 ["etc"] (.file "new") (by decide +kernel)
  revert hcopy
  decide +kernel

/-- A backup of something else is removed along with the rootfs. -/
example : withBackup.find (backupDir ++ ["notes"]) = some (.file "old") ∧
    (cmdMigrate stringFiles smooth (some 8) ⟨withBackup, ⟨[]⟩, false⟩).2.tree.find
      (backupDir ++ ["notes"]) = none := by
  decide +kernel

end Example

end Droidspaces.SparseManager
