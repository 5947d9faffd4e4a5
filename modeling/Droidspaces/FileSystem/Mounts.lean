import Droidspaces.FileSystem.PathWalk
import Droidspaces.Sequential.FileTree
import Mathlib.Logic.Function.Basic

/-!
# Mounts

Directories and files are at places on disks; what processes see of them are positions, a place
together with the mount that it is looked at through.  A mount is written as the frames that lead
to it, innermost first: what it shows, and where in the mount below it is.  So two mounts are the
same exactly if they are reached in the same way, and `..` at the root of one goes on in the next.

`HostFiles.touched` records what was made, or given another owner.
-/

namespace FileSystem

open Sequential

inductive Content where
  | bytes
  | link (target : List Char)
  deriving DecidableEq

/-- A directory or a file on a disk, whether or not it is there. -/
structure Place where
  disk : ℕ
  path : Path
  deriving DecidableEq

def Place.child (l : Place) (name : List Char) : Place := ⟨l.disk, l.path ++ [String.ofList name]⟩

def Place.up (l : Place) : Place := ⟨l.disk, l.path.dropLast⟩

/-- At or below `top`. -/
def Place.Below (l top : Place) : Prop := top.disk = l.disk ∧ top.path <+: l.path

instance (l top : Place) : Decidable (l.Below top) := inferInstanceAs (Decidable (_ ∧ _))

theorem Place.below_refl (l : Place) : l.Below l := ⟨rfl, List.prefix_refl _⟩

theorem Place.Below.trans {l₁ l₂ l₃ : Place} (h : l₁.Below l₂) (h' : l₂.Below l₃) :
    l₁.Below l₃ :=
  ⟨h'.1.trans h.1, h'.2.trans h.2⟩

theorem Place.below_child (l : Place) (name : List Char) : (l.child name).Below l :=
  ⟨rfl, List.prefix_append _ _⟩

/-- One mount on another: what it shows, and what it is mounted on. -/
structure Frame where
  root : Place
  on : Place
  deriving DecidableEq

/-- The mount of `/` is `[]`. -/
abbrev Mnt := List Frame

structure Pos where
  mnt : Mnt
  place : Place
  deriving DecidableEq

def Mnt.root : Mnt → Place
  | [] => ⟨0, []⟩
  | frame :: _ => frame.root

/-- Where a mount is mounted. -/
def Mnt.spot : Mnt → Option Pos
  | [] => none
  | frame :: mnt => some ⟨mnt, frame.on⟩

/-- Out of the mounts that `l` is the root of. -/
def Mnt.climb : Mnt → Place → Pos
  | [], l => ⟨[], l⟩
  | frame :: mnt, l => if l = frame.root then Mnt.climb mnt frame.on else ⟨frame :: mnt, l⟩

/-- What `getcwd` and `realpath` call a position. -/
def Mnt.pathOf : Mnt → Place → Path
  | [], l => l.path
  | frame :: mnt, l => Mnt.pathOf mnt frame.on ++ l.path.drop frame.root.path.length

/-- `ours` is set for the mounts that the modelled code has made. -/
structure Mount where
  mnt : Mnt
  ro : Bool
  ours : Bool

/-- Of two mounts in one place the first one listed is on top. -/
structure HostFiles where
  disks : ℕ → FileTree Content
  mounts : List Mount
  touched : List Place

namespace HostFiles

def find (h : HostFiles) (l : Place) : Option (Node Content) := (h.disks l.disk).find l.path

/-- Into the mounts on `p`. -/
def cross (mounts : List Mount) : ℕ → Pos → Pos
  | 0, p => p
  | fuel + 1, p =>
    match mounts.find? fun m => m.mnt.spot = some p with
    | some m => cross mounts fuel ⟨m.mnt, m.mnt.root⟩
    | none => p

def onTop (h : HostFiles) (p : Pos) : Pos := cross h.mounts h.mounts.length p

/-- What paths are looked up in. -/
def space (h : HostFiles) : Space Pos where
  root := ⟨[], ⟨0, []⟩⟩
  parent p :=
    let q := p.mnt.climb p.place
    h.onTop ⟨q.mnt, q.place.up⟩
  look p name :=
    match h.find (p.place.child name) with
    | none => .missing
    | some .dir => .dir (h.onTop ⟨p.mnt, p.place.child name⟩)
    | some (.file .bytes) => .file (h.onTop ⟨p.mnt, p.place.child name⟩)
    | some (.file (.link target)) => .link target

def writable (h : HostFiles) (mnt : Mnt) : Bool := h.mounts.all fun m => m.mnt ≠ mnt || !m.ro

def put (h : HostFiles) (l : Place) (n : Node Content) : HostFiles :=
  { h with
    disks := Function.update h.disks l.disk ((h.disks l.disk).put l.path n)
    touched := l :: h.touched }

/-! ## Making directories -/

/-- What becomes of making something at a path. -/
inductive Making where
  | fails
  | there
  | new (p : Pos) (name : List Char)

def making (h : HostFiles) (cwd : Pos) (names : List (List Char)) : Making :=
  match h.space.entryOf cwd names with
  | none =>
    match h.space.walk maxLinks cwd names with
    | some _ => .there
    | none => .fails
  | some (p, name) =>
    match h.space.look p name with
    | .missing => if h.writable p.mnt then .new p name else .fails
    | _ => .there

/-- `mkdir`, with `EEXIST` as success. -/
def mkdir (h : HostFiles) (cwd : Pos) (names : List (List Char)) : Option HostFiles :=
  match h.making cwd names with
  | .fails => none
  | .there => some h
  | .new p name => some (h.put (p.place.child name) .dir)

/-- The directories of a path one after the other, up to the first one that fails. -/
def mkdirs (h : HostFiles) (cwd : Pos) (done : List (List Char)) : List (List Char) → HostFiles
  | [] => h
  | name :: names =>
    match h.mkdir cwd (done ++ [name]) with
    | none => h
    | some h' => h'.mkdirs cwd (done ++ [name]) names

/-- The first directory that `mkdirs` makes. -/
def firstNew (h : HostFiles) (cwd : Pos) (done : List (List Char)) : List (List Char) → Option Place
  | [] => none
  | name :: names =>
    match h.making cwd (done ++ [name]) with
    | .fails => none
    | .there => h.firstNew cwd (done ++ [name]) names
    | .new p last => some (p.place.child last)

/-! ## Mounting -/

/-- The frames from the mount of `s` to a mount that is below `s`. -/
def belowIn (s : Pos) (mnt : Mnt) : Option Mnt :=
  if s.mnt <:+ mnt then
    let inner := mnt.take (mnt.length - s.mnt.length)
    match inner.getLast? with
    | some frame => if frame.on.Below s.place then some inner else none
    | none => none
  else none

/-- `mount` with `MS_BIND | MS_REC`. -/
def bindRec (h : HostFiles) (s p : Pos) : HostFiles :=
  let mnt : Mnt := ⟨s.place, p.place⟩ :: p.mnt
  { h with
    mounts := ⟨mnt, !h.writable s.mnt, true⟩ ::
      (h.mounts.filterMap fun m => (belowIn s m.mnt).map fun inner => ⟨inner ++ mnt, m.ro, true⟩) ++
        h.mounts }

/-- `umount2` with `MNT_DETACH`. -/
def detach (h : HostFiles) (mnt : Mnt) : HostFiles :=
  { h with mounts := h.mounts.filter fun m => ¬ mnt <:+ m.mnt }

def setReadOnly (h : HostFiles) (mnt : Mnt) : HostFiles :=
  { h with mounts := h.mounts.map fun m => if m.mnt = mnt then { m with ro := true } else m }

/-! ## What is always so -/

variable {h h' : HostFiles} {l k : Place} {p q cwd : Pos} {n : Node Content} {mnt : Mnt}
  {frame : Frame}
  {names : List (List Char)} {name : List Char}

/-- A mount shows something of the kind that it is mounted on. -/
structure FrameOk (h : HostFiles) (frame : Frame) : Prop where
  on : (h.find frame.on).isSome = true
  root : (h.find frame.root).isSome = true
  kind : h.find frame.on = some .dir ↔ h.find frame.root = some .dir

structure Sound (h : HostFiles) : Prop where
  wf : ∀ d, (h.disks d).WellFormed
  root : h.find ⟨0, []⟩ = some .dir
  roots : ∀ d, (h.find ⟨d, []⟩).isSome = true → h.find ⟨d, []⟩ = some .dir
  frames : ∀ m ∈ h.mounts, ∀ frame ∈ m.mnt, FrameOk h frame

/-- A directory, looked at through mounts that are in order. -/
structure IsDir (h : HostFiles) (p : Pos) : Prop where
  dir : h.find p.place = some .dir
  frames : ∀ frame ∈ p.mnt, FrameOk h frame

/-- The same for what is not a directory. -/
structure IsFile (h : HostFiles) (p : Pos) : Prop where
  there : (h.find p.place).isSome = true
  file : h.find p.place ≠ some .dir
  frames : ∀ frame ∈ p.mnt, FrameOk h frame

theorem find_put : (h.put l n).find k = if k = l then some n else h.find k := by
  unfold find put
  by_cases hd : k.disk = l.disk
  · by_cases hp : k.path = l.path
    · have hkl : k = l := by
        cases k
        cases l
        simp_all
      simp [hkl, FileTree.find_put]
    · have hkl : k ≠ l := fun heq => hp (by rw [heq])
      simp [hd, FileTree.find_put, hp, hkl]
  · have hkl : k ≠ l := fun heq => hd (by rw [heq])
    simp [Function.update_of_ne hd, hkl]

theorem Sound.cross (hh : h.Sound) {fuel : ℕ} (hframes : ∀ frame ∈ p.mnt, FrameOk h frame)
    (hthere : (h.find p.place).isSome = true) :
    (∀ frame ∈ (cross h.mounts fuel p).mnt, FrameOk h frame) ∧
      (h.find (cross h.mounts fuel p).place).isSome = true ∧
      (h.find (cross h.mounts fuel p).place = some .dir ↔ h.find p.place = some .dir) := by
  induction fuel generalizing p with
  | zero => exact ⟨hframes, hthere, Iff.rfl⟩
  | succ fuel ih =>
    unfold HostFiles.cross
    split
    · next m hm =>
      have hmem : m ∈ h.mounts := List.mem_of_find?_eq_some hm
      have hspot : m.mnt.spot = some p := by simpa using List.find?_some hm
      have hok := hh.frames m hmem
      cases hmnt : m.mnt with
      | nil => simp [hmnt, Mnt.spot] at hspot
      | cons frame mnt =>
        rw [hmnt] at hok hspot
        obtain rfl : ⟨mnt, frame.on⟩ = p := by simpa [Mnt.spot] using hspot
        have hframe := hok frame (by simp)
        obtain ⟨hframes', hthere', hkind⟩ := ih (p := ⟨frame :: mnt, frame.root⟩) hok hframe.root
        exact ⟨hframes', hthere', hkind.trans hframe.kind.symm⟩
    · exact ⟨hframes, hthere, Iff.rfl⟩

theorem Sound.onTop_dir (hh : h.Sound) (hp : h.IsDir p) : h.IsDir (h.onTop p) := by
  obtain ⟨hframes, -, hkind⟩ := hh.cross hp.frames (by rw [hp.dir]; rfl)
  exact ⟨hkind.2 hp.dir, hframes⟩

theorem Sound.onTop_file (hh : h.Sound) (hp : h.IsFile p) : h.IsFile (h.onTop p) := by
  obtain ⟨hframes, hthere, hkind⟩ := hh.cross hp.frames hp.there
  exact ⟨hthere, fun hdir => hp.file (hkind.1 hdir), hframes⟩

theorem climb_there (hframes : ∀ frame ∈ mnt, FrameOk h frame) (hl : (h.find l).isSome = true) :
    (h.find (mnt.climb l).place).isSome = true ∧
      ∀ frame ∈ (mnt.climb l).mnt, FrameOk h frame := by
  induction mnt generalizing l with
  | nil => exact ⟨hl, hframes⟩
  | cons frame mnt ih =>
    unfold Mnt.climb
    split
    · exact ih (fun f hf => hframes f (List.mem_cons_of_mem _ hf)) (hframes frame (by simp)).on
    · exact ⟨hl, hframes⟩

/-- Above what is there is a directory. -/
theorem Sound.find_up (hh : h.Sound) (hl : (h.find l).isSome = true) :
    h.find l.up = some .dir := by
  rcases List.eq_nil_or_concat l.path with hnil | ⟨path, last, hpath⟩
  · have hup : l.up = ⟨l.disk, []⟩ := by simp [Place.up, hnil]
    have hl' : l = ⟨l.disk, []⟩ := by rw [← hnil]
    rw [hup]
    rw [hl'] at hl
    exact hh.roots _ hl
  · obtain ⟨m, hm⟩ := Option.isSome_iff_exists.1 hl
    unfold HostFiles.find at hm
    rw [List.concat_eq_append] at hpath
    rw [hpath] at hm
    simpa [HostFiles.find, Place.up, hpath] using hh.wf l.disk path last m hm

theorem Sound.parent (hh : h.Sound) (hp : h.IsDir p) : h.IsDir (h.space.parent p) := by
  obtain ⟨hthere, hframes⟩ := climb_there hp.frames (by rw [hp.dir]; rfl)
  exact hh.onTop_dir ⟨hh.find_up hthere, hframes⟩

theorem Sound.look_dir (hh : h.Sound) (hp : h.IsDir p) (hq : h.space.look p name = .dir q) :
    h.IsDir q := by
  simp only [space] at hq
  split at hq
  · cases hq
  · next hfind =>
    obtain rfl := Entry.dir.inj hq
    exact hh.onTop_dir ⟨hfind, hp.frames⟩
  · cases hq
  · cases hq

theorem Sound.look_file (hh : h.Sound) (hp : h.IsDir p) (hq : h.space.look p name = .file q) :
    h.IsFile q := by
  simp only [space] at hq
  split at hq
  · cases hq
  · cases hq
  · next hfind =>
    obtain rfl := Entry.file.inj hq
    exact hh.onTop_file ⟨by simp [hfind], by simp [hfind], hp.frames⟩
  · cases hq

/-- **A lookup ends in order.** -/
theorem Sound.walk (hh : h.Sound) (hp : h.IsDir p) {links : ℕ} {found : Found Pos}
    (hfound : h.space.walk links p names = some found) : found.Sat h.IsDir h.IsFile :=
  Space.walk_of_inv (fun _ => hh.parent) (fun _ _ _ => hh.look_dir) (fun _ _ _ => hh.look_file)
    ⟨hh.root, by simp [space]⟩ hp hfound

theorem Sound.dirOf (hh : h.Sound) (hp : h.IsDir p) (hq : h.space.dirOf p names = some q) :
    h.IsDir q :=
  hh.walk hp (Space.dirOf_eq.1 hq)

theorem Sound.lstat_dir (hh : h.Sound) (hp : h.IsDir p)
    (hq : h.space.lstat p names = some (.dir q)) : h.IsDir q := by
  unfold Space.lstat at hq
  split at hq
  · obtain rfl := Entry.dir.inj (Option.some.inj hq)
    exact hp
  · split at hq
    · obtain ⟨found, hfound, hentry⟩ := Option.map_eq_some_iff.1 hq
      have hsat := hh.walk hp hfound
      cases found with
      | dir r =>
        obtain rfl := Entry.dir.inj hentry
        exact hsat
      | file r => cases hentry
    · obtain ⟨r, hr, hlook⟩ := Option.map_eq_some_iff.1 hq
      exact hh.look_dir (hh.dirOf hp hr) hlook

theorem Sound.lstat_file (hh : h.Sound) (hp : h.IsDir p)
    (hq : h.space.lstat p names = some (.file q)) : h.IsFile q := by
  unfold Space.lstat at hq
  split at hq
  · cases hq
  · split at hq
    · obtain ⟨found, hfound, hentry⟩ := Option.map_eq_some_iff.1 hq
      have hsat := hh.walk hp hfound
      cases found with
      | dir r => cases hentry
      | file r =>
        obtain rfl := Entry.file.inj hentry
        exact hsat
    · obtain ⟨r, hr, hlook⟩ := Option.map_eq_some_iff.1 hq
      exact hh.look_file (hh.dirOf hp hr) hlook

/-! ## Putting something where there was nothing -/

/-- Nothing that was there is touched by it. -/
theorem find_put_of_some (hl : h.find l = none) {m : Node Content} (hk : h.find k = some m) :
    (h.put l n).find k = some m := by
  have hne : k ≠ l := fun heq => by
    rw [heq, hl] at hk
    cases hk
  rw [find_put, if_neg hne, hk]

theorem find_put_iff (hl : h.find l = none) (hk : (h.find k).isSome = true) :
    (h.put l n).find k = h.find k := by
  obtain ⟨m, hm⟩ := Option.isSome_iff_exists.1 hk
  rw [find_put_of_some hl hm, hm]

theorem FrameOk.put (hframe : h.FrameOk frame) (hl : h.find l = none) :
    (h.put l n).FrameOk frame := by
  constructor
  · rw [find_put_iff hl hframe.on]
    exact hframe.on
  · rw [find_put_iff hl hframe.root]
    exact hframe.root
  · rw [find_put_iff hl hframe.on, find_put_iff hl hframe.root]
    exact hframe.kind

theorem disks_put (d : ℕ) (path : Path) : ((h.put l n).disks d).find path =
    if (⟨d, path⟩ : Place) = l then some n else (h.disks d).find path :=
  find_put (h := h) (k := ⟨d, path⟩)

theorem Sound.put (hh : h.Sound) (hp : h.find l = some .dir) (hnew : h.find (l.child name) = none) :
    (h.put (l.child name) n).Sound := by
  constructor
  · intro d path last m hm
    rw [disks_put] at hm ⊢
    split at hm
    · next heq =>
      have hlast : d = l.disk ∧ path = l.path := by
        have hparts : d = l.disk ∧ path = l.path ∧ last = String.ofList name := by
          simpa [Place.child] using heq
        exact ⟨hparts.1, hparts.2.1⟩
      obtain ⟨rfl, rfl⟩ := hlast
      have hne : (⟨l.disk, l.path⟩ : Place) ≠ l.child name := fun heq => by
        simpa [Place.child] using congrArg (fun k => k.path.length) heq
      rw [if_neg hne]
      exact hp
    · have hdir := hh.wf d path last m hm
      have hne : (⟨d, path⟩ : Place) ≠ l.child name := fun heq => by
        rw [← heq] at hnew
        unfold HostFiles.find at hnew
        rw [hdir] at hnew
        cases hnew
      rw [if_neg hne]
      exact hdir
  · exact find_put_of_some hnew hh.root
  · intro d hd
    have hne : (⟨d, []⟩ : Place) ≠ l.child name := fun heq => by
      simpa [Place.child] using congrArg (fun k => k.path.length) heq
    rw [find_put, if_neg hne] at hd ⊢
    exact hh.roots d hd
  · exact fun m hm frame hframe => (hh.frames m hm frame hframe).put hnew

theorem space_within (hl : h.find l = none) : h.space.Within (h.put l n).space := by
  refine ⟨rfl, ?_, ?_⟩
  · rfl
  · intro p name hlook
    have hthere : (h.find (p.place.child name)).isSome = true := by
      by_contra hnone
      refine hlook ?_
      simp only [space]
      rw [Option.not_isSome_iff_eq_none.1 hnone]
    simp only [space]
    rw [find_put_iff hl hthere]
    rfl

/-! ## What is made below something new -/

/-- An empty directory that things can be made in. -/
structure Fresh (h : HostFiles) (p : Pos) : Prop where
  dir : h.IsDir p
  empty : ∀ name, h.find (p.place.child name) = none
  writable : h.writable p.mnt = true

/-- What a path leads to is there already. -/
structure Here (h : HostFiles) (cwd : Pos) (names : List (List Char)) (p : Pos) : Prop where
  walk : h.space.walk maxLinks cwd names = some (.dir p)
  there : h.making cwd names = .there

/-- From `h` to `h'` nothing was touched but at or below `l`. -/
structure Grows (h h' : HostFiles) (l : Place) : Prop where
  sound : h'.Sound
  mounts : h'.mounts = h.mounts
  keeps : ∀ k m, h.find k = some m → h'.find k = some m
  touched : ∃ new, h'.touched = new ++ h.touched ∧ ∀ k ∈ new, k.Below l

theorem onTop_of_none (hh : h.Sound) (hp : h.find p.place = none) : h.onTop p = p := by
  have hspot : h.mounts.find? (fun m => m.mnt.spot = some p) = none := by
    rw [List.find?_eq_none]
    intro m hm hspot
    cases hmnt : m.mnt with
    | nil => simp [hmnt, Mnt.spot] at hspot
    | cons frame mnt =>
      have hon := (hh.frames m hm frame (by simp [hmnt])).on
      have hframe : (⟨mnt, frame.on⟩ : Pos) = p := by simpa [hmnt, Mnt.spot] using hspot
      rw [← hframe] at hp
      simp [hp] at hon
  unfold onTop
  cases h.mounts.length with
  | zero => rfl
  | succ fuel =>
    unfold HostFiles.cross
    rw [hspot]

theorem making_new (hnew : h.making cwd names = .new p name) :
    Space.Proper name ∧ h.find (p.place.child name) = none ∧ h.writable p.mnt = true ∧
      ∃ pre k, names = pre ++ name :: List.replicate k [] ∧ h.space.dirOf cwd pre = some p := by
  unfold making at hnew
  split at hnew
  · split at hnew <;> cases hnew
  · next q last hentry =>
    split at hnew
    · next hmissing =>
      split at hnew
      · next hwritable =>
        obtain ⟨rfl, rfl⟩ := Making.new.inj hnew
        obtain ⟨hproper, hpre⟩ := Space.entryOf_eq_some hentry
        refine ⟨hproper, ?_, hwritable, hpre⟩
        simp only [space] at hmissing
        split at hmissing
        · next hnone => exact hnone
        all_goals cases hmissing
      · cases hnew
    · cases hnew

theorem look_put (hh : h.Sound) (hnone : h.find (p.place.child name) = none) :
    (h.put (p.place.child name) .dir).space.look p name =
      .dir ⟨p.mnt, p.place.child name⟩ := by
  have htop : h.onTop ⟨p.mnt, p.place.child name⟩ = ⟨p.mnt, p.place.child name⟩ :=
    onTop_of_none hh hnone
  simp only [space, find_put, if_true]
  exact congrArg Entry.dir htop

/-- **What was just made is empty, and where the path leads.** -/
theorem new_here (hh : h.Sound) (hcwd : h.IsDir cwd) (hnew : h.making cwd names = .new p name) :
    (h.put (p.place.child name) .dir).Sound ∧
      (h.put (p.place.child name) .dir).Fresh ⟨p.mnt, p.place.child name⟩ ∧
      (h.put (p.place.child name) .dir).Here cwd names ⟨p.mnt, p.place.child name⟩ := by
  obtain ⟨hproper, hnone, hwritable, pre, k, rfl, hpre⟩ := making_new hnew
  have hp : h.IsDir p := hh.dirOf hcwd hpre
  have hlook := look_put hh hnone
  have hwalk := (space_within (n := .dir) hnone).walk (Space.dirOf_eq.1 hpre)
  refine ⟨hh.put hp.dir hnone, ⟨⟨?_, ?_⟩, ?_, hwritable⟩, ?_, ?_⟩
  · simp [find_put]
  · exact fun frame hframe => (hp.frames frame hframe).put hnone
  · intro last
    have hne : (p.place.child name).child last ≠ p.place.child name := fun heq => by
      simpa [Place.child] using congrArg (fun l => l.path.length) heq
    rw [find_put, if_neg hne]
    refine (hh.wf p.place.disk).find_below (fun hdir => ?_)
      (List.cons_ne_nil (String.ofList last) [])
    unfold HostFiles.find at hnone
    rw [show (p.place.child name).disk = p.place.disk from rfl, hdir] at hnone
    cases hnone
  · apply Space.walk_append _ hwalk
    intro follow
    rw [Space.walkWith_dir hproper hlook]
    exact Space.walkWith_slashes k
  · unfold making
    rw [Space.entryOf_snoc hproper, Space.dirOf_eq.2 hwalk]
    simp [hlook]

theorem Here.skip (hhere : h.Here cwd names p) (hname : name = [] ∨ name = ['.']) :
    h.Here cwd (names ++ [name]) p := by
  have hwalk : h.space.walk maxLinks cwd (names ++ [name]) = some (.dir p) :=
    Space.walk_append (fun _ => Space.walkWith_skip hname) hhere.walk
  refine ⟨hwalk, ?_⟩
  rcases hname with rfl | rfl
  · have hthere := hhere.there
    have hentry : h.space.entryOf cwd (names ++ [[]]) = h.space.entryOf cwd names := by
      unfold Space.entryOf
      rw [List.rdropWhile_concat_pos _ _ _ (by simp)]
    unfold making at hthere ⊢
    rw [hentry, hwalk]
    split
    · rfl
    · next q last hq =>
      rw [hq] at hthere
      exact hthere
  · have hentry : h.space.entryOf cwd (names ++ [['.']]) = none := by
      unfold Space.entryOf
      rw [List.rdropWhile_concat_neg _ _ _ (by simp)]
      simp
    unfold making
    rw [hentry, hwalk]

theorem Fresh.making (hp : h.Fresh p) (hhere : h.Here cwd names p) (hname : Space.Proper name) :
    h.making cwd (names ++ [name]) = .new p name := by
  have hentry : h.space.entryOf cwd (names ++ name :: List.replicate 0 []) = _ :=
    Space.entryOf_snoc hname 0
  rw [List.replicate_zero, Space.dirOf_eq.2 hhere.walk] at hentry
  have hlook : h.space.look p name = .missing := by
    simp only [space]
    rw [hp.empty name]
  unfold HostFiles.making
  rw [hentry]
  simp [hlook, hp.writable]

theorem Grows.refl (hh : h.Sound) (l : Place) : h.Grows h l :=
  ⟨hh, rfl, fun _ _ hk => hk, [], rfl, by simp⟩

theorem Grows.put (hh : h.Sound) (hp : h.find p.place = some .dir)
    (hnone : h.find (p.place.child name) = none) (hl : (p.place.child name).Below l) :
    h.Grows (h.put (p.place.child name) n) l where
  sound := hh.put hp hnone
  mounts := rfl
  keeps _ _ hk := find_put_of_some hnone hk
  touched := ⟨[p.place.child name], rfl, by simpa using hl⟩

theorem Grows.trans {h' h'' : HostFiles} (hl : h.Grows h' l) (hl' : h'.Grows h'' l) :
    h.Grows h'' l where
  sound := hl'.sound
  mounts := hl'.mounts.trans hl.mounts
  keeps _ _ hfind := hl'.keeps _ _ (hl.keeps _ _ hfind)
  touched := by
    obtain ⟨new, hnew, hbelow⟩ := hl.touched
    obtain ⟨new', hnew', hbelow'⟩ := hl'.touched
    refine ⟨new' ++ new, by rw [hnew', hnew, List.append_assoc], ?_⟩
    intro x hx
    rcases List.mem_append.1 hx with hx | hx
    · exact hbelow' x hx
    · exact hbelow x hx

theorem Grows.mono (hk : h.Grows h' k) (hkl : k.Below l) : h.Grows h' l where
  sound := hk.sound
  mounts := hk.mounts
  keeps := hk.keeps
  touched := by
    obtain ⟨new, hnew, hbelow⟩ := hk.touched
    exact ⟨new, hnew, fun x hx => (hbelow x hx).trans hkl⟩

theorem Grows.mem_touched (hl : h.Grows h' l) (hk : k ∈ h.touched) : k ∈ h'.touched := by
  obtain ⟨new, hnew, -⟩ := hl.touched
  rw [hnew]
  exact List.mem_append_right _ hk

theorem Grows.find_eq (hl : h.Grows h' l) (hk : (h.find k).isSome = true) :
    h'.find k = h.find k := by
  obtain ⟨m, hm⟩ := Option.isSome_iff_exists.1 hk
  rw [hm, hl.keeps _ _ hm]

theorem Grows.frameOk (hl : h.Grows h' l) (hok : h.FrameOk frame) : h'.FrameOk frame := by
  constructor
  · rw [hl.find_eq hok.on]
    exact hok.on
  · rw [hl.find_eq hok.root]
    exact hok.root
  · rw [hl.find_eq hok.on, hl.find_eq hok.root]
    exact hok.kind

theorem Grows.isDir (hl : h.Grows h' l) (hp : h.IsDir p) : h'.IsDir p :=
  ⟨hl.keeps _ _ hp.dir, fun frame hframe => hl.frameOk (hp.frames frame hframe)⟩

theorem Grows.isFile (hl : h.Grows h' l) (hp : h.IsFile p) : h'.IsFile p := by
  have hfind := hl.find_eq hp.there
  exact ⟨by rw [hfind]; exact hp.there, by rw [hfind]; exact hp.file,
    fun frame hframe => hl.frameOk (hp.frames frame hframe)⟩

/-- **Making directories in a new one goes through, and stays in it.** -/
theorem mkdirs_fresh {done rest : List (List Char)} (hh : h.Sound) (hcwd : h.IsDir cwd)
    (hp : h.Fresh p) (hhere : h.Here cwd done p) (hrest : ∀ name ∈ rest, name ≠ ['.', '.']) :
    h.Grows (h.mkdirs cwd done rest) p.place ∧ ∃ q, (h.mkdirs cwd done rest).Fresh q ∧
      (h.mkdirs cwd done rest).Here cwd (done ++ rest) q ∧ q.place.Below p.place := by
  induction rest generalizing h done p with
  | nil =>
    rw [List.append_nil]
    exact ⟨Grows.refl hh _, p, hp, hhere, Place.below_refl _⟩
  | cons name rest ih =>
    have hsnoc : done ++ name :: rest = (done ++ [name]) ++ rest := by simp
    have hrest' : ∀ name ∈ rest, name ≠ ['.', '.'] := fun n hn => hrest n (by simp [hn])
    rw [hsnoc]
    by_cases hskip : name = [] ∨ name = ['.']
    · have hnext := hhere.skip hskip
      have hmkdir : h.mkdir cwd (done ++ [name]) = some h := by
        unfold mkdir
        rw [hnext.there]
      unfold mkdirs
      rw [hmkdir]
      exact ih hh hcwd hp hnext hrest'
    · have hproper : Space.Proper name :=
        ⟨fun h => hskip (Or.inl h), fun h => hskip (Or.inr h), hrest name (by simp)⟩
      have hmaking := hp.making hhere hproper
      have hmkdir : h.mkdir cwd (done ++ [name]) = some (h.put (p.place.child name) .dir) := by
        unfold mkdir
        rw [hmaking]
      obtain ⟨hsound, hfresh, hnext⟩ := new_here hh hcwd hmaking
      have hbelow : (p.place.child name).Below p.place := Place.below_child _ _
      have hput := Grows.put (n := .dir) hh hp.dir.dir (hp.empty name) hbelow
      unfold mkdirs
      rw [hmkdir]
      obtain ⟨hgrows, q, hq, hhereq, hqp⟩ := ih hsound (hput.isDir hcwd) hfresh hnext hrest'
      exact ⟨hput.trans (hgrows.mono hbelow), q, hq, hhereq, hqp.trans hbelow⟩

theorem mkdirs_of_firstNew_none {done rest : List (List Char)}
    (hnone : h.firstNew cwd done rest = none) : h.mkdirs cwd done rest = h := by
  induction rest generalizing done with
  | nil => rfl
  | cons name rest ih =>
    unfold firstNew at hnone
    unfold mkdirs mkdir
    split at hnone
    · rfl
    · exact ih hnone
    · cases hnone

/-- **Everything that `mkdirs` makes is at or below the first thing it makes.** -/
theorem mkdirs_of_firstNew {done rest : List (List Char)} (hh : h.Sound) (hcwd : h.IsDir cwd)
    (hrest : ∀ name ∈ rest, name ≠ ['.', '.']) (hl : h.firstNew cwd done rest = some l) :
    h.Grows (h.mkdirs cwd done rest) l ∧ l ∈ (h.mkdirs cwd done rest).touched ∧
      ∃ q, (h.mkdirs cwd done rest).Fresh q ∧
        (h.mkdirs cwd done rest).Here cwd (done ++ rest) q ∧ q.place.Below l := by
  induction rest generalizing done with
  | nil => cases hl
  | cons name rest ih =>
    have hsnoc : done ++ name :: rest = (done ++ [name]) ++ rest := by simp
    have hrest' : ∀ name ∈ rest, name ≠ ['.', '.'] := fun n hn => hrest n (by simp [hn])
    rw [hsnoc]
    unfold firstNew at hl
    unfold mkdirs mkdir
    split at hl
    · cases hl
    · exact ih hrest' hl
    · next p last hmaking =>
      obtain rfl := Option.some.inj hl
      obtain ⟨hproper, hnone, hwritable, pre, k, hpre, hdirOf⟩ := making_new hmaking
      obtain ⟨hsound, hfresh, hhere⟩ := new_here hh hcwd hmaking
      have hdir : h.IsDir p := hh.dirOf hcwd hdirOf
      have hput := Grows.put (n := .dir) hh hdir.dir hnone (Place.below_refl _)
      obtain ⟨hgrows, q, hq, hhereq, hqp⟩ :=
        mkdirs_fresh hsound (hput.isDir hcwd) hfresh hhere hrest'
      exact ⟨hput.trans hgrows, hgrows.mem_touched (List.mem_cons_self), q, hq, hhereq, hqp⟩

/-! ## What changes nothing on the disks -/

theorem FrameOk.congr (hok : h.FrameOk frame) (hdisks : h'.disks = h.disks) : h'.FrameOk frame := by
  have hfind : h'.find = h.find := by
    funext k
    unfold HostFiles.find
    rw [hdisks]
  exact ⟨hfind ▸ hok.on, hfind ▸ hok.root, hfind ▸ hok.kind⟩

theorem IsDir.congr (hp : h.IsDir p) (hdisks : h'.disks = h.disks) : h'.IsDir p := by
  refine ⟨?_, fun frame hframe => (hp.frames frame hframe).congr hdisks⟩
  have hdir := hp.dir
  unfold HostFiles.find at hdir ⊢
  rw [hdisks]
  exact hdir

theorem Sound.congr (hh : h.Sound) (hdisks : h'.disks = h.disks)
    (hframes : ∀ m ∈ h'.mounts, ∀ frame ∈ m.mnt, h.FrameOk frame) : h'.Sound := by
  have hfind : h'.find = h.find := by
    funext k
    unfold HostFiles.find
    rw [hdisks]
  refine ⟨fun d => hdisks ▸ hh.wf d, hfind ▸ hh.root, fun d => hfind ▸ hh.roots d, ?_⟩
  exact fun m hm frame hframe => (hframes m hm frame hframe).congr hdisks

theorem Sound.detach (hh : h.Sound) (mnt : Mnt) : (h.detach mnt).Sound :=
  hh.congr rfl fun m hm => hh.frames m (List.mem_filter.1 hm).1

theorem Sound.setReadOnly (hh : h.Sound) (mnt : Mnt) : (h.setReadOnly mnt).Sound := by
  refine hh.congr rfl fun m hm => ?_
  obtain ⟨m', hm', rfl⟩ := List.mem_map.1 hm
  split
  · exact hh.frames m' hm'
  · exact hh.frames m' hm'

/-- A mount below the source is a mount on something. -/
theorem belowIn_eq_some {s : Pos} {inner : Mnt} (hinner : belowIn s mnt = some inner) :
    inner ≠ [] ∧ ∀ frame ∈ inner, frame ∈ mnt := by
  unfold belowIn at hinner
  split at hinner
  · simp only at hinner
    split at hinner
    · next frame hlast =>
      split at hinner
      · obtain rfl := Option.some.inj hinner
        exact ⟨List.ne_nil_of_mem (List.mem_of_getLast? hlast), fun f hf => List.mem_of_mem_take hf⟩
      · cases hinner
    · cases hinner
  · cases hinner

/-- The mounts after a recursive bind: the new one, what came along with it, and the old ones. -/
theorem mem_bindRec {s : Pos} {m : Mount} (hm : m ∈ (h.bindRec s p).mounts) :
    m ∈ h.mounts ∨ ∃ inner, m.mnt = inner ++ ⟨s.place, p.place⟩ :: p.mnt ∧
      ∀ frame ∈ inner, ∃ m' ∈ h.mounts, frame ∈ m'.mnt := by
  unfold bindRec at hm
  rw [List.mem_append, List.mem_cons] at hm
  rcases hm with (rfl | hm) | hm
  · exact Or.inr ⟨[], rfl, by simp⟩
  · obtain ⟨m', hm', hmap⟩ := List.mem_filterMap.1 hm
    obtain ⟨inner, hinner, rfl⟩ := Option.map_eq_some_iff.1 hmap
    exact Or.inr ⟨inner, rfl, fun frame hframe =>
      ⟨m', hm', (belowIn_eq_some hinner).2 frame hframe⟩⟩
  · exact Or.inl hm

theorem Sound.bindRec (hh : h.Sound) {s : Pos} (hp : ∀ frame ∈ p.mnt, h.FrameOk frame)
    (hs : h.FrameOk ⟨s.place, p.place⟩) : (h.bindRec s p).Sound := by
  refine hh.congr rfl fun m hm frame hframe => ?_
  rcases mem_bindRec hm with hold | ⟨inner, hmnt, hinner⟩
  · exact hh.frames m hold frame hframe
  · rw [hmnt, List.mem_append, List.mem_cons] at hframe
    rcases hframe with hframe | rfl | hframe
    · obtain ⟨m', hm', hframe'⟩ := hinner frame hframe
      exact hh.frames m' hm' frame hframe'
    · exact hs
    · exact hp frame hframe

theorem Grows.touch (hh : h.Sound) (hk : k.Below l) :
    h.Grows { h with touched := k :: h.touched } l where
  sound := hh.congr rfl hh.frames
  mounts := rfl
  keeps _ _ hfind := hfind
  touched := ⟨[k], rfl, by simpa using hk⟩

end HostFiles

end FileSystem
