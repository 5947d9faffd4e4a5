import Droidspaces.FileSystem.Mounts
import Droidspaces.Lifecycle.LockFile
import Mathlib.Data.Char
import Mathlib.Data.List.Lex

/-!
# Custom bind mounts

`setup_custom_binds` runs in the rootfs, whose symbolic links are the container's.  What is missing
of a destination is made before anybody looks where the destination leads, and made where its links
lead; only what is mounted is looked at again, by `is_subpath`, and `umount2` follows the links once
more.

`contained_iff` says when nothing outside the rootfs is touched.  By then boot has bind mounted the
rootfs on itself, so that what is below it is what is in its mount or in a mount on that.
-/

namespace Droidspaces.CustomBinds

open Sequential FileSystem

/-! ## The code -/

/-- `struct ds_bind_mount` -/
structure BindMount where
  src : Text
  dest : Text
  ro : Bool

def isControl (c : Char) : Bool := c.toNat < 32 || c.toNat == 127

/-- `PATH_MAX` -/
def pathMax : ℕ := 4096

def validateBindDestination (dest : Text) : Bool :=
  isAbsolute dest && 2 ≤ dest.length && dest.length < pathMax &&
    (components dest).all fun name =>
      name ≠ ['.'] && name ≠ ['.', '.'] && !name.any isControl

/-- `sort_bind_mounts` -/
def sortBindMounts (binds : List BindMount) : List BindMount :=
  binds.mergeSort fun a b => a.dest ≤ b.dest

/-- The components of the `tgt` that goes with a destination. -/
def targetOf (b : BindMount) : List Text := components ('.' :: b.dest)

/-- Where `realpath` leads, if anywhere. -/
def realpath (h : HostFiles) (cwd : Pos) (names : List Text) : Option Pos :=
  (h.space.walk maxLinks cwd names).map fun
    | .dir q => q
    | .file q => q

def startOf (h : HostFiles) (cwd : Pos) (path : Text) : Pos :=
  if isAbsolute path then h.space.root else cwd

/-- The source is the host's root. -/
def isHostRoot (h : HostFiles) (cwd : Pos) (src : Text) : Bool :=
  match realpath h (startOf h cwd src) (components src) with
  | some q => q.mnt.pathOf q.place == []
  | none => false

/-- `mkdir_p`, which takes one slash off the end. -/
def mkdirP (h : HostFiles) (cwd : Pos) (names : List Text) : HostFiles :=
  h.mkdirs cwd [] (if names.getLast? = some [] then names.dropLast else names)

/-- Where the source is and whether it is a directory; symbolic links are not taken. -/
def sourceOf (h : HostFiles) (cwd : Pos) (src : Text) : Option (Pos × Bool) :=
  match h.space.lstat (startOf h cwd src) (components src) with
  | some (.dir s) => some (s, true)
  | some (.file s) => some (s, false)
  | _ => none

def chown (h : HostFiles) (cwd : Pos) (names : List Text) : HostFiles :=
  match realpath h cwd names with
  | some q => { h with touched := q.place :: h.touched }
  | none => h

/-- Make the target of a bind; `open` takes no slash at the end. -/
def makeTarget (h : HostFiles) (cwd : Pos) (names : List Text) (isDir : Bool) : Option HostFiles :=
  if isDir then (h.mkdir cwd names).map fun h' => chown h' cwd names
  else if names.getLast? = some [] then none
  else
    match h.making cwd names with
    | .fails => none
    | .there => some h
    | .new p name => some (h.put (p.place.child name) (.file .bytes))

/-- The target is there, or is made. -/
def prepareTarget (h : HostFiles) (cwd : Pos) (names : List Text) (isDir : Bool) :
    Option HostFiles :=
  match h.space.lstat cwd names with
  | some (.link _) => none
  | some (.dir _) => some h
  | some (.file _) => some h
  | some .missing => makeTarget h cwd names isDir
  | none => makeTarget h cwd names isDir

/-- What the target is opened as, if the source can be mounted on that. -/
def openTarget (h : HostFiles) (cwd : Pos) (names : List Text) (isDir : Bool) : Option Pos :=
  match h.space.lstat cwd names with
  | some (.dir p) => if isDir then some p else none
  | some (.file p) => if isDir then none else some p
  | _ => none

/-- `bind_mount` up to the mount: what there is then, and what is to be mounted on what. -/
def openBoth (h : HostFiles) (cwd : Pos) (src : Text) (names : List Text) :
    HostFiles × Option (Pos × Pos) :=
  match sourceOf h cwd src with
  | none => (h, none)
  | some (s, isDir) =>
    match prepareTarget h cwd names isDir with
    | none => (h, none)
    | some h' => (h', (openTarget h' cwd names isDir).map fun p => (s, p))

def bindMount (h : HostFiles) (cwd : Pos) (src : Text) (names : List Text) : HostFiles × Bool :=
  match openBoth h cwd src names with
  | (h', none) => (h', false)
  | (h', some (s, p)) => (h'.bindRec s p, true)

/-- `is_subpath` on the rootfs; a path that leads nowhere is put behind the working directory as
it is. -/
def isSubpath (h : HostFiles) (cwd : Pos) (names : List Text) : Bool :=
  match realpath h cwd names with
  | some q => (cwd.mnt.pathOf cwd.place).isPrefixOf (q.mnt.pathOf q.place)
  | none => true

/-- The mount that a path leads to the root of. -/
def mountAt (h : HostFiles) (cwd : Pos) (names : List Text) : Option Mnt :=
  match realpath h cwd names with
  | some q => if q.place = q.mnt.root then some q.mnt else none
  | none => none

def umountTarget (h : HostFiles) (cwd : Pos) (names : List Text) : HostFiles :=
  match mountAt h cwd names with
  | some mnt => if mnt = [] then h else h.detach mnt
  | none => h

def remountReadOnly (h : HostFiles) (cwd : Pos) (names : List Text) : HostFiles :=
  match mountAt h cwd names with
  | some mnt => h.setReadOnly mnt
  | none => h

/-- One round of the loop. -/
def setupCustomBind (rootfs : Pos) (h : HostFiles) (b : BindMount) : HostFiles :=
  if isHostRoot h rootfs b.src then h
  else
    match bindMount (mkdirP h rootfs (targetOf b).dropLast) rootfs b.src (targetOf b) with
    | (h', false) => h'
    | (h', true) =>
      if isSubpath h' rootfs (targetOf b) then
        if b.ro then remountReadOnly h' rootfs (targetOf b) else h'
      else umountTarget h' rootfs (targetOf b)

def setupCustomBinds (rootfs : Pos) (binds : List BindMount) (h : HostFiles) : HostFiles :=
  (sortBindMounts binds).foldl (setupCustomBind rootfs) h

/-! ## What is promised, and when it holds -/

/-- Nothing outside was touched and none of the mounts is outside.  The container's own storage is
the rootfs and the filesystems that boot made for it. -/
structure Contained (own : List Place) (rootfs : Pos) (h : HostFiles) : Prop where
  touched : ∀ l ∈ h.touched, ∃ r ∈ own, l.Below r
  mounts : ∀ m ∈ h.mounts, m.ours = true → rootfs.mnt <:+ m.mnt.tail

/-- What `prepareTarget` makes. -/
def targetNew (h : HostFiles) (cwd : Pos) (names : List Text) (isDir : Bool) : Option Place :=
  let new := if !isDir && names.getLast? = some [] then none
    else
      match h.making cwd names with
      | .new p name => some (p.place.child name)
      | _ => none
  match h.space.lstat cwd names with
  | some .missing => new
  | none => new
  | _ => none

/-- The first thing that is made on the way to a destination. -/
def firstMade (rootfs : Pos) (h : HostFiles) (b : BindMount) : Option Place :=
  let parent := (targetOf b).dropLast
  (h.firstNew rootfs [] (if parent.getLast? = some [] then parent.dropLast else parent)).or
    ((sourceOf h rootfs b.src).bind fun s => targetNew h rootfs (targetOf b) s.2)

/-- What there is when a bind is mounted, and what is mounted on what. -/
def mounting (rootfs : Pos) (h : HostFiles) (b : BindMount) : HostFiles × Option (Pos × Pos) :=
  openBoth (mkdirP h rootfs (targetOf b).dropLast) rootfs b.src (targetOf b)

/-- With the mount in place, the destination has a name outside the rootfs and leads to the root
of that mount, or of one that it is on. -/
def LeadsBack (rootfs : Pos) (h : HostFiles) (s p : Pos) (b : BindMount) : Prop :=
  isSubpath (h.bindRec s p) rootfs (targetOf b) = false ∧
    ∃ mnt, mountAt (h.bindRec s p) rootfs (targetOf b) = some mnt ∧ mnt ≠ [] ∧
      mnt <:+ ⟨s.place, p.place⟩ :: p.mnt

/-- The condition on a bind, unless its source is the host's root. -/
structure Safe (own : List Place) (rootfs : Pos) (h : HostFiles) (b : BindMount) : Prop where
  made : isHostRoot h rootfs b.src = false → ∀ l, firstMade rootfs h b = some l →
    ∃ r ∈ own, l.Below r
  mounted : isHostRoot h rootfs b.src = false → ∀ h' s p,
    mounting rootfs h b = (h', some (s, p)) → rootfs.mnt <:+ p.mnt ∨ LeadsBack rootfs h' s p b

/-! ## What is made -/

section Made

variable {h h' : HostFiles} {rootfs cwd p s : Pos} {names : List Text} {isDir : Bool} {l : Place}
  {b : BindMount} {src : Text}

theorem making_of_targetNew (hl : targetNew h cwd names isDir = some l) :
    ∃ p name, h.making cwd names = .new p name ∧ l = p.place.child name ∧
      (isDir = false → names.getLast? ≠ some []) := by
  unfold targetNew at hl
  simp only at hl
  have hnew : (if !isDir && names.getLast? = some [] then none
      else
        match h.making cwd names with
        | .new p name => some (p.place.child name)
        | _ => none) = some l := by
    split at hl
    · exact hl
    · exact hl
    · cases hl
  split at hnew
  · cases hnew
  · next hslash =>
    split at hnew
    · next p name hmaking =>
      refine ⟨p, name, hmaking, (Option.some.inj hnew).symm, ?_⟩
      rintro rfl
      simpa using hslash
    · cases hnew

/-- `chown` works on what was just made, or on nothing. -/
theorem chown_new (hh : h.Sound) (hcwd : h.IsDir cwd) {name : Text}
    (hmaking : h.making cwd names = .new p name) :
    chown (h.put (p.place.child name) .dir) cwd names =
      { h.put (p.place.child name) .dir with
        touched := p.place.child name :: p.place.child name :: h.touched } := by
  obtain ⟨-, -, hhere⟩ := HostFiles.new_here hh hcwd hmaking
  unfold chown realpath
  rw [hhere.walk]
  rfl

theorem makeTarget_grows (hh : h.Sound) (hcwd : h.IsDir cwd)
    (hlstat : h.space.lstat cwd names = none ∨ h.space.lstat cwd names = some .missing)
    (h' : HostFiles) (hmake : makeTarget h cwd names isDir = some h') :
    (targetNew h cwd names isDir = none ∧ h' = h) ∨
      ∃ l, targetNew h cwd names isDir = some l ∧ h.Grows h' l ∧ l ∈ h'.touched := by
  have htarget : targetNew h cwd names isDir =
      if !isDir && names.getLast? = some [] then none
      else
        match h.making cwd names with
        | .new p name => some (p.place.child name)
        | _ => none := by
    unfold targetNew
    rcases hlstat with hlstat | hlstat <;> rw [hlstat]
  rw [htarget]
  unfold makeTarget HostFiles.mkdir at hmake
  cases isDir with
  | true =>
    simp only [if_true] at hmake
    cases hmaking : h.making cwd names with
    | fails => simp [hmaking] at hmake
    | there =>
      left
      have hnowhere := Space.walk_of_lstat hlstat
      simpa [hmaking, chown, realpath, hnowhere, eq_comm] using hmake
    | new p name =>
      right
      obtain ⟨-, hnone, -, pre, k, -, hpre⟩ := HostFiles.making_new hmaking
      have hput := HostFiles.Grows.put (n := .dir) hh (hh.dirOf hcwd hpre).dir hnone
        (Place.below_refl _)
      have hchown : chown (h.put (p.place.child name) .dir) cwd names = h' := by
        simpa [hmaking] using hmake
      rw [chown_new hh hcwd hmaking] at hchown
      subst hchown
      exact ⟨_, rfl, hput.trans (HostFiles.Grows.touch hput.sound (Place.below_refl _)),
        List.mem_cons_self⟩
  | false =>
    simp only [Bool.false_eq_true, if_false] at hmake
    split at hmake
    · cases hmake
    · next hslash =>
      cases hmaking : h.making cwd names with
      | fails => simp [hmaking] at hmake
      | there =>
        left
        simpa [hmaking, hslash, eq_comm] using hmake
      | new p name =>
        right
        obtain ⟨-, hnone, -, pre, k, -, hpre⟩ := HostFiles.making_new hmaking
        have hput := HostFiles.Grows.put (n := .file .bytes) hh (hh.dirOf hcwd hpre).dir hnone
          (Place.below_refl _)
        have hh' : h.put (p.place.child name) (.file .bytes) = h' := by
          simpa [hmaking] using hmake
        subst hh'
        exact ⟨_, by simp [hslash], hput, List.mem_cons_self⟩

theorem makeTarget_none (hmake : makeTarget h cwd names isDir = none) :
    targetNew h cwd names isDir = none := by
  by_contra hsome
  obtain ⟨l, hl⟩ := Option.ne_none_iff_exists'.1 hsome
  obtain ⟨p, name, hmaking, -, hslash⟩ := making_of_targetNew hl
  unfold makeTarget HostFiles.mkdir at hmake
  cases isDir with
  | true => simp [hmaking] at hmake
  | false => simp [hmaking, hslash rfl] at hmake

theorem prepareTarget_grows (hh : h.Sound) (hcwd : h.IsDir cwd) (names : List Text)
    (isDir : Bool) :
    (targetNew h cwd names isDir = none ∧ (prepareTarget h cwd names isDir).getD h = h) ∨
      ∃ l, targetNew h cwd names isDir = some l ∧
        h.Grows ((prepareTarget h cwd names isDir).getD h) l ∧
        l ∈ ((prepareTarget h cwd names isDir).getD h).touched := by
  have hmissing : (h.space.lstat cwd names = none ∨ h.space.lstat cwd names = some .missing) →
      (targetNew h cwd names isDir = none ∧ (makeTarget h cwd names isDir).getD h = h) ∨
        ∃ l, targetNew h cwd names isDir = some l ∧
          h.Grows ((makeTarget h cwd names isDir).getD h) l ∧
          l ∈ ((makeTarget h cwd names isDir).getD h).touched := by
    intro hlstat
    cases hmake : makeTarget h cwd names isDir with
    | none => exact Or.inl ⟨makeTarget_none hmake, rfl⟩
    | some h' => exact makeTarget_grows hh hcwd hlstat h' hmake
  cases hlstat : h.space.lstat cwd names with
  | none => simpa [prepareTarget, hlstat] using hmissing (Or.inl hlstat)
  | some entry =>
    cases entry with
    | missing => simpa [prepareTarget, hlstat] using hmissing (Or.inr hlstat)
    | dir q => simp [prepareTarget, targetNew, hlstat]
    | file q => simp [prepareTarget, targetNew, hlstat]
    | link target => simp [prepareTarget, targetNew, hlstat]

/-- **What `bind_mount` makes is the target, if that is missing.** -/
theorem openBoth_grows (hh : h.Sound) (hcwd : h.IsDir cwd) (src : Text) (names : List Text) :
    (((sourceOf h cwd src).bind fun s => targetNew h cwd names s.2) = none ∧
        (openBoth h cwd src names).1 = h) ∨
      ∃ l, ((sourceOf h cwd src).bind fun s => targetNew h cwd names s.2) = some l ∧
        h.Grows (openBoth h cwd src names).1 l ∧ l ∈ (openBoth h cwd src names).1.touched := by
  unfold openBoth
  cases sourceOf h cwd src with
  | none => exact Or.inl ⟨rfl, rfl⟩
  | some source =>
    obtain ⟨s, isDir⟩ := source
    have hprepare := prepareTarget_grows hh hcwd names isDir
    cases hcase : prepareTarget h cwd names isDir with
    | none => simpa [hcase] using hprepare
    | some h' => simpa [hcase] using hprepare

theorem components_cons_of_ne {c : Char} (hc : c ≠ '/') (path : Text) :
    components (c :: '/' :: path) = [c] :: components path := by
  simp [components, List.splitOn, List.splitOnP_cons_eq_if_modifyHead, hc]

/-- No accepted destination has a `..` in it. -/
theorem ne_dots_of_mem_targetOf (hdest : validateBindDestination b.dest = true) :
    ∀ name ∈ targetOf b, name ≠ ['.', '.'] := by
  unfold validateBindDestination at hdest
  simp only [Bool.and_eq_true] at hdest
  obtain ⟨⟨⟨habs, -⟩, -⟩, hall⟩ := hdest
  obtain ⟨path, hpath⟩ : ∃ path, b.dest = '/' :: path := by
    cases hb : b.dest with
    | nil => simp [hb, isAbsolute] at habs
    | cons c path =>
      refine ⟨path, ?_⟩
      rw [hb] at habs
      simpa [isAbsolute] using habs
  intro name hname
  rw [targetOf, hpath, components_cons_of_ne (by decide)] at hname
  rcases List.mem_cons.1 hname with rfl | hname
  · decide
  · have hmem : name ∈ components b.dest := by
      rw [hpath]
      simpa [components, List.splitOn, List.splitOnP_cons_eq_if_modifyHead] using Or.inr hname
    have hok := List.all_eq_true.1 hall name hmem
    simp only [Bool.and_eq_true, decide_eq_true_eq] at hok
    exact hok.1.2

/-- What `bind_mount` makes in a directory that was made for it is in that directory. -/
theorem targetNew_below {q : Pos} {parent : List Text} {last : Text} (hq : h.Fresh q)
    (hhere : h.Here cwd parent q) (hlast : last ≠ ['.', '.'])
    (hl : targetNew h cwd (parent ++ [last]) isDir = some l) : l.Below q.place := by
  obtain ⟨p, name, hmaking, rfl, -⟩ := making_of_targetNew hl
  by_cases hskip : last = [] ∨ last = ['.']
  · rw [(hhere.skip hskip).there] at hmaking
    cases hmaking
  · have hproper : Space.Proper last :=
      ⟨fun h => hskip (Or.inl h), fun h => hskip (Or.inr h), hlast⟩
    rw [hq.making hhere hproper] at hmaking
    obtain ⟨rfl, rfl⟩ := HostFiles.Making.new.inj hmaking
    exact Place.below_child _ _

/-- **Everything is made at or below the first thing that is made.** -/
theorem mounting_grows (hh : h.Sound) (hroot : h.IsDir rootfs)
    (hdest : validateBindDestination b.dest = true) :
    (firstMade rootfs h b = none ∧ (mounting rootfs h b).1 = h) ∨
      ∃ l, firstMade rootfs h b = some l ∧ h.Grows (mounting rootfs h b).1 l ∧
        l ∈ (mounting rootfs h b).1.touched := by
  have hdots := ne_dots_of_mem_targetOf hdest
  have hne : targetOf b ≠ [] := by simp [targetOf, components]
  obtain ⟨parent, last, hsplit⟩ : ∃ parent last, targetOf b = parent ++ [last] :=
    ⟨_, _, (List.dropLast_concat_getLast hne).symm⟩
  have hparent : (targetOf b).dropLast = parent := by rw [hsplit, List.dropLast_concat]
  unfold firstMade mounting mkdirP
  simp only [hparent]
  have hdots' : ∀ name ∈ (if parent.getLast? = some [] then parent.dropLast else parent),
      name ≠ ['.', '.'] := by
    intro name hname
    have hmem : name ∈ parent := by
      split at hname
      · exact List.dropLast_subset _ hname
      · exact hname
    exact hdots name (by simp [hsplit, hmem])
  cases hfirst : h.firstNew rootfs []
      (if parent.getLast? = some [] then parent.dropLast else parent) with
  | none =>
    rw [HostFiles.mkdirs_of_firstNew_none hfirst, Option.none_or]
    exact openBoth_grows hh hroot _ _
  | some l =>
    right
    obtain ⟨hgrows, hmem, q, hq, hhere, hql⟩ :=
      HostFiles.mkdirs_of_firstNew hh hroot hdots' hfirst
    rw [List.nil_append] at hhere
    have hhere' : (h.mkdirs rootfs []
        (if parent.getLast? = some [] then parent.dropLast else parent)).Here rootfs parent q := by
      by_cases hslash : parent.getLast? = some []
      · simp only [if_pos hslash] at hhere ⊢
        have hskip := hhere.skip (Or.inl rfl)
        rwa [List.dropLast_append_getLast? [] hslash] at hskip
      · simpa only [if_neg hslash] using hhere
    refine ⟨l, by simp, ?_⟩
    rcases openBoth_grows hgrows.sound (hgrows.isDir hroot) b.src (targetOf b) with
      ⟨-, hsame⟩ | ⟨l', hl', hgrows', -⟩
    · rw [hsame]
      exact ⟨hgrows, hmem⟩
    · obtain ⟨source, -, htarget⟩ := Option.bind_eq_some_iff.1 hl'
      rw [hsplit] at htarget
      have hbelow := targetNew_below hq hhere' (hdots last (by simp [hsplit])) htarget
      exact ⟨hgrows.trans (hgrows'.mono (hbelow.trans hql)), hgrows'.mem_touched hmem⟩

end Made

/-! ## What is mounted -/

section Mounted

variable {h h' : HostFiles} {rootfs cwd p s : Pos} {names : List Text} {isDir : Bool} {l : Place}
  {b : BindMount} {src : Text} {own : List Place}

/-- All mounts that were made are below the rootfs. -/
def MountsIn (rootfs : Pos) (h : HostFiles) : Prop :=
  ∀ m ∈ h.mounts, m.ours = true → rootfs.mnt <:+ m.mnt.tail

/-- What happens once it is mounted. -/
def checked (rootfs : Pos) (h : HostFiles) (b : BindMount) : HostFiles :=
  if isSubpath h rootfs (targetOf b) then
    if b.ro then remountReadOnly h rootfs (targetOf b) else h
  else umountTarget h rootfs (targetOf b)

theorem setupCustomBind_of_none (hskip : isHostRoot h rootfs b.src = false)
    (hopen : mounting rootfs h b = (h', none)) : setupCustomBind rootfs h b = h' := by
  unfold mounting at hopen
  unfold setupCustomBind bindMount
  rw [hskip, hopen]
  rfl

theorem setupCustomBind_of_some (hskip : isHostRoot h rootfs b.src = false)
    (hopen : mounting rootfs h b = (h', some (s, p))) :
    setupCustomBind rootfs h b = checked rootfs (h'.bindRec s p) b := by
  unfold mounting at hopen
  unfold setupCustomBind bindMount
  rw [hskip, hopen]
  rfl

theorem checked_touched : (checked rootfs h b).touched = h.touched := by
  unfold checked remountReadOnly umountTarget
  split_ifs
  · split <;> rfl
  · rfl
  · split
    · split_ifs <;> rfl
    · rfl

theorem checked_disks : (checked rootfs h b).disks = h.disks := by
  unfold checked remountReadOnly umountTarget
  split_ifs
  · split <;> rfl
  · rfl
  · split
    · split_ifs <;> rfl
    · rfl

theorem checked_sound (hh : h.Sound) : (checked rootfs h b).Sound := by
  unfold checked remountReadOnly umountTarget
  split_ifs
  · split
    · exact hh.setReadOnly _
    · exact hh
  · exact hh
  · split
    · split_ifs
      · exact hh
      · exact hh.detach _
    · exact hh

/-- The check keeps every mount, or takes away those on one that the destination leads to. -/
theorem mem_checked (rootfs : Pos) (b : BindMount) {m : Mount} (hm : m ∈ h.mounts) :
    (∃ m' ∈ (checked rootfs h b).mounts, m'.mnt = m.mnt ∧ m'.ours = m.ours) ∨
      isSubpath h rootfs (targetOf b) = false ∧
        ∃ mnt, mountAt h rootfs (targetOf b) = some mnt ∧ mnt ≠ [] ∧ mnt <:+ m.mnt := by
  unfold checked remountReadOnly umountTarget
  split_ifs with hsub hro
  · left
    split
    · next mnt hmnt =>
      refine ⟨_, List.mem_map_of_mem hm, ?_⟩
      split_ifs <;> exact ⟨rfl, rfl⟩
    · exact ⟨m, hm, rfl, rfl⟩
  · exact Or.inl ⟨m, hm, rfl, rfl⟩
  · split
    · next mnt hmnt =>
      split_ifs with hnil
      · exact Or.inl ⟨m, hm, rfl, rfl⟩
      · by_cases hsuffix : mnt <:+ m.mnt
        · exact Or.inr ⟨by simpa using hsub, mnt, hmnt, hnil, hsuffix⟩
        · exact Or.inl ⟨m, List.mem_filter.2 ⟨hm, by simpa using hsuffix⟩, rfl, rfl⟩
    · exact Or.inl ⟨m, hm, rfl, rfl⟩

/-- What is there after the check was there before, and is not on what was taken away. -/
theorem mem_of_mem_checked {m : Mount} (hm : m ∈ (checked rootfs h b).mounts) :
    (∃ m' ∈ h.mounts, m'.mnt = m.mnt ∧ m'.ours = m.ours) ∧
      (isSubpath h rootfs (targetOf b) = false → ∀ mnt, mountAt h rootfs (targetOf b) = some mnt →
        mnt ≠ [] → ¬ mnt <:+ m.mnt) := by
  unfold checked remountReadOnly umountTarget at hm
  split_ifs at hm with hsub hro
  · refine ⟨?_, fun hout => by simp [hsub] at hout⟩
    split at hm
    · obtain ⟨m', hm', rfl⟩ := List.mem_map.1 hm
      refine ⟨m', hm', ?_⟩
      split_ifs <;> exact ⟨rfl, rfl⟩
    · exact ⟨m, hm, rfl, rfl⟩
  · exact ⟨⟨m, hm, rfl, rfl⟩, fun hout => by simp [hsub] at hout⟩
  · split at hm
    · next mnt hmnt =>
      split_ifs at hm with hnil
      · refine ⟨⟨m, hm, rfl, rfl⟩, fun _ mnt' hmnt' hne => ?_⟩
        rw [hmnt] at hmnt'
        exact absurd ((Option.some.inj hmnt').symm.trans hnil) hne
      · obtain ⟨hold, hsuffix⟩ := List.mem_filter.1 hm
        refine ⟨⟨m, hold, rfl, rfl⟩, fun _ mnt' hmnt' _ => ?_⟩
        rw [hmnt] at hmnt'
        obtain rfl := Option.some.inj hmnt'
        simpa using hsuffix
    · next hnone =>
      exact ⟨⟨m, hm, rfl, rfl⟩, fun _ mnt' hmnt' => by rw [hnone] at hmnt'; cases hmnt'⟩

/-- **The mounts stay below the rootfs exactly if the new one is, or is found again.** -/
theorem mountsIn_checked (hin : MountsIn rootfs h) :
    MountsIn rootfs (checked rootfs (h.bindRec s p) b) ↔
      rootfs.mnt <:+ p.mnt ∨ LeadsBack rootfs h s p b := by
  constructor
  · intro hafter
    have hnew : (⟨⟨s.place, p.place⟩ :: p.mnt, !h.writable s.mnt, true⟩ : Mount) ∈
        (h.bindRec s p).mounts := by simp [HostFiles.bindRec]
    rcases mem_checked rootfs b hnew with ⟨m, hm, hmnt, hours⟩ | ⟨hsub, hback⟩
    · left
      simpa [hmnt] using hafter m hm hours
    · exact Or.inr ⟨hsub, hback⟩
  · intro hsafe m hm hours
    obtain ⟨⟨m', hm', hmnt, hours'⟩, hgone⟩ := mem_of_mem_checked hm
    rw [← hmnt]
    rcases HostFiles.mem_bindRec hm' with hold | ⟨inner, hinner, -⟩
    · exact hin m' hold (hours'.trans hours)
    · rcases hsafe with hroot | ⟨hsub, mnt, hat, hne, hsuffix⟩
      · rw [hinner]
        cases inner with
        | nil => exact hroot
        | cons frame inner =>
          exact hroot.trans ((List.suffix_cons _ _).trans (List.suffix_append _ _))
      · exfalso
        refine hgone hsub mnt hat hne ?_
        rw [← hmnt, hinner]
        exact hsuffix.trans (List.suffix_append _ _)

/-- A directory is mounted on a directory, and nothing else is. -/
theorem openBoth_sound (hh : h.Sound) (hcwd : h.IsDir cwd)
    (hopen : openBoth h cwd src names = (h', some (s, p))) :
    (h'.bindRec s p).Sound ∧ (h'.bindRec s p).IsDir cwd := by
  have hgrows : ∃ l, h.Grows h' l := by
    rcases openBoth_grows hh hcwd src names with ⟨-, hsame⟩ | ⟨l, -, hl, -⟩
    · rw [hopen] at hsame
      exact ⟨cwd.place, hsame ▸ HostFiles.Grows.refl hh _⟩
    · rw [hopen] at hl
      exact ⟨l, hl⟩
  obtain ⟨l, hl⟩ := hgrows
  have hcwd' := hl.isDir hcwd
  have hstart : h.IsDir (startOf h cwd src) := by
    unfold startOf
    split
    · exact ⟨hh.root, by simp [HostFiles.space]⟩
    · exact hcwd
  have hbind : (∀ frame ∈ p.mnt, h'.FrameOk frame) ∧ h'.FrameOk ⟨s.place, p.place⟩ := by
    unfold openBoth at hopen
    split at hopen
    · cases hopen
    · next source isDir hsource =>
      split at hopen
      · cases hopen
      · next k hprepare =>
        obtain ⟨rfl, hboth⟩ := Prod.mk.inj hopen
        obtain ⟨q, htarget, hpair⟩ := Option.map_eq_some_iff.1 hboth
        obtain ⟨rfl, rfl⟩ := Prod.mk.inj hpair
        unfold sourceOf at hsource
        unfold openTarget at htarget
        cases isDir with
        | true =>
          have hs : h.IsDir source := by
            split at hsource
            · next hlstat =>
              obtain ⟨rfl, -⟩ := Prod.mk.inj (Option.some.inj hsource)
              exact hh.lstat_dir hstart hlstat
            · cases hsource
            · cases hsource
          have hlstat' : k.space.lstat cwd names = some (.dir q) := by
            split at htarget
            · next hlstat => simpa [hlstat] using htarget
            · cases htarget
            · cases htarget
          have hq := hl.sound.lstat_dir hcwd' hlstat'
          have hs' := hl.isDir hs
          exact ⟨hq.frames, by simp [hq.dir], by simp [hs'.dir], by simp [hq.dir, hs'.dir]⟩
        | false =>
          have hs : h.IsFile source := by
            split at hsource
            · cases hsource
            · next hlstat =>
              obtain ⟨rfl, -⟩ := Prod.mk.inj (Option.some.inj hsource)
              exact hh.lstat_file hstart hlstat
            · cases hsource
          have hlstat' : k.space.lstat cwd names = some (.file q) := by
            split at htarget
            · cases htarget
            · next hlstat => simpa [hlstat] using htarget
            · cases htarget
          have hq := hl.sound.lstat_file hcwd' hlstat'
          have hs' := hl.isFile hs
          exact ⟨hq.frames, hq.there, hs'.there, by simp [hq.file, hs'.file]⟩
  exact ⟨hl.sound.bindRec hbind.1 hbind.2, hcwd'.congr rfl⟩

end Mounted

/-! ## Exactly when nothing outside is touched -/

section Exact

variable {h : HostFiles} {rootfs : Pos} {b : BindMount} {own : List Place} {binds : List BindMount}

/-- The state is in order and the rootfs is there. -/
structure Ready (rootfs : Pos) (h : HostFiles) : Prop where
  sound : h.Sound
  rootfs : h.IsDir rootfs

theorem mkdirP_ready (hready : Ready rootfs h) (hdest : validateBindDestination b.dest = true) :
    Ready rootfs (mkdirP h rootfs (targetOf b).dropLast) := by
  have hdots := ne_dots_of_mem_targetOf hdest
  have hdots' : ∀ name ∈ (if (targetOf b).dropLast.getLast? = some [] then
      (targetOf b).dropLast.dropLast else (targetOf b).dropLast), name ≠ ['.', '.'] := by
    intro name hname
    refine hdots name ?_
    split at hname
    · exact List.dropLast_subset _ (List.dropLast_subset _ hname)
    · exact List.dropLast_subset _ hname
  unfold mkdirP
  cases hfirst : h.firstNew rootfs [] (if (targetOf b).dropLast.getLast? = some [] then
      (targetOf b).dropLast.dropLast else (targetOf b).dropLast) with
  | none =>
    rw [HostFiles.mkdirs_of_firstNew_none hfirst]
    exact hready
  | some l =>
    obtain ⟨hgrows, -⟩ := HostFiles.mkdirs_of_firstNew hready.sound hready.rootfs hdots' hfirst
    exact ⟨hgrows.sound, hgrows.isDir hready.rootfs⟩

theorem setupCustomBind_ready (hready : Ready rootfs h)
    (hdest : validateBindDestination b.dest = true) :
    Ready rootfs (setupCustomBind rootfs h b) := by
  cases hskip : isHostRoot h rootfs b.src with
  | true =>
    unfold setupCustomBind
    rw [hskip]
    exact hready
  | false =>
    rcases hopen : mounting rootfs h b with ⟨h', _ | ⟨s, p⟩⟩
    · rw [setupCustomBind_of_none hskip hopen]
      rcases mounting_grows hready.sound hready.rootfs hdest with ⟨-, hsame⟩ | ⟨l, -, hl, -⟩
      · rw [hopen] at hsame
        obtain rfl : h' = h := hsame
        exact hready
      · rw [hopen] at hl
        exact ⟨hl.sound, hl.isDir hready.rootfs⟩
    · rw [setupCustomBind_of_some hskip hopen]
      obtain ⟨hsound, hdir⟩ := openBoth_sound (mkdirP_ready hready hdest).sound
        (mkdirP_ready hready hdest).rootfs hopen
      exact ⟨checked_sound hsound, hdir.congr checked_disks⟩

/-- **One bind keeps everything inside exactly if it is safe.** -/
theorem contained_setupCustomBind (hready : Ready rootfs h)
    (hdest : validateBindDestination b.dest = true) (hin : Contained own rootfs h) :
    Contained own rootfs (setupCustomBind rootfs h b) ↔ Safe own rootfs h b := by
  cases hskip : isHostRoot h rootfs b.src with
  | true =>
    have hsame : setupCustomBind rootfs h b = h := by
      unfold setupCustomBind
      rw [hskip]
      rfl
    rw [hsame]
    refine iff_of_true hin ⟨fun hno => ?_, fun hno => ?_⟩ <;> rw [hskip] at hno <;> cases hno
  | false =>
    have hgrows := mounting_grows hready.sound hready.rootfs hdest
    have htouched : (∀ l ∈ (mounting rootfs h b).1.touched, ∃ r ∈ own, l.Below r) ↔
        ∀ l, firstMade rootfs h b = some l → ∃ r ∈ own, l.Below r := by
      rcases hgrows with ⟨hnone, hsame⟩ | ⟨l, hl, hgrows, hmem⟩
      · rw [hsame, hnone]
        exact iff_of_true hin.touched fun l hl => by cases hl
      · constructor
        · intro hall l' hl'
          rw [hl] at hl'
          obtain rfl := Option.some.inj hl'
          exact hall l hmem
        · intro hmade k hk
          obtain ⟨new, hnew, hbelow⟩ := hgrows.touched
          rw [hnew] at hk
          rcases List.mem_append.1 hk with hk | hk
          · obtain ⟨r, hr, hlr⟩ := hmade l hl
            exact ⟨r, hr, (hbelow k hk).trans hlr⟩
          · exact hin.touched k hk
    have hmounts : (mounting rootfs h b).1.mounts = h.mounts := by
      rcases hgrows with ⟨-, hsame⟩ | ⟨l, -, hgrows, -⟩
      · rw [hsame]
      · exact hgrows.mounts
    have hinside : MountsIn rootfs (mounting rootfs h b).1 := by
      unfold MountsIn
      rw [hmounts]
      exact hin.mounts
    rcases hopen : mounting rootfs h b with ⟨h', _ | ⟨s, p⟩⟩
    · rw [setupCustomBind_of_none hskip hopen]
      rw [hopen] at htouched hinside
      constructor
      · intro hafter
        refine ⟨fun _ => htouched.1 hafter.touched, fun _ h'' s p hsome => ?_⟩
        rw [hopen] at hsome
        cases hsome
      · exact fun hsafe => ⟨htouched.2 (hsafe.made hskip), hinside⟩
    · rw [setupCustomBind_of_some hskip hopen]
      rw [hopen] at htouched hinside
      have hchecked := mountsIn_checked (s := s) (p := p) (b := b) hinside
      constructor
      · intro hafter
        have hthere := hafter.touched
        rw [checked_touched] at hthere
        refine ⟨fun _ => htouched.1 hthere, fun _ h'' s' p' hsome => ?_⟩
        rw [hopen] at hsome
        obtain ⟨rfl, hpair⟩ := Prod.mk.inj hsome
        obtain ⟨rfl, rfl⟩ := Prod.mk.inj (Option.some.inj hpair)
        exact hchecked.1 hafter.mounts
      · intro hsafe
        refine ⟨?_, hchecked.2 (hsafe.mounted hskip h' s p hopen)⟩
        rw [checked_touched]
        exact htouched.2 (hsafe.made hskip)

theorem foldl_ready (hready : Ready rootfs h)
    (hdest : ∀ b ∈ binds, validateBindDestination b.dest = true) :
    Ready rootfs (binds.foldl (setupCustomBind rootfs) h) := by
  induction binds generalizing h with
  | nil => exact hready
  | cons b binds ih =>
    exact ih (setupCustomBind_ready hready (hdest b (by simp))) fun b' hb' =>
      hdest b' (by simp [hb'])

/-- What there is after the first `k` binds. -/
def afterBinds (rootfs : Pos) (binds : List BindMount) (h : HostFiles) (k : ℕ) : HostFiles :=
  ((sortBindMounts binds).take k).foldl (setupCustomBind rootfs) h

theorem afterBinds_succ {k : ℕ} (hb : (sortBindMounts binds)[k]? = some b) :
    afterBinds rootfs binds h (k + 1) =
      setupCustomBind rootfs (afterBinds rootfs binds h k) b := by
  unfold afterBinds
  rw [List.take_add_one, hb, Option.toList_some, List.foldl_concat]

theorem afterBinds_length :
    afterBinds rootfs binds h (sortBindMounts binds).length = setupCustomBinds rootfs binds h := by
  unfold afterBinds setupCustomBinds
  rw [List.take_length]

/-- The rootfs has a link `l` to a directory of the host, and a directory `mnt`. -/
def linked : HostFiles where
  disks _ := ⟨[([], .dir), (["host"], .dir), (["src"], .dir), (["rootfs"], .dir),
    (["rootfs", "mnt"], .dir), (["rootfs", "l"], .file (.link "/host".toList))]⟩
  mounts := [⟨[⟨⟨0, ["rootfs"]⟩, ⟨0, ["rootfs"]⟩⟩], false, false⟩]
  touched := []

def linkedRootfs : Pos := ⟨[⟨⟨0, ["rootfs"]⟩, ⟨0, ["rootfs"]⟩⟩], ⟨0, ["rootfs"]⟩⟩

theorem linked_ready : Ready linkedRootfs linked := by
  have hframe : linked.FrameOk ⟨⟨0, ["rootfs"]⟩, ⟨0, ["rootfs"]⟩⟩ := by
    constructor
    · decide +kernel
    · decide +kernel
    · rfl
  constructor
  · constructor
    · exact fun d => FileTree.wellFormed_of_listsParents
        (by decide +kernel : (linked.disks 0).listsParents = true)
    · decide +kernel
    · exact fun d _ => (by decide +kernel : (linked.disks 0).find [] = some .dir)
    · intro m hm frame hmem
      obtain rfl : m = ⟨[⟨⟨0, ["rootfs"]⟩, ⟨0, ["rootfs"]⟩⟩], false, false⟩ := by
        simpa [linked] using hm
      obtain rfl := List.mem_singleton.1 hmem
      exact hframe
  · refine ⟨by decide +kernel, fun frame hmem => ?_⟩
    obtain rfl := List.mem_singleton.1 hmem
    exact hframe

end Exact

end Droidspaces.CustomBinds
