import Droidspaces.Config.Load

/-!
# The configuration of an in-container reboot

When a container reboots, its monitor loads `container.config` over the configuration that it has;
`restart` loads it over the defaults, with the identity of the container kept.  A key that was taken
out of the file keeps its old value in the one and is back at its default in the other, and lists
are joined in the one and replaced in the other.

`reload_eq_restart_iff` says when the two boot the same.
-/

namespace Droidspaces.Config

/-! ## Starting -/

/-- What `start_rootfs` asks the host for. -/
structure StartHost where
  /-- `access(path, F_OK)` -/
  there : Text → Bool
  /-- The command has a terminal. -/
  hasTty : Bool
  /-- `collect_active_uuids` -/
  isActive : Text → Bool
  /-- `generate_uuid` -/
  newUuid : Text
  newUuid_fresh : newUuid ≠ [] ∧ isActive newUuid = false
  /-- `ds_net_resolve_static_ip`, for a name and the address that is configured. -/
  resolveStaticIp : Text → Text → Text
  /-- Where `mount_rootfs_img` mounts the image of the container with this name. -/
  mountRootfsImg : Text → Option Text
  mountRootfsImg_ne_nil : ∀ name, mountRootfsImg name ≠ some []

/-- What `start_rootfs` makes of a path, if there is one. -/
def canonical (sys : System) (path : Text) : Text :=
  if path.isEmpty then path else sys.resolve path

def resolvePath (sys : System) (host : StartHost) (path : Text) : Option Text :=
  if path.isEmpty || host.there (sys.resolve path) then some (canonical sys path) else none

/-- A mount that an earlier stop has preserved is used again, whatever is configured. -/
def startRootfsPaths (sys : System) (host : StartHost) (preserved : Option Text) (name : Text)
    (r : Rootfs) : Option Rootfs := do
  let r := match preserved with
    | some mount => { r with path := mount, isImg := true }
    | none => r
  let path ← resolvePath sys host r.path
  let img ← resolvePath sys host r.img
  if preserved.isNone && !img.isEmpty then
    let mount ← host.mountRootfsImg name
    return { path := mount, img, isImg := true }
  else return { path, img, isImg := r.isImg }

/-- The other keys that `start_rootfs` changes before it forks the monitor. -/
def startValue (host : StartHost) (cfg : DsConfig) (r : Rootfs) : (k : Key) → k.Value
  | .rootfs => r
  | .flag .foreground => cfg.value (.flag .foreground) && host.hasTty
  | .text .hostname =>
    if (cfg.value (.text .hostname)).isEmpty then cfg.value (.text .name)
    else cfg.value (.text .hostname)
  | .text .uuid =>
    if (cfg.value (.text .uuid)).isEmpty || host.isActive (cfg.value (.text .uuid)) then
      host.newUuid
    else cfg.value (.text .uuid)
  | .text .staticNatIp =>
    if cfg.value .netMode = .nat then
      host.resolveStaticIp (cfg.value (.text .name)) (cfg.value (.text .staticNatIp))
    else cfg.value (.text .staticNatIp)
  | k => cfg.value k

/-- The configuration that is booted, if nothing is missing. -/
def startRootfs (sys : System) (host : StartHost) (preserved : Option Text) (cfg : DsConfig) :
    Option DsConfig :=
  (startRootfsPaths sys host preserved (cfg.value (.text .name)) (cfg.value .rootfs)).map
    fun r => { cfg with value := startValue host cfg r }

/-! ## The two reloads -/

/-- What `ds_config_serialize_known` writes for the root file system, loaded into the defaults. -/
def savedRootfs (sys : System) (r : Rootfs) : Rootfs :=
  if r.isImg then { path := [], img := sys.resolve r.img, isImg := true }
  else { path := sys.resolve r.path, img := [], isImg := false }

/-- A running container: the configuration of its monitor, and the snapshot of it that `restart`
loads for the stop. -/
structure Live (sys : System) where
  cfg : DsConfig
  imgMountPoint : Text
  snapshot : DsConfig
  mounted : (cfg.value .rootfs).isImg = true → imgMountPoint ≠ []
  unmounted : (cfg.value .rootfs).isImg = false → (cfg.value .rootfs).img = []
  name_snapshot : snapshot.value (.text .name) = cfg.value (.text .name)
  uuid_snapshot : snapshot.value (.text .uuid) = cfg.value (.text .uuid)
  rootfs_snapshot : snapshot.value .rootfs = savedRootfs sys (cfg.value .rootfs)

section Reloads

variable (sys : System) (host : StartHost) (text : Text) (live : Live sys)

/-- `if (cfg->is_img_mount && cfg->img_mount_point[0])` -/
def remount (mount : Text) (r : Rootfs) : Rootfs :=
  if r.isImg && !mount.isEmpty then { r with path := mount } else r

/-- The reload in `ds_monitor_run`. -/
def monitorReload : DsConfig :=
  let cfg := live.cfg.set .binds []
  let new := dsConfigLoad sys text cfg
  let new := new.set (.flag .forceCgroupv1) (live.cfg.value (.flag .forceCgroupv1))
  new.set .rootfs (remount live.imgMountPoint (new.value .rootfs))

/-- The `.mount` sidecar is that of the start. -/
def preservedMount : Option Text :=
  if live.imgMountPoint.isEmpty then none else some live.imgMountPoint

/-- `restart_rootfs` without options, after the stop. -/
def restartRootfs : Option DsConfig :=
  startRootfs sys host (preservedMount sys live)
    (dsConfigLoad sys text (dsConfigResetDefaults live.snapshot))

/-! ## When they agree -/

/-- The old value of a key makes no difference: a line of the file replaces it, or it is the
default; and a list is what comes first in that of the file. -/
def Settled : (k : Key) → List Text → k.Value → Prop
  | .text k, vals, v => (∃ val ∈ vals, k.accepts sys val = true) ∨ v = []
  | .flag _, vals, v => vals ≠ [] ∨ v = false
  | .limit _, vals, v => (∃ val ∈ vals, parseLlPositive val ≠ none) ∨ v = 0
  | .privileged, vals, v => vals ≠ [] ∨ v = 0
  | .netMode, vals, v => vals ≠ [] ∨ v = .nat
  | .rootfs, vals, _ => vals ≠ []
  | .upstreamIfaces, vals, v => v <+: overlay sys .upstreamIfaces vals []
  | .portForwards, vals, v => v <+: overlay sys .portForwards vals []
  | .binds, _, _ => True

/-- The keys that `start_rootfs` takes as they are. -/
def isPlain : Key → Bool
  | .rootfs | .binds => false
  | .flag f => f != .foreground && f != .forceCgroupv1
  | .text k => k != .name && k != .hostname && k != .uuid && k != .staticNatIp
  | _ => true

/-- The value of a key in the file, on top of the one given. -/
def inFile (k : Key) (v : k.Value) : k.Value := overlay sys k (valuesOf k text) v

/-- The root file system is an image. -/
def bootsImage : Bool :=
  ((valuesOf .rootfs text).getLast?.map sys.isImage).getD (live.cfg.value .rootfs).isImg

/-- The path of the image or of the directory, in the file or else in the monitor. -/
def livePath : Text :=
  let r := live.cfg.value .rootfs
  (valuesOf .rootfs text).getLast?.getD (if r.isImg then r.img else r.path)

/-- The same, in the file or else in the snapshot. -/
def snapshotPath : Text :=
  let r := live.cfg.value .rootfs
  (valuesOf .rootfs text).getLast?.getD (sys.resolve (if r.isImg then r.img else r.path))

/-- An image stays an image and a directory a directory, with paths in canonical form. -/
structure RootfsSettled : Prop where
  kind : bootsImage sys text live = !live.imgMountPoint.isEmpty
  mount : canonical sys live.imgMountPoint = live.imgMountPoint
  path : canonical sys (snapshotPath sys text live) = livePath sys text live

/-- The condition under which an in-container reboot boots what `restart` does. -/
structure SameBoot : Prop where
  plain : ∀ k, isPlain k = true → Settled sys k (valuesOf k text) (live.cfg.value k)
  rootfs : RootfsSettled sys text live
  foreground : if host.hasTty then
      Settled sys (.flag .foreground) (valuesOf (.flag .foreground) text)
        (live.cfg.value (.flag .foreground))
    else inFile sys text (.flag .foreground) (live.cfg.value (.flag .foreground)) = false
  hostname : match (valuesOf (.text .hostname) text).getLast? with
    | some val => val = [] → inFile sys text (.text .name) (live.cfg.value (.text .name)) = []
    | none => live.cfg.value (.text .hostname) =
        inFile sys text (.text .name) (live.cfg.value (.text .name))
  uuid : let uuid := inFile sys text (.text .uuid) (live.cfg.value (.text .uuid))
    uuid ≠ [] ∧ host.isActive uuid = false
  staticNatIp : inFile sys text (.text .staticNatIp) (live.cfg.value (.text .staticNatIp)) =
    if inFile sys text .netMode .nat = .nat then
      host.resolveStaticIp (inFile sys text (.text .name) (live.cfg.value (.text .name)))
        (inFile sys text (.text .staticNatIp) [])
    else inFile sys text (.text .staticNatIp) []

end Reloads

variable {sys : System} {host : StartHost} {text : Text} {live : Live sys}

/-! ## Keys that are replaced -/

theorem foldl_getD {α : Type} (f : Text → Option α) (vals : List Text) (v : α) :
    vals.foldl (fun v val => (f val).getD v) v = (vals.filterMap f).getLast?.getD v := by
  induction vals generalizing v with
  | nil => rfl
  | cons val vals ih =>
    rw [List.foldl_cons, ih, List.filterMap_cons]
    cases f val with
    | none => rfl
    | some w =>
      rw [List.getLast?_cons]
      rfl

/-- The value that was there counts as long as none replaces it. -/
theorem foldl_getD_eq_iff {α : Type} (f : Text → Option α) (vals : List Text) (v w : α) :
    vals.foldl (fun v val => (f val).getD v) v = vals.foldl (fun v val => (f val).getD v) w ↔
      (∃ val ∈ vals, f val ≠ none) ∨ v = w := by
  rw [foldl_getD, foldl_getD]
  cases hlast : (vals.filterMap f).getLast? with
  | none =>
    have hnone : ¬ ∃ val ∈ vals, f val ≠ none := by
      rintro ⟨val, hval, hne⟩
      obtain ⟨u, hu⟩ := Option.ne_none_iff_exists'.1 hne
      have hmem : u ∈ vals.filterMap f := List.mem_filterMap.2 ⟨val, hval, hu⟩
      rw [List.getLast?_eq_none_iff.1 hlast] at hmem
      cases hmem
    exact (or_iff_right hnone).symm
  | some u =>
    obtain ⟨val, hval, hu⟩ := List.mem_filterMap.1 (List.mem_of_getLast? hlast)
    exact iff_of_true rfl (Or.inl ⟨val, hval, by simp [hu]⟩)

theorem Insertion.foldl_eq_iff {β : Type} {new : List β → Text → Option β} (h : Insertion new)
    (split : Text → List Text) (vals : List Text) {m : List β} :
    vals.foldl (fun l val => (split val).foldl (extend new) l) m =
        vals.foldl (fun l val => (split val).foldl (extend new) l) [] ↔
      m <+: vals.foldl (fun l val => (split val).foldl (extend new) l) [] := by
  rw [← List.foldl_flatMap, ← List.foldl_flatMap]
  exact h.extend_of_prefix

theorem exists_mem_some_iff {α : Type} {f : Text → α} {vals : List Text} :
    (∃ val ∈ vals, some (f val) ≠ none) ↔ vals ≠ [] := by
  constructor
  · rintro ⟨val, hval, -⟩
    exact List.ne_nil_of_mem hval
  · intro hne
    obtain ⟨val, hval⟩ := List.exists_mem_of_ne_nil vals hne
    exact ⟨val, hval, by simp⟩

/-- **`Settled` is what it takes for the old value to make no difference.** -/
theorem overlay_eq_iff (k : Key) (hk : k ≠ .rootfs ∧ k ≠ .binds) (vals : List Text) (v : k.Value) :
    overlay sys k vals v = overlay sys k vals (defaults.value k) ↔ Settled sys k vals v := by
  cases k with
  | text k =>
    have hfold : ∀ v : Text, overlay sys (.text k) vals v = vals.foldl (fun v val =>
        (if k.accepts sys val then some (k.stored val) else none).getD v) v := by
      intro v
      refine List.foldl_ext _ _ v fun v val _ => ?_
      show (if k.accepts sys val = true then k.stored val else v) = _
      split
      · rfl
      · rfl
    rw [hfold, hfold, foldl_getD_eq_iff]
    simp [Settled, defaults]
  | flag f =>
    refine (foldl_getD_eq_iff (fun val => some (parseBool val)) vals v false).trans ?_
    rw [exists_mem_some_iff]
    rfl
  | limit l =>
    exact foldl_getD_eq_iff parseLlPositive vals v 0
  | privileged =>
    refine (foldl_getD_eq_iff (fun val => some (parsePrivileged val)) vals v 0).trans ?_
    rw [exists_mem_some_iff]
    rfl
  | netMode =>
    refine (foldl_getD_eq_iff (fun val => some (parseNetMode val)) vals v .nat).trans ?_
    rw [exists_mem_some_iff]
    rfl
  | rootfs => exact absurd rfl hk.1
  | upstreamIfaces =>
    exact newIface_insertion.foldl_eq_iff (fun val => tokens (val.take 1023)) vals
  | portForwards =>
    exact newPort_insertion.foldl_eq_iff (fun val => tokens (val.take 1023)) vals
  | binds => exact absurd rfl hk.2

/-! ## The root file system -/

/-- Without an image there is no path of one. -/
theorem overlay_rootfs_img {vals : List Text} {r : Rootfs} (hr : r.isImg = false → r.img = []) :
    (overlay sys .rootfs vals r).isImg = false → (overlay sys .rootfs vals r).img = [] := by
  induction vals generalizing r with
  | nil => exact hr
  | cons val vals ih =>
    apply ih
    show (acceptRootfs sys val r).isImg = false → (acceptRootfs sys val r).img = []
    unfold acceptRootfs
    split
    · intro hno
      cases hno
    · intro _
      by_cases himg : r.isImg = true
      · simp [himg]
      · simpa [himg] using hr (by simpa using himg)

theorem overlay_rootfs_path {vals : List Text} {r : Rootfs} (hr : r.isImg = true → r.path = []) :
    (overlay sys .rootfs vals r).isImg = true → (overlay sys .rootfs vals r).path = [] := by
  induction vals generalizing r with
  | nil => exact hr
  | cons val vals ih =>
    apply ih
    show (acceptRootfs sys val r).isImg = true → (acceptRootfs sys val r).path = []
    unfold acceptRootfs
    split
    · intro _
      by_cases himg : r.isImg = true
      · simpa [himg] using hr himg
      · simp [himg]
    · intro hno
      cases hno

/-- The last line says what the root file system is. -/
theorem overlay_rootfs_last {vals : List Text} {val : Text} (h : vals.getLast? = some val)
    {r : Rootfs} (hr : r.isImg = false → r.img = []) :
    (sys.isImage val = true ∧ (overlay sys .rootfs vals r).img = val ∧
      (overlay sys .rootfs vals r).isImg = true) ∨
    (sys.isImage val = false ∧ overlay sys .rootfs vals r = ⟨val, [], false⟩) := by
  obtain ⟨init, rfl⟩ := List.getLast?_eq_some_iff.1 h
  have hstep : overlay sys .rootfs (init ++ [val]) r =
      acceptRootfs sys val (overlay sys .rootfs init r) := by
    simp [overlay, accept]
  rw [hstep, acceptRootfs]
  cases himage : sys.isImage val with
  | true => exact Or.inl ⟨rfl, rfl, rfl⟩
  | false =>
    right
    refine ⟨rfl, ?_⟩
    by_cases himg : (overlay sys .rootfs init r).isImg = true
    · simp [himg]
    · simpa [himg] using overlay_rootfs_img hr (by simpa using himg)

theorem resolvePath_eq_some {path p : Text} (h : resolvePath sys host path = some p) :
    p = canonical sys path := by
  unfold resolvePath at h
  split at h
  · exact (Option.some.inj h).symm
  · cases h

theorem startRootfsPaths_preserved {mount name : Text} {q r : Rootfs}
    (h : startRootfsPaths sys host (some mount) name q = some r) :
    r = ⟨canonical sys mount, canonical sys q.img, true⟩ := by
  simp only [startRootfsPaths, Option.bind_eq_bind, Option.bind_eq_some_iff] at h
  obtain ⟨path, hpath, img, himg, hr⟩ := h
  rw [resolvePath_eq_some hpath, resolvePath_eq_some himg] at hr
  exact (Option.some.inj hr).symm

theorem startRootfsPaths_fresh {name : Text} {q r : Rootfs}
    (h : startRootfsPaths sys host none name q = some r) :
    (canonical sys q.img = [] ∧ r = ⟨canonical sys q.path, [], q.isImg⟩) ∨
      (canonical sys q.img ≠ [] ∧ r.path ≠ []) := by
  simp only [startRootfsPaths, Option.bind_eq_bind, Option.bind_eq_some_iff] at h
  obtain ⟨path, hpath, img, himg, hr⟩ := h
  obtain rfl := resolvePath_eq_some hpath
  obtain rfl := resolvePath_eq_some himg
  by_cases hempty : canonical sys q.img = []
  · left
    simp only [hempty, Option.isNone_none, List.isEmpty_nil, Bool.not_true, Bool.and_false,
      Bool.false_eq_true, if_false] at hr
    exact ⟨hempty, (Option.some.inj hr).symm⟩
  · right
    refine ⟨hempty, ?_⟩
    have hfull : (canonical sys q.img).isEmpty = false := by simpa using hempty
    simp only [hfull, Option.isNone_none, Bool.not_false, Bool.and_self, if_true,
      Option.bind_eq_some_iff] at hr
    obtain ⟨mount, hmount, hr⟩ := hr
    obtain rfl := Option.some.inj hr
    rintro rfl
    exact host.mountRootfsImg_ne_nil name hmount

@[simp] theorem canonical_nil : canonical sys [] = [] := rfl

theorem live_rootfs (text : Text) (live : Live sys) :
    let q := inFile sys text .rootfs (live.cfg.value .rootfs)
    (bootsImage sys text live = true ∧ q.img = livePath sys text live ∧ q.isImg = true) ∨
      (bootsImage sys text live = false ∧ q = ⟨livePath sys text live, [], false⟩) := by
  have hunmounted := live.unmounted
  unfold inFile bootsImage livePath
  generalize live.cfg.value .rootfs = r at hunmounted
  cases hlast : (valuesOf .rootfs text).getLast? with
  | some val => exact overlay_rootfs_last hlast hunmounted
  | none =>
    rw [List.getLast?_eq_none_iff.1 hlast]
    obtain ⟨path, img, isImg⟩ := r
    cases isImg with
    | true => exact Or.inl ⟨rfl, rfl, rfl⟩
    | false =>
      obtain rfl : img = [] := hunmounted rfl
      exact Or.inr ⟨rfl, rfl⟩

theorem savedRootfs_img (r : Rootfs) :
    (savedRootfs sys r).isImg = false → (savedRootfs sys r).img = [] := by
  unfold savedRootfs
  split
  · intro hno
    cases hno
  · exact fun _ => rfl

theorem snapshot_rootfs (text : Text) (live : Live sys) :
    let q := inFile sys text .rootfs (live.snapshot.value .rootfs)
    (bootsImage sys text live = true ∧ q.img = snapshotPath sys text live ∧ q.isImg = true) ∨
      (bootsImage sys text live = false ∧ q = ⟨snapshotPath sys text live, [], false⟩) := by
  rw [live.rootfs_snapshot]
  unfold inFile bootsImage snapshotPath
  generalize live.cfg.value .rootfs = r
  cases hlast : (valuesOf .rootfs text).getLast? with
  | some val => exact overlay_rootfs_last hlast (savedRootfs_img _)
  | none =>
    rw [List.getLast?_eq_none_iff.1 hlast]
    obtain ⟨path, img, isImg⟩ := r
    cases isImg with
    | true => exact Or.inl ⟨rfl, rfl, rfl⟩
    | false => exact Or.inr ⟨rfl, rfl⟩

/-- A directory that becomes an image has no mount point. -/
theorem livePath_of_image (text : Text) (live : Live sys) (himage : bootsImage sys text live = true)
    (hempty : live.imgMountPoint = []) :
    livePath sys text live ≠ [] ∧
      (inFile sys text .rootfs (live.cfg.value .rootfs)).path = [] := by
  have himg : (live.cfg.value .rootfs).isImg = false := by
    by_contra hno
    exact live.mounted (by simpa using hno) hempty
  refine ⟨?_, overlay_rootfs_path (fun hno => ?_) ?_⟩
  · unfold bootsImage at himage
    unfold livePath
    cases hlast : (valuesOf .rootfs text).getLast? with
    | none => simp [hlast, himg] at himage
    | some val =>
      rintro rfl
      simp [hlast, sys.isImage_nil] at himage
  · rw [himg] at hno
    cases hno
  · rcases live_rootfs text live with h | h
    · exact h.2.2
    · rw [himage] at h
      cases h.1

/-- **The root file system is the same.** -/
theorem rootfs_eq_iff {name : Text} {r : Rootfs}
    (h : startRootfsPaths sys host (preservedMount sys live) name
      (inFile sys text .rootfs (live.snapshot.value .rootfs)) = some r) :
    remount live.imgMountPoint (inFile sys text .rootfs (live.cfg.value .rootfs)) = r ↔
      RootfsSettled sys text live := by
  have hlive := live_rootfs text live
  have hsnapshot := snapshot_rootfs text live
  have hnew := livePath_of_image text live
  generalize inFile sys text .rootfs (live.cfg.value .rootfs) = q at hlive hnew ⊢
  generalize inFile sys text .rootfs (live.snapshot.value .rootfs) = q' at hsnapshot h
  dsimp only at hlive hsnapshot
  unfold preservedMount at h
  by_cases hempty : live.imgMountPoint = []
  · rw [hempty] at h
    have hr := startRootfsPaths_fresh h
    have hq' : remount live.imgMountPoint q = q := by simp [remount, hempty]
    rw [hq']
    rcases hlive with ⟨himage, hliveImg, hliveIs⟩ | ⟨hdir, rfl⟩
    · -- A directory that becomes an image is not mounted by the reload.
      obtain ⟨hne, hpath⟩ := hnew himage hempty
      refine iff_of_false ?_ fun hsettled => ?_
      · rintro rfl
        rcases hr with ⟨-, hr⟩ | ⟨-, hr⟩
        · rw [hr] at hliveImg
          exact hne hliveImg.symm
        · exact hr hpath
      · have hkind := hsettled.kind
        rw [himage, hempty] at hkind
        cases hkind
    · rcases hsnapshot with ⟨himage, -⟩ | ⟨-, rfl⟩
      · rw [hdir] at himage
        cases himage
      · rcases hr with ⟨-, rfl⟩ | ⟨hno, -⟩
        · constructor
          · intro heq
            refine ⟨by rw [hdir, hempty]; rfl, by rw [hempty]; rfl, ?_⟩
            exact (congrArg Rootfs.path heq).symm
          · intro hsettled
            rw [hsettled.path]
        · exact absurd rfl hno
  · have hfull : live.imgMountPoint.isEmpty = false := by simpa using hempty
    rw [hfull] at h
    have hr := startRootfsPaths_preserved h
    subst hr
    rcases hlive with ⟨himage, hliveImg, hliveIs⟩ | ⟨hdir, rfl⟩
    · rcases hsnapshot with ⟨-, himg, -⟩ | ⟨hdir, -⟩
      · have hq' : remount live.imgMountPoint q =
            ⟨live.imgMountPoint, livePath sys text live, true⟩ := by
          simp [remount, hliveIs, hfull, hliveImg]
        rw [hq', himg]
        constructor
        · intro heq
          obtain ⟨hmount, hpath, -⟩ := Rootfs.mk.inj heq
          exact ⟨by rw [himage, hfull]; rfl, hmount.symm, hpath.symm⟩
        · intro hsettled
          rw [hsettled.mount, hsettled.path]
      · rw [himage] at hdir
        cases hdir
    · -- The reload leaves the mount, and `restart` comes back to it.
      refine iff_of_false (fun heq => ?_) fun hsettled => ?_
      · have himg := congrArg Rootfs.isImg heq
        simp [remount] at himg
      · have hkind := hsettled.kind
        rw [hdir, hfull] at hkind
        cases hkind

/-! ## All keys -/

theorem monitorReload_value {k : Key} (hrootfs : k ≠ .rootfs) (hbinds : k ≠ .binds)
    (hcgroup : k ≠ .flag .forceCgroupv1) :
    (monitorReload sys text live).value k = inFile sys text k (live.cfg.value k) := by
  simp only [monitorReload]
  rw [DsConfig.value_set_of_ne _ hrootfs, DsConfig.value_set_of_ne _ hcgroup, dsConfigLoad_value,
    DsConfig.value_set_of_ne _ hbinds]
  rfl

theorem monitorReload_binds :
    (monitorReload sys text live).value .binds = inFile sys text .binds [] := by
  simp only [monitorReload]
  rw [DsConfig.value_set_of_ne _ (by simp), DsConfig.value_set_of_ne _ (by simp),
    dsConfigLoad_value, DsConfig.value_set_self]
  rfl

theorem monitorReload_rootfs :
    (monitorReload sys text live).value .rootfs =
      remount live.imgMountPoint (inFile sys text .rootfs (live.cfg.value .rootfs)) := by
  simp only [monitorReload, DsConfig.value_set_self]
  rw [DsConfig.value_set_of_ne _ (by simp), dsConfigLoad_value,
    DsConfig.value_set_of_ne _ (by simp)]
  rfl

/-- The configuration that `restart` gives to `start_rootfs`. -/
def restartBase (sys : System) (text : Text) (live : Live sys) : DsConfig :=
  dsConfigLoad sys text (dsConfigResetDefaults live.snapshot)

theorem restartBase_value {k : Key} (hk : isIdentity k = false) :
    (restartBase sys text live).value k = inFile sys text k (defaults.value k) := by
  rw [restartBase, dsConfigLoad_value]
  simp [dsConfigResetDefaults, hk, inFile]

theorem restartBase_name :
    (restartBase sys text live).value (.text .name) =
      inFile sys text (.text .name) (live.cfg.value (.text .name)) := by
  rw [restartBase, dsConfigLoad_value, ← live.name_snapshot]
  rfl

theorem restartBase_uuid :
    (restartBase sys text live).value (.text .uuid) =
      inFile sys text (.text .uuid) (live.cfg.value (.text .uuid)) := by
  rw [restartBase, dsConfigLoad_value, ← live.uuid_snapshot]
  rfl

theorem restartBase_rootfs :
    (restartBase sys text live).value .rootfs =
      inFile sys text .rootfs (live.snapshot.value .rootfs) := by
  rw [restartBase, dsConfigLoad_value]
  rfl

theorem startValue_plain {cfg : DsConfig} {r : Rootfs} {k : Key}
    (hk : isPlain k = true ∨ k = .binds ∨ k = .text .name) :
    startValue host cfg r k = cfg.value k := by
  rcases hk with hk | rfl | rfl
  · cases k with
    | text k => cases k with
      | hostname | uuid | staticNatIp => cases hk
      | _ => rfl
    | flag f => cases f with
      | foreground => cases hk
      | _ => rfl
    | rootfs => cases hk
    | _ => rfl
  · rfl
  · rfl

theorem isIdentity_of_isPlain {k : Key} (hk : isPlain k = true) : isIdentity k = false := by
  cases k with
  | text k => cases k with
    | name | uuid => cases hk
    | _ => rfl
  | rootfs => cases hk
  | _ => rfl

section Keys

variable {r : Rootfs} {k : Key}

theorem plain_eq_iff (hk : isPlain k = true) :
    (monitorReload sys text live).value k = startValue host (restartBase sys text live) r k ↔
      Settled sys k (valuesOf k text) (live.cfg.value k) := by
  have hrootfs : k ≠ .rootfs := fun h => by simp [h, isPlain] at hk
  have hbinds : k ≠ .binds := fun h => by simp [h, isPlain] at hk
  have hcgroup : k ≠ .flag .forceCgroupv1 := fun h => by simp [h, isPlain] at hk
  rw [monitorReload_value hrootfs hbinds hcgroup, startValue_plain (Or.inl hk),
    restartBase_value (isIdentity_of_isPlain hk)]
  exact overlay_eq_iff k ⟨hrootfs, hbinds⟩ _ _

theorem foreground_eq_iff :
    (monitorReload sys text live).value (.flag .foreground) =
        startValue host (restartBase sys text live) r (.flag .foreground) ↔
      if host.hasTty then
        Settled sys (.flag .foreground) (valuesOf (.flag .foreground) text)
          (live.cfg.value (.flag .foreground))
      else inFile sys text (.flag .foreground) (live.cfg.value (.flag .foreground)) = false := by
  rw [monitorReload_value (by simp) (by simp) (by simp)]
  show _ = ((restartBase sys text live).value (.flag .foreground) && host.hasTty) ↔ _
  rw [restartBase_value rfl]
  cases host.hasTty with
  | true =>
    rw [Bool.and_true, if_pos rfl]
    exact overlay_eq_iff (.flag .foreground) ⟨by simp, by simp⟩ _ _
  | false =>
    rw [Bool.and_false, if_neg (by simp)]

theorem overlay_hostname {vals : List Text} {val : Text} (h : vals.getLast? = some val) (v : Text) :
    overlay sys (.text .hostname) vals v = val.take 255 := by
  obtain ⟨init, rfl⟩ := List.getLast?_eq_some_iff.1 h
  simp [overlay, accept, TextKey.accepts, TextKey.stored, TextKey.size]

theorem hostname_eq_iff :
    (monitorReload sys text live).value (.text .hostname) =
        startValue host (restartBase sys text live) r (.text .hostname) ↔
      match (valuesOf (.text .hostname) text).getLast? with
      | some val => val = [] → inFile sys text (.text .name) (live.cfg.value (.text .name)) = []
      | none => live.cfg.value (.text .hostname) =
          inFile sys text (.text .name) (live.cfg.value (.text .name)) := by
  rw [monitorReload_value (by simp) (by simp) (by simp)]
  show _ = (if ((restartBase sys text live).value (.text .hostname)).isEmpty = true then
    (restartBase sys text live).value (.text .name)
    else (restartBase sys text live).value (.text .hostname)) ↔ _
  rw [restartBase_value (k := .text .hostname) rfl, restartBase_name]
  generalize inFile sys text (.text .name) _ = name
  unfold inFile
  cases hlast : (valuesOf (.text .hostname) text).getLast? with
  | some val =>
    rw [overlay_hostname hlast, overlay_hostname hlast]
    cases val with
    | nil => simp [eq_comm]
    | cons c val => simp
  | none =>
    rw [List.getLast?_eq_none_iff.1 hlast]
    exact Iff.rfl

theorem uuid_eq_iff :
    (monitorReload sys text live).value (.text .uuid) =
        startValue host (restartBase sys text live) r (.text .uuid) ↔
      let uuid := inFile sys text (.text .uuid) (live.cfg.value (.text .uuid))
      uuid ≠ [] ∧ host.isActive uuid = false := by
  rw [monitorReload_value (by simp) (by simp) (by simp)]
  show _ = (if (((restartBase sys text live).value (.text .uuid)).isEmpty ||
    host.isActive ((restartBase sys text live).value (.text .uuid))) = true then host.newUuid
    else (restartBase sys text live).value (.text .uuid)) ↔ _
  rw [restartBase_uuid]
  generalize inFile sys text (.text .uuid) _ = uuid
  dsimp only
  obtain ⟨hne, hfree⟩ := host.newUuid_fresh
  split
  · next htaken =>
    refine iff_of_false ?_ fun h => ?_
    · rintro rfl
      simp [hfree, hne] at htaken
    · simp [h.1, h.2] at htaken
  · next hok =>
    refine iff_of_true rfl ?_
    simpa using hok

theorem staticNatIp_eq_iff :
    (monitorReload sys text live).value (.text .staticNatIp) =
        startValue host (restartBase sys text live) r (.text .staticNatIp) ↔
      inFile sys text (.text .staticNatIp) (live.cfg.value (.text .staticNatIp)) =
        if inFile sys text .netMode .nat = .nat then
          host.resolveStaticIp (inFile sys text (.text .name) (live.cfg.value (.text .name)))
            (inFile sys text (.text .staticNatIp) [])
        else inFile sys text (.text .staticNatIp) [] := by
  rw [monitorReload_value (by simp) (by simp) (by simp)]
  show _ = (if (restartBase sys text live).value .netMode = .nat then
    host.resolveStaticIp ((restartBase sys text live).value (.text .name))
      ((restartBase sys text live).value (.text .staticNatIp))
    else (restartBase sys text live).value (.text .staticNatIp)) ↔ _
  rw [restartBase_value (k := .netMode) rfl, restartBase_value (k := .text .staticNatIp) rfl,
    restartBase_name]
  exact Iff.rfl

end Keys

/-- **An in-container reboot boots what `restart` would exactly under this condition.** -/
theorem reload_eq_restart_iff (host : StartHost) (text : Text) (live : Live sys) (cfg : DsConfig)
    (h : restartRootfs sys host text live = some cfg) :
    (∀ k, k ≠ .flag .forceCgroupv1 → (monitorReload sys text live).value k = cfg.value k) ↔
      SameBoot sys host text live := by
  obtain ⟨r, hr, rfl⟩ := Option.map_eq_some_iff.1 h
  change startRootfsPaths _ _ _ _ ((restartBase sys text live).value .rootfs) = some r at hr
  change (∀ k, _ → _ = startValue host (restartBase sys text live) r k) ↔ _
  rw [restartBase_rootfs] at hr
  have hrootfs := rootfs_eq_iff hr
  constructor
  · intro heq
    constructor
    · intro k hk
      exact (plain_eq_iff hk).1 (heq k fun h => by simp [h, isPlain] at hk)
    · rw [← hrootfs, ← monitorReload_rootfs]
      exact heq .rootfs (by simp)
    · exact foreground_eq_iff.1 (heq _ (by simp))
    · exact hostname_eq_iff.1 (heq _ (by simp))
    · exact uuid_eq_iff.1 (heq _ (by simp))
    · exact staticNatIp_eq_iff.1 (heq _ (by simp))
  · intro hsame k hk
    by_cases hplain : isPlain k = true
    · exact (plain_eq_iff hplain).2 (hsame.plain k hplain)
    cases k with
    | text k => cases k with
      | name =>
        rw [monitorReload_value (by simp) (by simp) (by simp), startValue_plain (by simp),
          restartBase_name]
      | hostname => exact hostname_eq_iff.2 hsame.hostname
      | uuid => exact uuid_eq_iff.2 hsame.uuid
      | staticNatIp => exact staticNatIp_eq_iff.2 hsame.staticNatIp
      | _ => exact absurd rfl hplain
    | flag f => cases f with
      | foreground => exact foreground_eq_iff.2 hsame.foreground
      | forceCgroupv1 => exact absurd rfl hk
      | _ => exact absurd rfl hplain
    | rootfs =>
      rw [monitorReload_rootfs]
      exact hrootfs.2 hsame.rootfs
    | binds =>
      rw [monitorReload_binds, startValue_plain (by simp), restartBase_value rfl]
      rfl
    | _ => exact absurd rfl hplain

/-! ## A key that is taken out of the file -/

/-- Directories only, and paths as they are. -/
def plainSystem : System where
  isImage _ := false
  isImage_nil := rfl
  resolve path := path
  underWorkspace _ := true

def plainHost : StartHost where
  there _ := true
  hasTty := false
  isActive _ := false
  newUuid := ['7']
  newUuid_fresh := ⟨by simp, rfl⟩
  resolveStaticIp _ ip := ip
  mountRootfsImg _ := none
  mountRootfsImg_ne_nil _ := by simp

/-- A container with access to the hardware. -/
def webConfig : DsConfig where
  value
    | .text .name => "web".toList
    | .text .hostname => "web".toList
    | .text .uuid => ['5']
    | .rootfs => ⟨"/srv/web".toList, [], false⟩
    | .flag .hwAccess => true
    | k => defaults.value k
  unknown := []

def web : Live plainSystem where
  cfg := webConfig
  imgMountPoint := []
  snapshot := webConfig
  mounted h := by cases h
  unmounted _ := rfl
  name_snapshot := rfl
  uuid_snapshot := rfl
  rootfs_snapshot := rfl

def webFile : Text := "name=web\nenable_hw_access=1\nenable_virgl=1\n".toList

/-- With the key still in the file both boot it. -/
theorem web_same : ∃ cfg, restartRootfs plainSystem plainHost webFile web = some cfg ∧
    ∀ k, k ≠ .flag .forceCgroupv1 → (monitorReload plainSystem webFile web).value k =
      cfg.value k := by
  refine ⟨_, rfl, (reload_eq_restart_iff plainHost webFile web _ rfl).2 ?_⟩
  constructor
  · intro k hk
    cases k with
    | text k => cases k with
      | name | hostname | uuid | staticNatIp => cases hk
      | _ => exact Or.inr rfl
    | flag f => cases f with
      | hwAccess => exact Or.inl (by decide +kernel)
      | foreground | forceCgroupv1 => cases hk
      | _ => exact Or.inr rfl
    | upstreamIfaces | portForwards => exact List.nil_prefix
    | binds => trivial
    | rootfs => cases hk
    | _ => exact Or.inr rfl
  · exact ⟨by decide +kernel, rfl, by decide +kernel⟩
  · show inFile plainSystem webFile (.flag .foreground) false = false
    decide +kernel
  · have hnone : (valuesOf (.text .hostname) webFile).getLast? = none := by decide +kernel
    rw [hnone]
    show "web".toList = inFile plainSystem webFile (.text .name) "web".toList
    decide +kernel
  · decide +kernel
  · decide +kernel

/-- Without it the reboot keeps the access that `restart` takes away. -/
theorem removed_differs : ∃ cfg,
    restartRootfs plainSystem plainHost "name=web\n".toList web = some cfg ∧
    ¬ ∀ k, k ≠ .flag .forceCgroupv1 →
      (monitorReload plainSystem "name=web\n".toList web).value k = cfg.value k := by
  refine ⟨_, rfl, fun h => ?_⟩
  have hkept : (monitorReload plainSystem "name=web\n".toList web).value (.flag .hwAccess) =
      true := by
    decide +kernel
  have heq := h (.flag .hwAccess) (by simp)
  rw [hkept] at heq
  exact absurd heq (by decide +kernel)

end Droidspaces.Config
