import Droidspaces.Socketd.Wire

/-!
# The list of images

Every container that is installed stands for an image.  `LIST_IMAGES` and `INFO` go over the same
directories by loops of their own; `listImages_eq_some` says what the first of them finds, and
`countInstalled_eq` that the second one counts the same.
-/

namespace Droidspaces.Socketd

open Binary Config Memory

/-! ## The code -/

section Code

variable {sys : System} {android : Bool} (inv : Inventory sys android)

/-- The loop of `LIST_IMAGES`. -/
def Inventory.collectImages :
    List Text → PidFiles → List ImageRecord × ℕ → Option (List ImageRecord)
  | [], _, array => some array.1
  | entry :: entries, files, array =>
    if entry.head? = some '.' ∨ validateContainerName entry = false then
      Inventory.collectImages entries files array
    else
      match inv.config entry with
      | none => Inventory.collectImages entries files array
      | some cfg =>
        let (running, pid, files) := isContainerRunning inv.table files (nameOf cfg) (uuidOf cfg)
        match double (maxPayload / imageRecord.size) array.1.length array.2 with
        | none => none
        | some capacity =>
          Inventory.collectImages entries files
            (array.1 ++ [packImageRecord cfg (running && 0 < pid)], capacity)

def Inventory.listImages : Option (List ImageRecord) :=
  inv.collectImages inv.workspace.dirs inv.files ([], 16)

/-- The loop of `socketd_count_installed_containers` -/
def Inventory.countEntries : List Text → ℕ → ℕ
  | [], count => count
  | entry :: entries, count =>
    if entry.head? = some '.' then Inventory.countEntries entries count
    else if validateContainerName entry = false then Inventory.countEntries entries count
    else if (inv.config entry).isSome then
      Inventory.countEntries entries (if count < 2 ^ 32 - 1 then count + 1 else count)
    else Inventory.countEntries entries count

/-- `socketd_count_installed_containers` -/
def Inventory.countInstalled : ℕ := inv.countEntries inv.workspace.dirs 0

end Code

/-! ## What there is -/

section Installed

variable {sys : System} {android : Bool} (inv : Inventory sys android)

/-- An entry of `Containers` with something installed. -/
def Inventory.isInstalled (entry : Text) : Bool :=
  entry.head? ≠ some '.' && validateContainerName entry && (inv.config entry).isSome

/-- The directories with something installed, in their order. -/
def Inventory.installed : List Text := inv.workspace.dirs.filter inv.isInstalled

/-- What is to say of a directory. -/
def Inventory.imageOf (dir : Text) : ImageRecord :=
  packImageRecord (inv.cfgOf dir) (inv.pidOf dir).isSome

/-- The array for the images grows far enough. -/
def Inventory.HasRoomForImages : Prop :=
  HasRoom (maxPayload / imageRecord.size) 16 inv.installed.length

variable {inv} {files : PidFiles} {entry dir : Text}

theorem Inventory.mem_containers_of_isInstalled (hmem : dir ∈ inv.workspace.dirs)
    (h : inv.isInstalled dir = true) : dir ∈ inv.containers := by
  simp only [isInstalled, Bool.and_eq_true] at h
  exact List.mem_filter.2 ⟨hmem, h.2⟩

theorem Inventory.isInstalled_eq_true : inv.isInstalled entry = true ↔
    ¬ (entry.head? = some '.' ∨ validateContainerName entry = false) ∧
      (inv.config entry).isSome = true := by
  simp [isInstalled, and_assoc]

theorem Inventory.isInstalled_eq_false : inv.isInstalled entry = false ↔
    (entry.head? = some '.' ∨ validateContainerName entry = false) ∨ inv.config entry = none := by
  rw [← Bool.not_eq_true, isInstalled_eq_true, not_and_or, not_not, Bool.not_eq_true,
    Option.isSome_eq_false_iff, Option.isNone_iff_eq_none]

/-- **One record for each directory with something installed.** -/
theorem Inventory.collectImages_eq {entries : List Text} (hentries : entries ⊆ inv.workspace.dirs)
    (hfiles : inv.Agrees files) (array : List ImageRecord × ℕ) :
    inv.collectImages entries files array =
      (pushAll (maxPayload / imageRecord.size)
        ((entries.filter inv.isInstalled).map inv.imageOf) array).map Prod.fst := by
  induction entries generalizing files array with
  | nil => rfl
  | cons entry entries ih =>
    obtain ⟨hentry, hrest⟩ := List.cons_subset.1 hentries
    rw [collectImages]
    cases hinstalled : inv.isInstalled entry with
    | false =>
      rw [List.filter_cons_of_neg (by simp [hinstalled])]
      rcases isInstalled_eq_false.1 hinstalled with h | h
      · rw [if_pos h]
        exact ih hrest hfiles array
      · rw [h]
        split
        · exact ih hrest hfiles array
        · exact ih hrest hfiles array
    | true =>
      have hmem := mem_containers_of_isInstalled hentry hinstalled
      obtain ⟨running, pid, files', hlook, hagrees, hpid⟩ := hfiles.look hmem
      have hrecord :
          packImageRecord (inv.cfgOf entry) (running && 0 < pid) = inv.imageOf entry := by
        rw [imageOf, ← hpid]
        cases running <;> simp [apply_ite]
      rw [if_neg (isInstalled_eq_true.1 hinstalled).1, (inv.mem_containers.1 hmem).2,
        List.filter_cons_of_pos hinstalled, List.map_cons]
      obtain ⟨items, capacity⟩ := array
      simp only [hlook, pushAll, hrecord]
      cases double (maxPayload / imageRecord.size) items.length capacity with
      | none => rfl
      | some capacity => exact ih hrest hagrees _

theorem Inventory.agrees_files (inv : Inventory sys android) : inv.Agrees inv.files :=
  fun _ _ => rfl

/-- The answer is what there is room for. -/
theorem Inventory.listImages_eq_some {records : List ImageRecord} :
    inv.listImages = some records ↔
      records = inv.installed.map inv.imageOf ∧ inv.HasRoomForImages := by
  rw [listImages, inv.collectImages_eq (List.Subset.refl _) inv.agrees_files,
    pushAll_eq_some (by decide) (by decide), List.length_map, HasRoomForImages, installed]

/-- What does not fit into the counter is left out. -/
theorem Inventory.countEntries_eq (entries : List Text) {count : ℕ} (h : count < 2 ^ 32) :
    inv.countEntries entries count =
      min (count + entries.countP inv.isInstalled) (2 ^ 32 - 1) := by
  induction entries generalizing count with
  | nil =>
    show count = min (count + 0) (2 ^ 32 - 1)
    omega
  | cons entry entries ih =>
    rw [countEntries, List.countP_cons]
    cases hinstalled : inv.isInstalled entry with
    | false =>
      rcases isInstalled_eq_false.1 hinstalled with (hentry | hentry) | hentry
      · rw [if_pos hentry, ih h]
        rfl
      · rw [if_pos hentry, ite_self, ih h]
        rfl
      · rw [hentry, Option.isSome_none, if_neg Bool.false_ne_true, ite_self, ite_self, ih h]
        rfl
    | true =>
      obtain ⟨hnot, hsome⟩ := isInstalled_eq_true.1 hinstalled
      rw [not_or] at hnot
      rw [if_neg hnot.1, if_neg hnot.2, if_pos hsome, ih (by split <;> omega), if_pos rfl]
      split <;> omega

/-- The same directories are counted. -/
theorem Inventory.countInstalled_eq (inv : Inventory sys android) :
    inv.countInstalled = min inv.installed.length (2 ^ 32 - 1) := by
  rw [countInstalled, countEntries_eq _ (by decide), Nat.zero_add, installed,
    List.countP_eq_length_filter]

end Installed

end Droidspaces.Socketd
