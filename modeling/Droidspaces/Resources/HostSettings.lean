import Droidspaces.Lifecycle.LockFile

/-!
# Host-wide settings

Two settings of the host are changed for a container and put back later: the SELinux mode and the
kernel's firmware search path.  Both are one value for the whole host, so putting them back means
knowing what they were.
-/

namespace Droidspaces

/-! ## SELinux -/

/-- `/sys/fs/selinux/enforce`; nothing where SELinux is missing. -/
abbrev Selinux := Option Bool

def dsSetSelinuxPermissive (enable : Bool) (enforcing : Selinux) : Selinux :=
  enforcing.map fun _ => !enable

theorem dsSetSelinuxPermissive_eq_self {enable : Bool} {enforcing : Selinux} :
    dsSetSelinuxPermissive enable enforcing = enforcing ↔ enforcing ≠ some enable := by
  cases enforcing with
  | none => simp [dsSetSelinuxPermissive]
  | some e => cases e <;> cases enable <;> simp [dsSetSelinuxPermissive]

/-! ## The firmware search path -/

/-- `fw_path_para` is 256 bytes including the NUL terminator. -/
def fwPathBufSize : ℕ := 256

/-- The search path is a comma-separated list; here, the list of its entries. -/
def fwText (path : List Text) : Text := [','].intercalate path

/-- `firmware_path_add`: the container's firmware is put in front, if it is there, is not listed
yet and fits. -/
def firmwarePathAdd (android present : Bool) (fw : Text) (path : List Text) : List Text :=
  if !android || !present then path
  else if fw ∈ path then path
  else if fwText path = [] then (fw.take (fwPathBufSize - 1)).splitOn ','
  else if fwPathBufSize < fw.length + 1 + (fwText path).length + 1 then path
  else fw.splitOn ',' ++ path

/-- `firmware_path_remove`: a path that was the only entry stays. -/
def firmwarePathRemove (android : Bool) (fw : Text) (path : List Text) : List Text :=
  if !android then path
  else if fwText (path.filter (· ≠ fw)) = [] then path
  else path.filter (· ≠ fw)

theorem firmwarePathRemove_of_notMem {android : Bool} {fw : Text} {path : List Text}
    (h : fw ∉ path) : firmwarePathRemove android fw path = path := by
  have hall : path.filter (· ≠ fw) = path := by
    refine List.filter_eq_self.2 fun p hp => ?_
    simpa using fun heq : p = fw => h (heq ▸ hp)
  unfold firmwarePathRemove
  rw [hall]
  split_ifs <;> rfl

/-- **What was added is removed**: the list is as before, if the entry is new and has no comma in
it, and the list is not empty. -/
theorem firmwarePathRemove_add {android present : Bool} {fw : Text} {path : List Text}
    (hnew : fw ∉ path) (hcomma : ',' ∉ fw) (hpath : fwText path ≠ []) :
    firmwarePathRemove android fw (firmwarePathAdd android present fw path) = path := by
  have hself : firmwarePathRemove android fw path = path := firmwarePathRemove_of_notMem hnew
  unfold firmwarePathAdd
  split_ifs with hskip
  · exact hself
  · exact hself
  · have hsplit : fw.splitOn ',' = [fw] := List.splitOn_eq_singleton hcomma
    have hall : path.filter (· ≠ fw) = path := by
      refine List.filter_eq_self.2 fun p hp => ?_
      simpa using fun heq : p = fw => hnew (heq ▸ hp)
    have hfilter : (fw.splitOn ',' ++ path).filter (· ≠ fw) = path := by
      rw [hsplit, List.filter_append, hall]
      simp
    unfold firmwarePathRemove
    rw [hfilter, if_neg hpath]
    split_ifs with handroid
    · simp [handroid] at hskip
    · rfl

end Droidspaces
