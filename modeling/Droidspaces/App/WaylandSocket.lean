import Droidspaces.App.GatewayCheck

/-!
# The Wayland socket of a container

The app listens in a directory that is called after the container, and the runtime links the
container to the directory that it takes for that one.  Both drop what they do not want in a path,
and the runtime has a buffer for it.  `ownSockets_iff` says when two containers have a socket each,
and each is linked to its own.
-/

namespace Droidspaces.WaylandSocket

open ConfigContent (isWhitespace validateContainerName)
open GatewayCheck (CharTable asciiTable)
open Gateway (isIfaceChar toNat_of_isIfaceChar toNat_lt_of_isIfaceChar isSpace_of_isIfaceChar)

/-! ## The app -/

/-- `trim()` -/
def trim (t : Text) : Text := (t.dropWhile isWhitespace).rdropWhile isWhitespace

/-- `replace(Regex("\\s+"), " ")`, within a run of blanks or not. -/
def collapseBlanks : Bool → Text → Text
  | _, [] => []
  | inRun, c :: t =>
    if isSpace c then
      if inRun then collapseBlanks true t else ' ' :: collapseBlanks true t
    else c :: collapseBlanks false t

def normalizeContainerName (name : Text) : Text := collapseBlanks false (trim name)

def orDefault (t : Text) : Text := if t.isEmpty then "default".toList else t

def waylandSocketDir (table : CharTable) (name : Text) : Text :=
  orDefault ((normalizeContainerName name).filter fun c =>
    table.isLetterOrDigit c || c == '_' || c == '-')

/-! ## The runtime -/

/-- `keep` -/
def isKept (c : Char) : Bool :=
  ('a' ≤ c && c ≤ 'z') || ('A' ≤ c && c ≤ 'Z') || ('0' ≤ c && c ≤ '9') || c == '_' || c == '-'

/-- `ds_wayland_socket_dir` -/
def dsWaylandSocketDir (name : Text) (size : ℕ) : Text :=
  let out := (name.filter isKept).take (size - 1)
  if out.isEmpty then "default".toList.take (size - 1) else out

/-- `dir`, in `ds_setup_wayland_socket`. -/
def linkedDir (name : Text) : Text := dsWaylandSocketDir name 128

/-! ## Names -/

/-- A name as the app stores it. -/
structure IsAccepted (name : Text) : Prop where
  normalized : ∃ typed, normalizeContainerName typed = name
  valid : validateContainerName name = true

/-- The name without its dots and blanks. -/
def bare (name : Text) : Text := name.filter fun c => c != '.' && !isSpace c

theorem filter_dropWhile {p q : Char → Bool} {t : Text} (h : ∀ c ∈ t, q c = true → p c = false) :
    (t.dropWhile q).filter p = t.filter p := by
  induction t with
  | nil => rfl
  | cons c t ih =>
    rw [List.dropWhile_cons]
    split
    · next hq =>
      rw [ih fun d hd => h d (List.mem_cons_of_mem c hd),
        List.filter_cons_of_neg (by simp [h c List.mem_cons_self hq])]
    · rfl

theorem filter_rdropWhile {p q : Char → Bool} {t : Text} (h : ∀ c ∈ t, q c = true → p c = false) :
    (t.rdropWhile q).filter p = t.filter p := by
  rw [List.rdropWhile, List.filter_reverse, filter_dropWhile fun c hc => h c (List.mem_reverse.1 hc),
    List.filter_reverse, List.reverse_reverse]

theorem filter_collapseBlanks {p : Char → Bool} {inRun : Bool} {t : Text} (hblank : p ' ' = false)
    (h : ∀ c ∈ t, isSpace c = true → p c = false) :
    (collapseBlanks inRun t).filter p = t.filter p := by
  induction t generalizing inRun with
  | nil => rfl
  | cons c t ih =>
    have htail (inRun : Bool) : (collapseBlanks inRun t).filter p = t.filter p :=
      ih fun d hd => h d (List.mem_cons_of_mem c hd)
    unfold collapseBlanks
    by_cases hspace : isSpace c = true
    · have hc := h c List.mem_cons_self hspace
      cases inRun with
      | true => simp [hspace, htail, hc]
      | false => simp [hspace, htail, hc, hblank]
    · simp [hspace, htail, List.filter_cons]

/-- The runtime keeps what may stand in the name of an interface. -/
theorem isKept_eq (c : Char) : isKept c = isIfaceChar c := by
  have halpha : c.isAlpha = (decide (c.val ≥ 'A'.val ∧ c.val ≤ 'Z'.val) ||
    (c.val ≥ 'a'.val && c.val ≤ 'z'.val)) := rfl
  simp only [isKept, isIfaceChar, Char.isAlphanum, halpha, Char.isDigit, Char.le_def, ge_iff_le]
  grind

/-- The app keeps the same of ASCII. -/
theorem keeps_eq (table : CharTable) {c : Char} (h : c.toNat < 128) :
    (table.isLetterOrDigit c || c == '_' || c == '-') = isIfaceChar c := by
  rw [table.ascii c h, isIfaceChar]

theorem toNat_lt_of_isSpace {c : Char} (h : isSpace c = true) : c.toNat < 128 := by
  simp only [isSpace, Bool.or_eq_true, beq_iff_eq, Bool.and_eq_true, decide_eq_true_eq] at h
  rcases h with rfl | ⟨-, hle⟩
  · decide
  · omega

section Valid

variable {name : Text} (h : validateContainerName name = true)
include h

theorem chars_of_valid : ∀ c ∈ name, isIfaceChar c = true ∨ isSpace c = true ∨ c = '.' := by
  intro c hc
  simp only [validateContainerName, Uninstall.isSafeContainerName, Bool.and_eq_true,
    List.all_eq_true, Bool.or_eq_true, beq_iff_eq] at h
  simp only [isIfaceChar, Bool.or_eq_true, beq_iff_eq]
  rcases h.2 c hc with (((halnum | hunder) | hspace) | hdot) | hdash
  · exact Or.inl (Or.inl (Or.inl halnum))
  · exact Or.inl (Or.inl (Or.inr hunder))
  · exact Or.inr (Or.inl hspace)
  · exact Or.inr (Or.inr hdot)
  · exact Or.inl (Or.inr hdash)

theorem toNat_lt_of_valid : ∀ c ∈ name, c.toNat < 128 := by
  intro c hc
  rcases chars_of_valid h c hc with hiface | hspace | rfl
  · exact toNat_lt_of_isIfaceChar hiface
  · exact toNat_lt_of_isSpace hspace
  · decide

theorem filter_isIfaceChar : name.filter isIfaceChar = bare name := by
  refine List.filter_congr fun c hc => ?_
  rcases chars_of_valid h c hc with hiface | hspace | rfl
  · have hdot : c ≠ '.' := by
      rintro rfl
      cases hiface
    simp [hiface, isSpace_of_isIfaceChar hiface, hdot]
  · have hiface : isIfaceChar c = false := by
      rw [← Bool.not_eq_true]
      intro hiface
      rw [isSpace_of_isIfaceChar hiface] at hspace
      cases hspace
    simp [hspace, hiface]
  · rfl

end Valid

theorem isIfaceChar_of_isWhitespace {c : Char} (h : isWhitespace c = true) :
    isIfaceChar c = false := by
  rw [← Bool.not_eq_true]
  intro hiface
  obtain ⟨hlow, hhigh⟩ := toNat_of_isIfaceChar hiface
  simp only [isWhitespace, Bool.or_eq_true, Bool.and_eq_true, decide_eq_true_eq, beq_iff_eq] at h
  omega

/-- No blank is kept, at the ends or inside. -/
theorem waylandSocketDir_eq (table : CharTable) {name : Text}
    (h : validateContainerName name = true) : waylandSocketDir table name = orDefault (bare name) := by
  have hascii := toNat_lt_of_valid h
  have hdropped : ∀ c ∈ name, isWhitespace c = true →
      (table.isLetterOrDigit c || c == '_' || c == '-') = false := by
    intro c hc hspace
    rw [keeps_eq table (hascii c hc), isIfaceChar_of_isWhitespace hspace]
  have hkept : name.filter (fun c => table.isLetterOrDigit c || c == '_' || c == '-') =
      name.filter isIfaceChar :=
    List.filter_congr fun c hc => keeps_eq table (hascii c hc)
  have hsub : ∀ c ∈ trim name, c ∈ name := fun c hc =>
    (List.dropWhile_suffix _).subset ((List.rdropWhile_prefix _ _).subset hc)
  unfold waylandSocketDir normalizeContainerName
  rw [filter_collapseBlanks, trim, filter_rdropWhile, filter_dropWhile hdropped, hkept,
    filter_isIfaceChar h]
  · intro c hc
    exact hdropped c ((List.dropWhile_suffix _).subset hc)
  · rw [keeps_eq table (by decide)]
    rfl
  · intro c hc hspace
    rw [keeps_eq table (hascii c (hsub c hc)), ← Bool.not_eq_true]
    intro hiface
    rw [isSpace_of_isIfaceChar hiface] at hspace
    cases hspace

theorem linkedDir_eq {name : Text} (h : validateContainerName name = true) :
    linkedDir name = orDefault ((bare name).take 127) := by
  have hkept : name.filter isKept = name.filter isIfaceChar :=
    List.filter_congr fun c _ => isKept_eq c
  have hdefault : "default".toList.take 127 = "default".toList := by decide
  unfold linkedDir dsWaylandSocketDir orDefault
  rw [hkept, filter_isIfaceChar h, hdefault]

/-! ## Two containers -/

/-- The directories are two, and each container is linked to its own. -/
structure OwnSockets (table : CharTable) (m n : Text) : Prop where
  dirs_ne : waylandSocketDir table m ≠ waylandSocketDir table n
  linked : linkedDir m = waylandSocketDir table m ∧ linkedDir n = waylandSocketDir table n

/-- The names differ in more than dots and blanks, and none that has nothing else is taken for the
one that is called like the fallback. -/
structure TellsApart (m n : Text) : Prop where
  bare_ne : bare m ≠ bare n
  not_default : bare m = [] → bare n ≠ "default".toList
  not_default' : bare n = [] → bare m ≠ "default".toList

theorem orDefault_ne_iff {m n : Text} :
    orDefault (bare m) ≠ orDefault (bare n) ↔ TellsApart m n := by
  have hdefault : "default".toList ≠ [] := by decide
  unfold orDefault
  constructor
  · intro hne
    refine ⟨fun heq => hne (by rw [heq]), fun hm hn => hne ?_, fun hn hm => hne ?_⟩
    · rw [hm, hn]
      rfl
    · rw [hm, hn]
      rfl
  · rintro ⟨hne, hm, hn⟩
    split
    · next hnil =>
      have hmnil : bare m = [] := List.isEmpty_iff.1 hnil
      split
      · next hnil' => exact absurd (hmnil.trans (List.isEmpty_iff.1 hnil').symm) hne
      · exact fun heq => hm hmnil heq.symm
    · split
      · next hnil' => exact hn (List.isEmpty_iff.1 hnil')
      · exact hne

/-- The buffer of the runtime has room for the name. -/
theorem linkedDir_eq_iff (table : CharTable) {name : Text} (h : validateContainerName name = true) :
    linkedDir name = waylandSocketDir table name ↔ (bare name).length ≤ 127 := by
  rw [linkedDir_eq h, waylandSocketDir_eq table h]
  constructor
  · intro heq
    by_contra hlong
    have hne : bare name ≠ [] := by
      intro hnil
      rw [hnil] at hlong
      exact hlong (Nat.zero_le _)
    have hlen := congrArg List.length heq
    simp [orDefault, hne] at hlen
    omega
  · intro hle
    rw [List.take_of_length_le hle]

/-- **Containers have a socket each, and are linked to it, exactly if their names differ without
dots and blanks, and are short enough.** -/
theorem ownSockets_iff (table : CharTable) {m n : Text} (hm : IsAccepted m) (hn : IsAccepted n) :
    OwnSockets table m n ↔
      TellsApart m n ∧ (bare m).length ≤ 127 ∧ (bare n).length ≤ 127 := by
  have hdirs : waylandSocketDir table m ≠ waylandSocketDir table n ↔ TellsApart m n := by
    rw [waylandSocketDir_eq table hm.valid, waylandSocketDir_eq table hn.valid, orDefault_ne_iff]
  rw [← linkedDir_eq_iff table hm.valid, ← linkedDir_eq_iff table hn.valid, ← hdirs]
  exact ⟨fun h => ⟨h.dirs_ne, h.linked⟩, fun h => ⟨h.1, h.2⟩⟩

theorem ownSockets_desktops : OwnSockets asciiTable "alpine".toList "debian 12".toList :=
  (ownSockets_iff asciiTable ⟨⟨"alpine ".toList, by decide⟩, by decide⟩
    ⟨⟨"debian  12".toList, by decide⟩, by decide⟩).2
    ⟨⟨by decide, by decide, by decide⟩, by decide, by decide⟩

/-- Two containers listen in one directory, and a third one is not linked to its own. -/
theorem not_ownSockets_versions :
    IsAccepted "alpine 3.20".toList ∧ IsAccepted "alpine 32.0".toList ∧
    IsAccepted (List.replicate 128 'a') ∧
    ¬ OwnSockets asciiTable "alpine 3.20".toList "alpine 32.0".toList ∧
    ¬ OwnSockets asciiTable "alpine 3.20".toList (List.replicate 128 'a') := by
  refine ⟨⟨⟨"alpine 3.20".toList, by decide⟩, by decide⟩,
    ⟨⟨"alpine 32.0".toList, by decide⟩, by decide⟩,
    ⟨⟨List.replicate 128 'a', by decide +kernel⟩, by decide +kernel⟩,
    fun h => h.dirs_ne (by decide), fun h => absurd h.linked.2 (by decide +kernel)⟩

end Droidspaces.WaylandSocket
