import Droidspaces.Config.RoundTrip
import Droidspaces.Sequential.Attempt
import Droidspaces.Status.Scanf
import Mathlib.Algebra.Order.Round
import Mathlib.Data.Nat.Log
import Mathlib.Data.Rat.Floor
import Mathlib.Tactic.Linarith

/-!
# Resizing an image

`cmd_resize` of `sparsemgr.sh` unmounts the image, reads what `du -h` and `ls -lh` print, refuses a
size that is too small for the content, and runs `e2fsck`, `resize2fs` and, where the image gets
smaller, `truncate`.

The image is looked for in `/proc/mounts` by its path, where a loop mount has the name of its
device; only one mount is taken down, perhaps only from sight.  The least size is rounded to the
nearest gigabyte, and a size in terabytes is taken for one in megabytes.  What is cut off, on the
other hand, is never more than it should be.  `neverCuts_iff` says when the script keeps its word.

`awk` computes in floating point and is a parameter here.
-/

namespace Droidspaces.SparseManager

open Config Scanf Sequential
open Sequential.Attempt (failIf)

/-! ## Printed sizes -/

/-- What `du -h` and `ls -lh` print: a number, perhaps its tenth, and a power of 1024. -/
structure Human where
  amount : ℕ
  tenth : Option ℕ
  exponent : ℕ

def Human.suffix (h : Human) : Text :=
  match h.exponent with
  | 0 => []
  | 1 => ['K']
  | 2 => ['M']
  | 3 => ['G']
  | 4 => ['T']
  | 5 => ['P']
  | 6 => ['E']
  | 7 => ['Z']
  | _ => ['Y']

def Human.number (h : Human) : Text :=
  match h.tenth with
  | none => decimal h.amount
  | some d => decimal h.amount ++ '.' :: decimal d

def Human.text (h : Human) : Text := h.number ++ h.suffix

/-- The size in the largest unit that it reaches, rounded up: below 10 to a tenth, from there on to
a whole number. -/
def human (n : ℕ) : Human :=
  let e := min (Nat.log 1024 n) 8
  let unit := 1024 ^ e
  let tenths := (10 * n + unit - 1) / unit
  let whole := (n + unit - 1) / unit
  if e = 0 then ⟨n, none, 0⟩
  else if tenths < 100 then ⟨tenths / 10, some (tenths % 10), e⟩
  else if whole = 1024 ∧ e < 8 then ⟨1, some 0, e + 1⟩
  else ⟨whole, none, e⟩

/-! ## What the script meets -/

/-- `_awk_calc`, of what its argument is worth. -/
structure Awk where
  awkCalc : ℚ → ℤ
  /-- `%.0f` gives a nearest integer, where the precision of a `double` is enough to tell. -/
  nearest : ∀ q : ℚ, 0 ≤ q → q ≤ 2 ^ 21 → (∃ k : ℕ, 20 * 2 ^ 20 * q = k) →
    |(awkCalc q : ℚ) - q| ≤ 1 / 2

/-- A line of `/proc/mounts`, and whether the image is behind it. -/
structure Mount where
  line : Text
  ofImage : Bool
  deriving DecidableEq

/-- `awk '{print $2}'` -/
def Mount.point (m : Mount) : Text :=
  ((m.line.splitOnP fun c => c == ' ' || c == '\t').filter (!·.isEmpty)).getD 1 []

structure Image where
  /-- What the content takes up. -/
  content : ℕ
  file : ℕ
  filesystem : ℕ
  mounts : List Mount
  /-- A mount of the image that was detached is still in use. -/
  lingering : Bool

/-- How `resize2fs` goes; where it fails, it has printed an error and left the file system in some
size. -/
inductive Resize2fs where
  | done
  | fails (stderr : Text) (filesystem : ℕ)

structure ResizeAnswers where
  /-- `grep "$RESIZE_IMG"`, on a line of `/proc/mounts` -/
  grep : Text → Bool
  /-- `_umount -f` -/
  forced : Bool
  /-- `_umount -l` -/
  detached : Bool
  /-- What is detached only is still in use. -/
  busy : Bool
  /-- `-y`, or `YES` -/
  confirmed : Bool
  fsckExit : ℕ
  resize2fs : Resize2fs
  truncate : Bool
  /-- `_mount` at the end. -/
  verified : Bool

inductive ResizeStep where
  | unmount
  | belowMinimum
  | cancelled
  | fsck
  | resize2fs
  | truncate
  | verify

inductive ImageCommand where
  | e2fsck
  | resize2fs
  | truncate
  deriving DecidableEq

/-- The image, and what it was when a command was started on it, the last of them first. -/
structure ResizeState where
  image : Image
  history : List (ImageCommand × Image)

/-! ## The script -/

abbrev ResizeM := Attempt ResizeStep ResizeState

/-- `val`, as a number of `awk` -/
def awkNumber (val : Text) : ℚ :=
  let fraction := (val.dropWhile (· != '.')).drop 1
  leadingDigits val + leadingDigits fraction / 10 ^ fraction.length

/-- `${val%.*}` -/
def stripFraction (val : Text) : Text :=
  if '.' ∈ val then (val.rdropWhile (· != '.')).dropLast else val

/-- `_to_mb` -/
def toMb (awk : Awk) (str : Text) : ℤ :=
  let val := str.filter fun c => c.isDigit || c == '.'
  let unit := (str.filter fun c => !(c.isDigit || c == '.')).map Char.toUpper
  if unit.head? = some 'G' ∨ unit = "TICKS".toList then awk.awkCalc (awkNumber val * 1024)
  else if unit.head? = some 'M' then leadingDigits (stripFraction val)
  else if unit.head? = some 'K' then awk.awkCalc (awkNumber val / 1024)
  else if unit.head? = some 'B' then awk.awkCalc (awkNumber val / 1048576)
  else leadingDigits (stripFraction val)

/-- `min_safe_gb` -/
def minSafeGb (awk : Awk) (content : ℕ) : ℤ :=
  let actualMb := toMb awk (human content).text
  let minSafeMb := awk.awkCalc (actualMb * (115 / 100) + 512)
  let minSafeGb := awk.awkCalc (minSafeMb / 1024)
  if minSafeGb < 4 then 4 else minSafeGb

/-- `operation` is `SHRINKING`. -/
def shrinks (awk : Awk) (g file : ℕ) : Prop := ((g * 1024 : ℕ) : ℤ) < toMb awk (human file).text

instance (awk : Awk) (g file : ℕ) : Decidable (shrinks awk g file) :=
  inferInstanceAs (Decidable (_ < _))

/-- `mount_point` -/
def mountPoint (t : ResizeAnswers) (mounts : List Mount) : Text :=
  match mounts.find? fun m => t.grep m.line with
  | none => []
  | some m => m.point

/-- The mount that an unmount at `point` takes down. -/
def uppermost (point : Text) (mounts : List Mount) : Option Mount :=
  mounts.reverse.find? fun m => m.point == point

/-- An unmount at `point`; `busy` tells that the mount is still in use. -/
def Image.detach (point : Text) (busy : Bool) (image : Image) : Image :=
  { image with
    mounts := (image.mounts.reverse.eraseP fun m => m.point == point).reverse
    lingering := image.lingering || busy && (uppermost point image.mounts).any Mount.ofImage }

def onImage (f : Image → Image) (s : ResizeState) : ResizeState := { s with image := f s.image }

def unmountImage (t : ResizeAnswers) : ResizeM Unit := do
  let point := mountPoint t (← get).image.mounts
  if point ≠ [] then
    if t.forced then modify (onImage (Image.detach point false))
    else if t.detached then modify (onImage (Image.detach point t.busy))
    else throw .unmount

/-- A command is started on the image. -/
def start (c : ImageCommand) : ResizeM Unit :=
  modify fun s => { s with history := (c, s.image) :: s.history }

/-- `${new_size_gb}G` -/
def gigabytes (g : ℕ) : ℕ := g * 2 ^ 30

/-- What `resize2fs` makes of the file system. -/
def Resize2fs.filesystem (r : Resize2fs) (g : ℕ) : ℕ :=
  match r with
  | .done => gigabytes g
  | .fails _ filesystem => filesystem

def isNow : Text := "is now".toList

def blocksLong : Text := "blocks long".toList

/-- `grep -q "is now.*blocks long"` -/
def reportsSize (out : Text) : Bool :=
  (out.splitOn '\n').any fun line => line.tails.any fun t =>
    isNow.isPrefixOf t && (t.drop 6).tails.any blocksLong.isPrefixOf

/-- It exits with 0, or it has printed what is taken for a success. -/
def Resize2fs.passes : Resize2fs → Bool
  | .done => true
  | .fails stderr _ => reportsSize stderr

/-- `cmd_resize`, from where the arguments and the tools are checked. -/
def cmdResize (awk : Awk) (t : ResizeAnswers) (g : ℕ) : ResizeM Unit := do
  unmountImage t
  let image := (← get).image
  failIf ((g : ℤ) < minSafeGb awk image.content) .belowMinimum
  failIf (!t.confirmed) .cancelled
  start .e2fsck
  failIf (4 ≤ t.fsckExit) .fsck
  start .resize2fs
  modify (onImage fun i => { i with filesystem := t.resize2fs.filesystem g })
  failIf (!t.resize2fs.passes) .resize2fs
  if shrinks awk g image.file then
    start .truncate
    failIf (!t.truncate) .truncate
    modify (onImage fun i => { i with file := gigabytes g })
  failIf (!t.verified) .verify

/-! ## What the script promises -/

def Image.InUse (image : Image) : Prop :=
  image.lingering = true ∨ ∃ m ∈ image.mounts, m.ofImage = true

/-- The content, 15% more and 512 MiB fit in. -/
def HasRoom (g content : ℕ) : Prop := 115 * content + 100 * (512 * 2 ^ 20) ≤ 100 * gigabytes g

instance (g content : ℕ) : Decidable (HasRoom g content) :=
  inferInstanceAs (Decidable (_ ≤ _))

/-- `before` is the image as the script finds it. -/
structure NeverCuts (g : ℕ) (before : Image) (s : ResizeState) : Prop where
  room : s.history ≠ [] → HasRoom g before.content
  unmounted : ∀ c image, (c, image) ∈ s.history → ¬image.InUse
  /-- What is cut off is behind a file system that was just made smaller. -/
  truncates : ∀ image rest, s.history = (.truncate, image) :: rest →
    gigabytes g < before.file ∧ image.filesystem = gigabytes g ∧
      ∃ larger older, rest = (.resize2fs, larger) :: older ∧ gigabytes g < larger.filesystem
  keeps : ∀ image, (.truncate, image) ∈ s.history → image.filesystem ≤ gigabytes g

/-- The mount that the script takes down. -/
def target (t : ResizeAnswers) (mounts : List Mount) : Option Mount :=
  if mountPoint t mounts = [] then none else uppermost (mountPoint t mounts) mounts

/-- The image has no mount, or no other than the one that is taken down, and from this nothing is
left in use. -/
structure IsFreed (t : ResizeAnswers) (image : Image) : Prop where
  lingering : image.lingering = false
  mounts : image.mounts.filter Mount.ofImage = [] ∨ ∃ m,
    image.mounts.filter Mount.ofImage = [m] ∧ target t image.mounts = some m ∧
      (t.forced = true ∨ t.busy = false)

/-- The script gets as far as `e2fsck`. -/
structure GoesOn (awk : Awk) (t : ResizeAnswers) (g : ℕ) (image : Image) : Prop where
  unmount : mountPoint t image.mounts = [] ∨ t.forced = true ∨ t.detached = true
  minimum : minSafeGb awk image.content ≤ g
  confirmed : t.confirmed = true

/-- It gets as far as `truncate`. -/
structure CutsOff (awk : Awk) (t : ResizeAnswers) (g : ℕ) (image : Image) : Prop where
  fsck : t.fsckExit < 4
  resize2fs : t.resize2fs.passes = true
  shrinks : shrinks awk g image.file

/-- What a run that goes on needs. -/
structure IsCareful (awk : Awk) (t : ResizeAnswers) (g : ℕ) (image : Image) : Prop where
  room : HasRoom g image.content
  freed : IsFreed t image
  /-- The file system was larger, and what is taken for a success is one. -/
  resized : CutsOff awk t g image → gigabytes g < image.filesystem ∧
    (t.resize2fs = .done ∨ t.resize2fs.filesystem g = gigabytes g)

/-! ## Numbers read back -/

section Printed

variable (awk : Awk) (h : Human)

/-- The tenth is a digit. -/
def Human.IsPrinted (h : Human) : Prop := ∀ d ∈ h.tenth, d < 10

/-- What the number is worth, in its unit. -/
def Human.value (h : Human) : ℚ := h.amount + (h.tenth.getD 0 : ℕ) / 10

theorem leadingDigits_decimal_self (n : ℕ) : leadingDigits (decimal n) = n :=
  leadingDigits_toDigits n

theorem Human.awkNumber_number (hp : h.IsPrinted) : awkNumber h.number = h.value := by
  have hdigits (n : ℕ) : ∀ c ∈ decimal n, (c != '.') = true := fun c hc =>
    bne_iff_ne.2 (ne_of_isDigit (isDigit_of_mem_decimal hc) rfl)
  unfold awkNumber number value
  cases htenth : h.tenth with
  | none =>
    have hdrop : (decimal h.amount).dropWhile (· != '.') = [] := by
      simpa using hdigits h.amount
    have hnone : leadingDigits [] = 0 := rfl
    dsimp only
    rw [hdrop, List.drop_nil, leadingDigits_decimal_self, hnone]
    simp
  | some d =>
    have hlen : (decimal d).length = 1 :=
      (by decide +kernel : ∀ d < 10, (decimal d).length = 1) d (hp d htenth)
    have hwhole : leadingDigits (decimal h.amount ++ '.' :: decimal d) = h.amount :=
      leadingDigits_decimal _ (noDigitHead_cons (by decide) _)
    have hdrop : (decimal h.amount ++ '.' :: decimal d).dropWhile (· != '.') =
        '.' :: decimal d := by
      rw [List.dropWhile_append_of_pos (hdigits h.amount)]
      rfl
    dsimp only
    rw [hdrop, hwhole, List.drop_one, List.tail_cons, leadingDigits_decimal_self, hlen]
    simp

theorem Human.stripFraction_number : leadingDigits (stripFraction h.number) = h.amount := by
  have hdot (n : ℕ) : '.' ∉ decimal n := not_mem_decimal n rfl
  unfold stripFraction number
  cases h.tenth with
  | none => rw [if_neg (hdot _), leadingDigits_decimal_self]
  | some d =>
    have hdrop : (decimal h.amount ++ '.' :: decimal d).rdropWhile (· != '.') =
        decimal h.amount ++ ['.'] := by
      have hdigits : ∀ c ∈ decimal d, (c != '.') = true := fun c hc =>
        bne_iff_ne.2 fun heq => hdot d (heq ▸ hc)
      rw [← List.singleton_append, ← List.append_assoc, List.rdropWhile, List.reverse_append,
        List.dropWhile_append_of_pos fun c hc => hdigits c (List.mem_reverse.1 hc)]
      simp
    dsimp only
    rw [if_pos (by simp), hdrop, List.dropLast_concat, leadingDigits_decimal_self]

theorem Human.mem_number {c : Char} (hc : c ∈ h.number) : (c.isDigit || c == '.') = true := by
  unfold number at hc
  split at hc
  · simp [isDigit_of_mem_decimal hc]
  · rcases List.mem_append.1 hc with hc | hc
    · simp [isDigit_of_mem_decimal hc]
    · rcases List.mem_cons.1 hc with rfl | hc
      · decide
      · simp [isDigit_of_mem_decimal hc]

theorem Human.mem_suffix {c : Char} (hc : c ∈ h.suffix) : (c.isDigit || c == '.') = false := by
  unfold suffix at hc
  split at hc
  · cases hc
  all_goals
    obtain rfl := List.mem_singleton.1 hc
    decide

/-- The two `sed` take the text apart again. -/
theorem Human.filter_text : (h.text.filter fun c => c.isDigit || c == '.') = h.number ∧
    (h.text.filter fun c => !(c.isDigit || c == '.')) = h.suffix := by
  rw [text, List.filter_append, List.filter_append]
  constructor
  · rw [List.filter_eq_self.2 fun c hc => h.mem_number hc,
      List.filter_eq_nil_iff.2 fun c hc => by simp [h.mem_suffix hc], List.append_nil]
  · rw [List.filter_eq_nil_iff.2 fun c hc => by simp [h.mem_number hc],
      List.filter_eq_self.2 fun c hc => by simp [h.mem_suffix hc], List.nil_append]

/-- A size in kilobytes or gigabytes is converted, others are taken for megabytes. -/
theorem Human.toMb_text (hp : h.IsPrinted) : toMb awk h.text =
    match h.exponent with
    | 1 => awk.awkCalc (h.value / 1024)
    | 3 => awk.awkCalc (h.value * 1024)
    | _ => h.amount := by
  unfold toMb
  dsimp only
  rw [h.filter_text.1, h.filter_text.2, h.stripFraction_number, h.awkNumber_number hp, suffix]
  rcases h with ⟨amount, tenth, exponent⟩
  dsimp only
  split <;> simp_all

end Printed

/-! ## Only more is cut off than there is room for -/

section Cut

variable {awk : Awk} {g n : ℕ}

theorem ceil_le {a b unit : ℕ} (hunit : 0 < unit) (h : a ≤ b * unit) :
    (a + unit - 1) / unit ≤ b := by
  rw [← Nat.lt_succ_iff, Nat.div_lt_iff_lt_mul hunit, Nat.succ_mul]
  omega

theorem Awk.awkCalc_le {q : ℚ} {b : ℕ} (hpos : 0 ≤ q) (hq : q ≤ b) (hb : b ≤ 2 ^ 21)
    (hgrid : ∃ k : ℕ, 20 * 2 ^ 20 * q = k) : awk.awkCalc q ≤ b := by
  have hb' : (b : ℚ) ≤ 2 ^ 21 := by exact_mod_cast hb
  have hnear := (abs_le.1 (awk.nearest q hpos (hq.trans hb') hgrid)).2
  have hlt : (awk.awkCalc q : ℚ) < b + 1 := by linarith
  have hlt' : awk.awkCalc q < (b : ℤ) + 1 := by exact_mod_cast hlt
  omega

theorem Human.value_nonneg (h : Human) : 0 ≤ h.value := by
  unfold value
  positivity

theorem Human.value_grid (h : Human) (m : ℕ) :
    ((10 * h.amount + h.tenth.getD 0) * m : ℕ) = 10 * h.value * m := by
  unfold value
  push_cast
  ring

/-- What the script makes of a printed size that is no more than a number of gigabytes. -/
theorem Human.toMb_text_le {h : Human} (hp : h.IsPrinted) (hg : 1 ≤ g ∧ g ≤ 512)
    (hkilo : h.exponent = 1 → h.value ≤ 1024) (hgiga : h.exponent = 3 → h.value ≤ g)
    (hother : h.exponent ≠ 1 → h.exponent ≠ 3 → h.amount ≤ g * 1024) :
    toMb awk h.text ≤ (g * 1024 : ℕ) := by
  have hpos := h.value_nonneg
  rw [h.toMb_text awk hp]
  split
  · next hexp =>
    have hle : awk.awkCalc (h.value / 1024) ≤ ((1 : ℕ) : ℤ) := by
      refine awk.awkCalc_le (by positivity) ?_ (by norm_num)
        ⟨(10 * h.amount + h.tenth.getD 0) * (2 * 2 ^ 10), ?_⟩
      · have := hkilo hexp
        rw [Nat.cast_one, div_le_one (by norm_num)]
        exact this
      · rw [h.value_grid]
        push_cast
        ring
    omega
  · next hexp =>
    refine awk.awkCalc_le (by positivity) ?_ (by omega)
      ⟨(10 * h.amount + h.tenth.getD 0) * (2 * 2 ^ 30), ?_⟩
    · have := hgiga hexp
      push_cast
      linarith
    · rw [h.value_grid]
      push_cast
      ring
  · next hone hthree => exact_mod_cast hother hone hthree

theorem isPrinted_human (n : ℕ) : (human n).IsPrinted := by
  intro d hd
  unfold human at hd
  dsimp only at hd
  split at hd
  · cases hd
  · split at hd
    · obtain rfl := Option.some.inj hd
      omega
    · split at hd
      · obtain rfl := Option.some.inj hd
        decide
      · cases hd

/-- The four ways to print a size below a terabyte. -/
theorem human_cases {e : ℕ} (he : Nat.log 1024 n = e) (hlt : e < 4) :
    (e = 0 ∧ human n = ⟨n, none, 0⟩) ∨
      (e ≠ 0 ∧ ∃ tenths, tenths < 100 ∧ tenths = (10 * n + 1024 ^ e - 1) / 1024 ^ e ∧
        human n = ⟨tenths / 10, some (tenths % 10), e⟩) ∨
      (e ≠ 0 ∧ human n = ⟨1, some 0, e + 1⟩) ∨
      (e ≠ 0 ∧ human n = ⟨(n + 1024 ^ e - 1) / 1024 ^ e, none, e⟩) := by
  unfold human
  rw [he, Nat.min_eq_left (by omega)]
  dsimp only
  by_cases hzero : e = 0
  · exact Or.inl ⟨hzero, if_pos hzero⟩
  · refine Or.inr ?_
    rw [if_neg hzero]
    split
    · next htenths => exact Or.inl ⟨hzero, _, htenths, rfl, rfl⟩
    · split
      · exact Or.inr (Or.inl ⟨hzero, rfl⟩)
      · exact Or.inr (Or.inr ⟨hzero, rfl⟩)

theorem Human.value_tenths (t e : ℕ) : (⟨t / 10, some (t % 10), e⟩ : Human).value = t / 10 := by
  have hsplit : (t : ℚ) = 10 * (t / 10 : ℕ) + (t % 10 : ℕ) := by
    exact_mod_cast (Nat.div_add_mod t 10).symm
  simp only [value, Option.getD_some]
  linarith

theorem toMb_human_le (hg : 4 ≤ g ∧ g ≤ 512) (hn : n ≤ gigabytes g) :
    toMb awk (human n).text ≤ (g * 1024 : ℕ) := by
  have hlt : n < 1024 ^ (Nat.log 1024 n + 1) := Nat.lt_pow_succ_log_self (by norm_num) n
  have hlog : Nat.log 1024 n < 4 := by
    by_contra hge
    have hpow := Nat.pow_le_of_le_log (by rintro rfl; simp at hge) (not_lt.1 hge)
    rw [gigabytes] at hn
    omega
  obtain ⟨e, he⟩ : ∃ e, Nat.log 1024 n = e := ⟨_, rfl⟩
  rw [he] at hlt hlog
  have hunit : 0 < 1024 ^ e := Nat.pow_pos (by norm_num)
  rw [Nat.pow_succ'] at hlt
  have hgiga : e = 3 → n ≤ g * 1024 ^ e := by
    rintro rfl
    exact hn
  rcases human_cases he hlog with ⟨rfl, hn'⟩ | ⟨hne, t, ht, ht', hn'⟩ | ⟨hne, hn'⟩ | ⟨hne, hn'⟩
  all_goals refine Human.toMb_text_le (isPrinted_human n) (by omega) ?_ ?_ ?_ <;> rw [hn']
  · exact fun hone => absurd hone Nat.zero_ne_one
  · exact fun hthree => absurd hthree (Nat.succ_ne_zero 2).symm
  · intro _ _
    dsimp only
    omega
  · intro _
    have hle : (t : ℚ) ≤ 100 := by exact_mod_cast ht.le
    rw [Human.value_tenths]
    linarith
  · intro hthree
    have hceil : t ≤ 10 * g := ht' ▸ ceil_le hunit (by have := hgiga hthree; nlinarith)
    have hle : (t : ℚ) ≤ 10 * g := by exact_mod_cast hceil
    rw [Human.value_tenths]
    linarith
  · intro _ _
    dsimp only
    omega
  · intro hone
    dsimp only at hone
    omega
  · intro _
    have hle : (1 : ℚ) ≤ g := by exact_mod_cast (show 1 ≤ g by omega)
    simpa [Human.value] using hle
  · intro _ _
    dsimp only
    omega
  · intro _
    have hle : (((n + 1024 ^ e - 1) / 1024 ^ e : ℕ) : ℚ) ≤ 1024 := by
      exact_mod_cast ceil_le hunit hlt.le
    simpa [Human.value] using hle
  · intro hthree
    have hle : (((n + 1024 ^ e - 1) / 1024 ^ e : ℕ) : ℚ) ≤ g := by
      exact_mod_cast ceil_le hunit (hgiga hthree)
    simpa [Human.value] using hle
  · intro _ _
    have hle := ceil_le hunit hlt.le
    dsimp only
    omega

/-- **What the script cuts off is behind the new size.** -/
theorem lt_of_shrinks (hg : 4 ≤ g ∧ g ≤ 512) (h : shrinks awk g n) : gigabytes g < n := by
  by_contra hle
  exact absurd h (not_lt.2 (toMb_human_le hg (not_lt.1 hle)))

end Cut

/-! ## The mounts -/

section Mounts

variable {t : ResizeAnswers} {image : Image}

theorem not_inUse_iff : ¬image.InUse ↔
    image.lingering = false ∧ image.mounts.filter Mount.ofImage = [] := by
  rw [Image.InUse, not_or, Bool.not_eq_true, List.filter_eq_nil_iff, not_exists]
  simp only [not_and]

/-- What is left of the mounts after the uppermost at a point is taken down. -/
theorem not_inUse_detach_iff {point : Text} {busy : Bool} {m : Mount}
    (hm : uppermost point image.mounts = some m) : ¬(image.detach point busy).InUse ↔
      image.lingering = false ∧ (image.mounts.filter Mount.ofImage = [] ∨
        image.mounts.filter Mount.ofImage = [m] ∧ busy = false) := by
  obtain ⟨hpoint, above, below, hsplit, habove⟩ := List.find?_eq_some_iff_append.1 hm
  have hmounts : image.mounts = below.reverse ++ m :: above.reverse := by
    rw [← List.reverse_reverse image.mounts, hsplit]
    simp
  have herase : (image.mounts.reverse.eraseP fun m => m.point == point).reverse =
      below.reverse ++ above.reverse := by
    have hfirst : (m :: below).eraseP (fun m => m.point == point) = below :=
      List.eraseP_cons_of_pos hpoint
    rw [hsplit, List.eraseP_append_right _ fun a ha => by simpa using habove a ha, hfirst,
      List.reverse_append]
  rw [not_inUse_iff, Image.detach]
  dsimp only
  rw [herase, hm, hmounts, Option.any_some, List.filter_append, List.filter_append,
    List.filter_cons]
  cases hof : m.ofImage with
  | true =>
    rw [if_pos rfl, Bool.and_true, Bool.or_eq_false_iff, List.append_eq_nil_iff,
      List.append_eq_singleton_iff, List.append_eq_nil_iff]
    simp only [List.cons_ne_nil, List.cons.injEq, true_and, and_false, false_or, or_false]
    tauto
  | false =>
    rw [if_neg Bool.false_ne_true, Bool.and_false, Bool.or_false]
    refine and_congr_right fun _ => (or_iff_left ?_).symm
    rintro ⟨hone, -⟩
    have hmem : m ∈ [m] := List.mem_singleton_self m
    rw [← hone, List.mem_append] at hmem
    rcases hmem with hmem | hmem
    · rw [(List.mem_filter.1 hmem).2] at hof
      cases hof
    · rw [(List.mem_filter.1 hmem).2] at hof
      cases hof

theorem exists_uppermost (h : mountPoint t image.mounts ≠ []) :
    ∃ m, uppermost (mountPoint t image.mounts) image.mounts = some m := by
  unfold mountPoint at h ⊢
  split
  · next hnone =>
    rw [hnone] at h
    exact absurd rfl h
  · next m hm =>
    rw [← Option.isSome_iff_exists, uppermost, List.find?_isSome]
    exact ⟨m, List.mem_reverse.2 (List.mem_of_find?_eq_some hm), beq_self_eq_true _⟩

/-- Whether the image is free is settled before anything is done to it. -/
theorem isFreed_iff_of_nil (h : mountPoint t image.mounts = []) :
    ¬image.InUse ↔ IsFreed t image := by
  rw [not_inUse_iff]
  have hnone : target t image.mounts = none := if_pos h
  constructor
  · exact fun hfree => ⟨hfree.1, Or.inl hfree.2⟩
  · intro hfreed
    refine ⟨hfreed.lingering, hfreed.mounts.resolve_right ?_⟩
    rintro ⟨m, -, hm, -⟩
    rw [hnone] at hm
    cases hm

theorem isFreed_iff_of_ne (h : mountPoint t image.mounts ≠ []) :
    ¬(image.detach (mountPoint t image.mounts) (!t.forced && t.busy)).InUse ↔
      IsFreed t image := by
  obtain ⟨m, hm⟩ := exists_uppermost h
  have htarget : target t image.mounts = some m := (if_neg h).trans hm
  rw [not_inUse_detach_iff hm]
  constructor
  · rintro ⟨hlingering, hmounts⟩
    refine ⟨hlingering, hmounts.imp_right fun hone => ⟨m, hone.1, htarget, ?_⟩⟩
    exact (Bool.and_eq_false_iff.1 hone.2).imp_left fun hforced => by simpa using hforced
  · intro hfreed
    refine ⟨hfreed.lingering, hfreed.mounts.imp_right ?_⟩
    rintro ⟨m', hone, hm', hgone⟩
    obtain rfl := Option.some.inj (htarget.symm.trans hm')
    exact ⟨hone, Bool.and_eq_false_iff.2 (hgone.imp_left fun hforced => by simp [hforced])⟩

end Mounts

/-! ## Runs -/

section Run

variable {awk : Awk} {t : ResizeAnswers} {g : ℕ} {before : Image} {s : ResizeState}

theorem neverCuts_nil (h : s.history = []) : NeverCuts g before s where
  room hne := absurd h hne
  unmounted c image hmem := by
    rw [h] at hmem
    cases hmem
  truncates image rest heq := by
    rw [h] at heq
    cases heq
  keeps image hmem := by
    rw [h] at hmem
    cases hmem

/-- As long as nothing is cut off. -/
theorem neverCuts_iff_of_not_truncate {c : ImageCommand} {image : Image}
    {rest : List (ImageCommand × Image)} (h : s.history = (c, image) :: rest)
    (hrest : ∀ x ∈ s.history, x.1 ≠ .truncate ∧ x.2 = image) :
    NeverCuts g before s ↔ HasRoom g before.content ∧ ¬image.InUse := by
  have hmem : (c, image) ∈ s.history := h ▸ List.mem_cons_self
  constructor
  · exact fun hs => ⟨hs.room (List.ne_nil_of_mem hmem), hs.unmounted c image hmem⟩
  · rintro ⟨hroom, hfree⟩
    refine ⟨fun _ => hroom, fun c' image' hmem' => ?_, fun image' rest' heq => ?_,
      fun image' hmem' => absurd rfl (hrest _ hmem').1⟩
    · obtain rfl : image' = image := (hrest _ hmem').2
      exact hfree
    · have hmem' : (ImageCommand.truncate, image') ∈ s.history := heq ▸ List.mem_cons_self
      exact absurd rfl (hrest _ hmem').1

theorem neverCuts_iff_of_truncate {image cut : Image}
    (h : s.history = [(.truncate, cut), (.resize2fs, image), (.e2fsck, image)])
    (huse : cut.InUse ↔ image.InUse) : NeverCuts g before s ↔
      HasRoom g before.content ∧ ¬image.InUse ∧ gigabytes g < before.file ∧
        cut.filesystem = gigabytes g ∧ gigabytes g < image.filesystem := by
  constructor
  · intro hs
    obtain ⟨hfile, hcut, larger, older, hrest, hlarger⟩ := hs.truncates cut _ h
    obtain ⟨hfirst, -⟩ := List.cons.inj hrest
    obtain rfl : image = larger := (Prod.mk.inj hfirst).2
    exact ⟨hs.room (by simp [h]), hs.unmounted .resize2fs image (by simp [h]), hfile, hcut, hlarger⟩
  · rintro ⟨hroom, hfree, hfile, hcut, hlarger⟩
    refine ⟨fun _ => hroom, fun c image' hmem => ?_, fun image' rest heq => ?_,
      fun image' hmem => ?_⟩
    · rw [h] at hmem
      simp only [List.mem_cons, Prod.mk.injEq, List.not_mem_nil, or_false] at hmem
      rcases hmem with ⟨-, rfl⟩ | ⟨-, rfl⟩ | ⟨-, rfl⟩
      · exact fun hin => hfree (huse.1 hin)
      · exact hfree
      · exact hfree
    · obtain ⟨hfirst, rfl⟩ := List.cons.inj (heq.symm.trans h)
      obtain rfl := (Prod.mk.inj hfirst).2
      exact ⟨hfile, hcut, image, _, rfl, hlarger⟩
    · rw [h] at hmem
      simp only [List.mem_cons, Prod.mk.injEq, List.not_mem_nil, or_false, reduceCtorEq, false_and,
        true_and, or_false] at hmem
      rw [hmem, hcut]

/-- The image that the unmount leaves. -/
theorem wp_unmountImage {Q : Unit → ResizeState → Prop} {E : ResizeStep → ResizeState → Prop}
    (hQ : ∀ image, (¬image.InUse ↔ IsFreed t before) → image.content = before.content →
      image.file = before.file → image.filesystem = before.filesystem →
      (mountPoint t before.mounts = [] ∨ t.forced = true ∨ t.detached = true) → Q () ⟨image, []⟩)
    (hE : ¬(mountPoint t before.mounts = [] ∨ t.forced = true ∨ t.detached = true) →
      E .unmount ⟨before, []⟩) : (unmountImage t).wp Q E ⟨before, []⟩ := by
  unfold unmountImage
  simp only [Attempt.wp_bind, Attempt.wp_get]
  refine Attempt.wp_ite (fun hne => ?_) fun hnil => ?_
  · have hfreed := isFreed_iff_of_ne hne
    refine Attempt.wp_ite (fun hforced => ?_) fun hforced => Attempt.wp_ite (fun hdetached => ?_)
      fun hdetached => ?_
    · rw [hforced, Bool.not_true, Bool.false_and] at hfreed
      exact hQ _ hfreed rfl rfl rfl (Or.inr (Or.inl hforced))
    · rw [Bool.not_eq_true] at hforced
      rw [hforced, Bool.not_false, Bool.true_and] at hfreed
      exact hQ _ hfreed rfl rfl rfl (Or.inr (Or.inr hdetached))
    · exact hE (not_or.2 ⟨hne, not_or.2 ⟨hforced, hdetached⟩⟩)
  · rw [not_not] at hnil
    exact hQ _ (isFreed_iff_of_nil hnil) rfl rfl rfl (Or.inl hnil)

/-- **The script never cuts into the data exactly under this condition.** -/
theorem neverCuts_iff (hg : 4 ≤ g ∧ g ≤ 512) :
    NeverCuts g before (cmdResize awk t g ⟨before, []⟩).2 ↔
      (GoesOn awk t g before → IsCareful awk t g before) := by
  have hrun : (cmdResize awk t g).wp
      (fun _ s => NeverCuts g before s ↔ (GoesOn awk t g before → IsCareful awk t g before))
      (fun _ s => NeverCuts g before s ↔ (GoesOn awk t g before → IsCareful awk t g before))
      ⟨before, []⟩ := by
    unfold cmdResize start
    simp only [Attempt.wp_bind]
    refine wp_unmountImage (fun image huse hcontent hfile hfilesystem hunmount => ?_)
      fun hfails => ?_
    · simp only [Attempt.wp_get, Attempt.wp_modify]
      refine Attempt.wp_failIf (fun hminimum => ?_) fun hminimum => ?_
      · refine iff_of_true (neverCuts_nil rfl) fun hgoes => absurd hgoes.minimum ?_
        rwa [← hcontent, not_le]
      refine Attempt.wp_failIf (fun hconfirmed => ?_) fun hconfirmed => ?_
      · refine iff_of_true (neverCuts_nil rfl) fun hgoes => ?_
        rw [hgoes.confirmed] at hconfirmed
        cases hconfirmed
      have hgoes : GoesOn awk t g before :=
        ⟨hunmount, by rwa [← hcontent, ← not_lt], by simpa using hconfirmed⟩
      -- nothing is cut off where the script stops before
      have hplain (hcuts : ¬CutsOff awk t g before) :
          HasRoom g before.content ∧ ¬image.InUse ↔
            (GoesOn awk t g before → IsCareful awk t g before) := by
        rw [huse]
        exact ⟨fun h _ => ⟨h.1, h.2, fun hcut => absurd hcut hcuts⟩,
          fun h => ⟨(h hgoes).room, (h hgoes).freed⟩⟩
      refine Attempt.wp_failIf (fun hfsck => ?_) fun hfsck => ?_
      · rw [neverCuts_iff_of_not_truncate rfl (by simp)]
        exact hplain fun hcut => absurd hcut.fsck (not_lt.2 hfsck)
      refine Attempt.wp_failIf (fun hpasses => ?_) fun hpasses => ?_
      · rw [neverCuts_iff_of_not_truncate rfl (by simp [onImage])]
        refine hplain fun hcut => ?_
        rw [hcut.resize2fs] at hpasses
        cases hpasses
      refine Attempt.wp_ite (fun hshrinks => ?_) fun hshrinks => ?_
      · have hcuts : CutsOff awk t g before :=
          ⟨not_le.1 hfsck, by simpa using hpasses, by rwa [← hfile]⟩
        have hpassed : t.resize2fs = .done ∨ t.resize2fs.filesystem g = gigabytes g ↔
            t.resize2fs.filesystem g = gigabytes g :=
          or_iff_right_of_imp fun hdone => by rw [hdone]; rfl
        have hcut (s : ResizeState) (hs : s.history =
            [(.truncate, { image with filesystem := t.resize2fs.filesystem g }),
              (.resize2fs, image), (.e2fsck, image)]) :
            NeverCuts g before s ↔ (GoesOn awk t g before → IsCareful awk t g before) := by
          rw [neverCuts_iff_of_truncate hs Iff.rfl, huse, hfilesystem]
          constructor
          · rintro ⟨hroom, hfreed, -, hcut, hlarger⟩ -
            exact ⟨hroom, hfreed, fun _ => ⟨hlarger, hpassed.2 hcut⟩⟩
          · intro h
            obtain ⟨hlarger, hdone⟩ := (h hgoes).resized hcuts
            exact ⟨(h hgoes).room, (h hgoes).freed, lt_of_shrinks hg hcuts.shrinks, hpassed.1 hdone,
              hlarger⟩
        simp only [Attempt.wp_bind, Attempt.wp_modify]
        refine Attempt.wp_failIf (fun _ => hcut _ rfl) fun _ => ?_
        exact Attempt.wp_failIf (fun _ => hcut _ rfl) fun _ => hcut _ rfl
      · have hstop : ¬CutsOff awk t g before := fun hcut => hshrinks (hfile ▸ hcut.shrinks)
        refine Attempt.wp_failIf (fun _ => ?_) fun _ => ?_
        · rw [neverCuts_iff_of_not_truncate rfl (by simp [onImage])]
          exact hplain hstop
        · rw [neverCuts_iff_of_not_truncate rfl (by simp [onImage])]
          exact hplain hstop
    · exact iff_of_true (neverCuts_nil rfl) fun hgoes => absurd hgoes.unmount hfails
  unfold Attempt.wp at hrun
  split at hrun
  · next heq => rwa [heq]
  · next heq => rwa [heq]

end Run

/-! ## An image of 8 GiB with 4 GiB in it -/

def rounding : Awk where
  awkCalc q := round q
  nearest q _ _ _ := by
    rw [abs_sub_comm]
    exact abs_sub_round q

def halfFull : Image where
  content := 4 * 2 ^ 30
  file := 8 * 2 ^ 30
  filesystem := 8 * 2 ^ 30
  mounts := []
  lingering := false

/-- Nothing is mounted and every command succeeds. -/
def compliant : ResizeAnswers where
  grep _ := false
  forced := true
  detached := true
  busy := false
  confirmed := true
  fsckExit := 0
  resize2fs := .done
  truncate := true
  verified := true

theorem neverCuts_iff_halfFull :
    NeverCuts 6 halfFull (cmdResize rounding compliant 6 ⟨halfFull, []⟩).2 :=
  (neverCuts_iff (by decide)).2 fun _ =>
    ⟨by decide, ⟨rfl, Or.inl rfl⟩, fun _ => ⟨by decide, Or.inl rfl⟩⟩

/-- 5.1 GiB are needed, and 5 are taken for enough. -/
theorem not_neverCuts_halfFull :
    ¬NeverCuts 5 halfFull (cmdResize rounding compliant 5 ⟨halfFull, []⟩).2 := by
  intro h
  have htouched : (cmdResize rounding compliant 5 ⟨halfFull, []⟩).2.history.isEmpty = false := by
    decide +kernel
  have hroom := h.room fun hnil => by
    rw [hnil] at htouched
    cases htouched
  exact absurd hroom (by decide)

end Droidspaces.SparseManager
