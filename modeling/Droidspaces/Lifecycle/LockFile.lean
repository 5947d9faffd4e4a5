import Mathlib.Algebra.Order.Ring.Int
import Mathlib.Data.List.DropRight
import Mathlib.Logic.Function.Basic

/-!
# The external lock file

`container.c` keeps one lock file per container, `Pids/<name>.lock`, whose content is
`"<pid> <boot-id>"`.  This module has the text layer: `readFile`, `atoi`, `lockHolderIfAlive` and
the stamp that `acquire_external_lock` writes.

The text layer is related to the process layer by one round trip, `lockHolder_stamp`: what a
process writes is read back as its own pid for as long as it is alive.  Everything above this
module reasons about `lockHolderIfAlive` and never opens the text again.
-/

namespace Droidspaces

/-- Process ids. -/
abbrev Pid := ℕ

/-- File contents, one character per byte. -/
abbrev Text := List Char

/-! ## Reading and parsing -/

/-- `read_file(path, buf, size)`: at most `size - 1` bytes, trailing newlines stripped. -/
def readFile (size : ℕ) (content : Text) : Text :=
  (content.take (size - 1)).rdropWhile fun c => c == '\n' || c == '\r'

/-- `isspace` in the C locale, for the blanks that `atoi` skips. -/
def isSpace (c : Char) : Bool :=
  c == ' ' || (9 ≤ c.toNat && c.toNat ≤ 13)

/-- The value of the leading decimal digits. -/
def leadingDigits (cs : Text) : ℕ :=
  Nat.ofDigitChars 10 (cs.takeWhile Char.isDigit) 0

/-- `atoi`, on values that fit an `int`. -/
def atoi (cs : Text) : ℤ :=
  match cs.dropWhile isSpace with
  | '-' :: ds => -(leadingDigits ds : ℤ)
  | '+' :: ds => leadingDigits ds
  | ds => leadingDigits ds

/-- The kernel's boot id as `read_file` delivers it. -/
structure BootId where
  text : Text
  ne_nil : text ≠ []
  length_le : text.length ≤ 36
  no_newline : ∀ c ∈ text, c ≠ '\n' ∧ c ≠ '\r'

def aBoot : BootId where
  text := ['b']
  ne_nil := by simp
  length_le := by simp
  no_newline := by simp

/-- `lock_holder_if_alive`: the text up to the first blank is the pid, the rest must be the
running kernel's boot id, and the pid must answer `kill(pid, 0)`. -/
def lockHolderIfAlive (boot : BootId) (alive : Pid → Bool) (buf : Text) : Option Pid :=
  match buf.dropWhile (· ≠ ' ') with
  | [] => none
  | _ :: rest =>
    if rest = boot.text then
      let pid := atoi (buf.takeWhile (· ≠ ' '))
      if 0 < pid ∧ alive pid.toNat = true then some pid.toNat else none
    else none

/-- `snprintf(lock_str, sizeof(lock_str), "%d %s", getpid(), boot_id)`. -/
def lockStamp (boot : BootId) (me : Pid) : Text :=
  Nat.toDigits 10 me ++ ' ' :: boot.text

/-- The largest pid the kernel hands out, `PID_MAX_LIMIT` on 64-bit systems. -/
def pidMax : Pid := 4194304

/-! ## What a stamp reads back as -/

/-- A number ends where no digit follows. -/
theorem leadingDigits_toDigits_append (n : ℕ) {t : Text} (ht : ∀ c ∈ t.head?, c.isDigit = false) :
    leadingDigits (Nat.toDigits 10 n ++ t) = n := by
  have hall : ∀ c ∈ Nat.toDigits 10 n, c.isDigit = true := fun c hc =>
    Nat.isDigit_of_mem_toDigits (by decide) (by decide) hc
  have hend : t.takeWhile Char.isDigit = [] := by
    cases t with
    | nil => rfl
    | cons c t => simp [ht c rfl]
  rw [leadingDigits, List.takeWhile_append_of_pos hall, hend]
  simp

theorem leadingDigits_toDigits (n : ℕ) : leadingDigits (Nat.toDigits 10 n) = n := by
  simpa using leadingDigits_toDigits_append n (t := []) (by simp)

/-- A digit is neither a blank nor a sign, so `atoi` sees the number at once. -/
theorem atoi_of_head_isDigit {d : Char} (hd : d.isDigit = true) (ds : Text) :
    atoi (d :: ds) = leadingDigits (d :: ds) := by
  have hnum : 48 ≤ d.toNat ∧ d.toNat ≤ 57 := by
    simp only [Char.isDigit, Bool.and_eq_true, decide_eq_true_eq, ge_iff_le,
      UInt32.le_iff_toNat_le] at hd
    exact hd
  have hspace : isSpace d = false := by
    have hne : d ≠ ' ' := by rintro rfl; simp at hnum
    simp [isSpace, hne]
    omega
  have hminus : d ≠ '-' := by rintro rfl; simp at hnum
  have hplus : d ≠ '+' := by rintro rfl; simp at hnum
  rw [atoi, List.dropWhile_cons_of_neg (by simp [hspace])]
  split <;> simp_all

theorem atoi_toDigits_append (n : ℕ) {t : Text} (ht : ∀ c ∈ t.head?, c.isDigit = false) :
    atoi (Nat.toDigits 10 n ++ t) = n := by
  obtain ⟨d, ds, hds⟩ := List.exists_cons_of_ne_nil (Nat.toDigits_ne_nil (n := n) (b := 10))
  have hd : d.isDigit = true :=
    Nat.isDigit_of_mem_toDigits (b := 10) (n := n) (by decide) (by decide) (by simp [hds])
  have hval := leadingDigits_toDigits_append n ht
  rw [hds, List.cons_append] at hval ⊢
  rw [atoi_of_head_isDigit hd, hval]

theorem atoi_toDigits (n : ℕ) : atoi (Nat.toDigits 10 n) = n := by
  simpa using atoi_toDigits_append n (t := []) (by simp)

/-- The owner test of `release_external_lock` reads the leading pid of a stamp. -/
theorem atoi_lockStamp (boot : BootId) (p : Pid) : atoi (lockStamp boot p) = p :=
  atoi_toDigits_append p (by simp)

theorem toDigits_forall_ne_space (n : ℕ) : ∀ c ∈ Nat.toDigits 10 n, c ≠ ' ' := by
  rintro c hc rfl
  have := Nat.isDigit_of_mem_toDigits (b := 10) (n := n) (by decide) (by decide) hc
  simp [Char.isDigit] at this

/-- The stamp of a real pid fits the 64-byte buffer and ends in no newline, so reading it back
changes nothing. -/
theorem readFile_lockStamp (boot : BootId) {p : Pid} (hp : p < pidMax) :
    readFile 64 (lockStamp boot p) = lockStamp boot p := by
  have hdigits : (Nat.toDigits 10 p).length ≤ 7 :=
    (Nat.length_toDigits_le_iff (by decide) (by decide)).2
      (lt_of_lt_of_le hp (by decide : pidMax ≤ 10 ^ 7))
  have hlen : (lockStamp boot p).length ≤ 63 := by
    have := boot.length_le
    simp only [lockStamp, List.length_append, List.length_cons]
    omega
  rw [readFile, List.take_of_length_le hlen, List.rdropWhile_eq_self_iff]
  intro hne
  have hlast : (lockStamp boot p).getLast hne = boot.text.getLast boot.ne_nil := by
    simp [lockStamp, List.getLast_cons boot.ne_nil]
  have := boot.no_newline _ (List.getLast_mem boot.ne_nil)
  simp [hlast, this.1, this.2]

/-- **The stamp round trip.**  A lock written by `p` is read back as held by `p` for exactly as
long as `p` is alive. -/
theorem lockHolder_stamp (boot : BootId) (alive : Pid → Bool) {p : Pid} (hp : 0 < p) :
    lockHolderIfAlive boot alive (lockStamp boot p) = if alive p then some p else none := by
  have hpos : ∀ c ∈ Nat.toDigits 10 p, (decide (c ≠ ' ')) = true := by
    simpa using toDigits_forall_ne_space p
  have hdrop : (lockStamp boot p).dropWhile (· ≠ ' ') = ' ' :: boot.text := by
    rw [lockStamp, List.dropWhile_append_of_pos hpos]
    simp
  have htake : (lockStamp boot p).takeWhile (· ≠ ' ') = Nat.toDigits 10 p := by
    rw [lockStamp, List.takeWhile_append_of_pos hpos]
    simp
  rw [lockHolderIfAlive, hdrop]
  have hpos' : (0 : ℤ) < p := by exact_mod_cast hp
  simp only [htake, atoi_toDigits, if_true, Int.toNat_natCast, hpos', true_and]

/-- `atoi` stops at a blank that follows its digits, so what comes after does not matter. -/
theorem atoi_append_blank {pre : Text} (hpre : 0 < atoi pre) (rest : Text) :
    atoi (pre ++ ' ' :: rest) = atoi pre := by
  have hdigits : ∀ ds : Text, leadingDigits (ds ++ ' ' :: rest) = leadingDigits ds := by
    intro ds
    have : (ds ++ ' ' :: rest).takeWhile Char.isDigit = ds.takeWhile Char.isDigit := by
      induction ds with
      | nil => simp [Char.isDigit]
      | cons d ds ih =>
        by_cases hd : d.isDigit = true
        · simp [hd, ih]
        · simp [hd]
    rw [leadingDigits, this, leadingDigits]
  have hne : pre.dropWhile isSpace ≠ [] := by
    intro hnil
    simp [atoi, hnil, leadingDigits] at hpre
  obtain ⟨d, ds, hds⟩ := List.exists_cons_of_ne_nil hne
  have hdrop : (pre ++ ' ' :: rest).dropWhile isSpace = d :: (ds ++ ' ' :: rest) := by
    rw [List.dropWhile_append, hds]
    simp
  have hcons := hdigits (d :: ds)
  rw [List.cons_append] at hcons
  rw [atoi, atoi, hds, hdrop]
  by_cases hminus : d = '-'
  · subst hminus
    simp only [hdigits]
  · by_cases hplus : d = '+'
    · subst hplus
      simp only [hdigits]
    · simp [hminus, hplus, hcons]

/-- The owner test of `release_external_lock` agrees with the holder test wherever the latter
finds a holder. -/
theorem atoi_of_lockHolderIfAlive {boot : BootId} {alive : Pid → Bool} {buf : Text} {h : Pid}
    (hold : lockHolderIfAlive boot alive buf = some h) : atoi buf = h := by
  unfold lockHolderIfAlive at hold
  split at hold
  · cases hold
  · next c rest hdrop =>
    have hc : c = ' ' := by
      have hne : buf.dropWhile (fun c => decide (c ≠ ' ')) ≠ [] := by rw [hdrop]; simp
      have := List.head_dropWhile_not (fun c => decide (c ≠ ' ')) hne
      simpa only [hdrop, List.head_cons, decide_eq_false_iff_not, not_not] using this
    split_ifs at hold
    simp only [Option.ite_none_right_eq_some, Option.some.injEq] at hold
    obtain ⟨hpos, rfl⟩ := hold
    have hsplit := List.takeWhile_append_dropWhile (p := fun c => decide (c ≠ ' ')) (l := buf)
    rw [hdrop, hc] at hsplit
    have := atoi_append_blank hpos.1 rest
    rw [hsplit] at this
    rw [this, Int.toNat_of_nonneg (Int.le_of_lt hpos.1)]

/-- Liveness only filters the recorded pid. -/
theorem lockHolderIfAlive_eq_some {boot : BootId} {alive : Pid → Bool} {buf : Text} {h : Pid} :
    lockHolderIfAlive boot alive buf = some h ↔
      lockHolderIfAlive boot (fun _ => true) buf = some h ∧ alive h = true := by
  unfold lockHolderIfAlive
  split
  · simp
  · split
    · simp only [and_true]
      split
      · next hpos => simp; grind
      · next hneg => simp only [reduceCtorEq, false_iff]; grind
    · simp

@[simp] theorem lockHolderIfAlive_nil (boot : BootId) (alive : Pid → Bool) :
    lockHolderIfAlive boot alive [] = none := rfl

end Droidspaces
