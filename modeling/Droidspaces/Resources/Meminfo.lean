import Droidspaces.Config.Pieces
import Droidspaces.Status.Scanf
import Mathlib.Data.List.Infix

/-!
# The virtual `meminfo`

A container with a memory limit sees a `/proc/meminfo` that is made from the host's line by line.
What there is no number for is scaled in floating point, which is a parameter here.

Each line gets a unit, whether the host's has one or not, and what is scaled is only bounded from
above.  Where neither matters the format is kept (`virtual_iff`).
-/

namespace Droidspaces.Meminfo

open Config Scanf

/-! ## The code -/

/-- `memory.current`, and what is read from `memory.stat`; `-1` stands for none. -/
structure Cgroup where
  current : ℤ
  anon : ℤ
  file : ℤ
  slab : ℤ

def memTotal : Text := "MemTotal".toList
def memFree : Text := "MemFree".toList
def memAvailable : Text := "MemAvailable".toList
def swapTotal : Text := "SwapTotal".toList
def swapFree : Text := "SwapFree".toList
def anonPages : Text := "AnonPages".toList
def cached : Text := "Cached".toList
def mapped : Text := "Mapped".toList
def slab : Text := "Slab".toList

/-- ` kB` -/
def kB : Text := [' ', 'k', 'B']

/-- `sscanf(line, "%127[^:]: %lld", key, &val)` -/
def scanEntry (line : Text) : Option (Text × ℤ) :=
  let key := (line.takeWhile (· != ':')).take 127
  if key = [] then none
  else
    match line.drop key.length with
    | ':' :: rest => (scanInt rest).map fun r => (key, toLongLong r.1)
    | _ => none

section Generator

variable (scale : ℤ → ℤ) (limit : ℤ) (cg : Cgroup)

/-- `mem_used` -/
def Cgroup.used : ℤ := if cg.current < 0 then 0 else cg.current

def limKb : ℤ := limit.tdiv 1024

def virtualValue (key : Text) (val : ℤ) : ℤ :=
  if key = memTotal then limKb limit
  else if key = memFree then
    if 0 < (limit - cg.used).tdiv 1024 then (limit - cg.used).tdiv 1024 else 0
  else if key = memAvailable then
    if limKb limit - cg.used.tdiv 1024 < 0 then 0 else limKb limit - cg.used.tdiv 1024
  else if key = swapTotal ∨ key = swapFree then 0
  else if key = anonPages ∧ 0 ≤ cg.anon then cg.anon.tdiv 1024
  else if (key = cached ∨ key = mapped) ∧ 0 ≤ cg.file then cg.file.tdiv 1024
  else if key = slab ∧ 0 ≤ cg.slab then cg.slab.tdiv 1024
  else scale val

/-- `snprintf(…, "%-16s%11lld kB\n", fkey, val)` -/
def printed (key : Text) (val : ℤ) : Text :=
  (key ++ [':']).rightpad 16 ' ' ++ (intText val).leftpad 11 ' ' ++ kB

def genLine (line : Text) : Text :=
  match scanEntry line with
  | none => line
  | some (key, val) =>
    if 0 < limit then
      let v := virtualValue scale limit cg key val
      let hasKb := decide (kB <:+: line)
      printed key (if hasKb = true ∧ limKb limit < v then limKb limit else v) ++ ['\n']
    else line

/-- `gen_meminfo`; `scale` is the multiplication by `ratio`. -/
def genMeminfo (file : Text) : Text :=
  (fgets 254 file 254).flatMap fun line => genLine scale limit cg (cString line)

end Generator

/-! ## The format -/

/-- A line of the host's file without its end. -/
def hostText (key : Text) (pad value : ℕ) (unit : Bool) : Text :=
  key ++ ':' :: (List.replicate pad ' ' ++ decimal value ++ if unit then kB else [])

structure HostLine where
  key : Text
  pad : ℕ
  value : ℕ
  unit : Bool
  key_ne_nil : key ≠ []
  key_chars : ':' ∉ key ∧ '\n' ∉ key ∧ '\x00' ∉ key
  key_length : key.length ≤ 127
  fits : (hostText key pad value unit).length ≤ 254

def HostLine.text (l : HostLine) : Text := hostText l.key l.pad l.value l.unit

/-- `/proc/meminfo` -/
def meminfo (ls : List HostLine) : Text := ls.flatMap fun l => l.text ++ ['\n']

structure Entry where
  key : Text
  value : ℤ
  unit : Bool
  deriving DecidableEq

def readEntry (line : Text) : Option Entry :=
  if ':' ∈ line then
    (scanInt ((line.dropWhile (· != ':')).drop 1)).map fun r =>
      ⟨line.takeWhile (· != ':'), r.1, r.2 == kB⟩
  else none

/-- What a reader of the file finds. -/
def entries (file : Text) : List Entry := (file.splitOn '\n').filterMap readEntry

structure Virtual (limit used : ℤ) (host out : Text) : Prop where
  keys : (entries out).map Entry.key = (entries host).map Entry.key
  units : (entries out).map Entry.unit = (entries host).map Entry.unit
  total : ∀ e ∈ entries out, e.key = memTotal → e.value = limit / 1024
  available : ∀ e ∈ entries out, e.key = memAvailable →
    e.value = max 0 (limit / 1024 - used / 1024)
  free : ∀ e ∈ entries out, e.key = memFree → e.value ≤ limit / 1024
  swap : ∀ e ∈ entries out, e.key = swapTotal ∨ e.key = swapFree → e.value = 0
  bounded : ∀ e ∈ entries out, e.unit = true → 0 ≤ e.value ∧ e.value ≤ limit / 1024

/-- There is no number for the key. -/
structure IsScaled (cg : Cgroup) (key : Text) : Prop where
  total : key ≠ memTotal
  free : key ≠ memFree
  available : key ≠ memAvailable
  swap : ¬ (key = swapTotal ∨ key = swapFree)
  anon : ¬ (key = anonPages ∧ 0 ≤ cg.anon)
  file : ¬ ((key = cached ∨ key = mapped) ∧ 0 ≤ cg.file)
  slab : ¬ (key = slab ∧ 0 ≤ cg.slab)

/-! ## Lines that are read -/

theorem scanInt_replicate (n : ℕ) (t : Text) :
    scanInt (List.replicate n ' ' ++ t) = scanInt t := by
  induction n with
  | zero => rfl
  | succ n ih => rw [List.replicate_succ, List.cons_append, scanInt_space, ih]

/-- The key of a line. -/
theorem takeWhile_key {key : Text} (hkey : ':' ∉ key) (t : Text) :
    (key ++ ':' :: t).takeWhile (· != ':') = key ∧
      (key ++ ':' :: t).dropWhile (· != ':') = ':' :: t := by
  have hpos : ∀ c ∈ key, (c != ':') = true := by
    intro c hc
    rw [bne_iff_ne]
    rintro rfl
    exact hkey hc
  rw [List.takeWhile_append_of_pos hpos, List.dropWhile_append_of_pos hpos]
  simp

theorem readEntry_append {key : Text} (hkey : ':' ∉ key) (n : ℕ) (v : ℤ) {t : Text}
    (ht : NoDigitHead t) :
    readEntry (key ++ ':' :: (List.replicate n ' ' ++ intText v ++ t)) =
      some ⟨key, v, t == kB⟩ := by
  obtain ⟨htake, hdrop⟩ := takeWhile_key hkey (List.replicate n ' ' ++ intText v ++ t)
  rw [readEntry, if_pos (by simp), htake, hdrop, List.drop_one, List.tail_cons, List.append_assoc,
    scanInt_replicate, scanInt_intText v ht]
  rfl

theorem scanEntry_append {key : Text} (hne : key ≠ []) (hkey : ':' ∉ key)
    (hlen : key.length ≤ 127) (n : ℕ) (v : ℤ) {t : Text} (ht : NoDigitHead t) :
    scanEntry (key ++ ':' :: (List.replicate n ' ' ++ intText v ++ t)) =
      some (key, toLongLong v) := by
  obtain ⟨htake, -⟩ := takeWhile_key hkey (List.replicate n ' ' ++ intText v ++ t)
  rw [scanEntry, htake, List.take_of_length_le hlen]
  simp only [if_neg hne, List.drop_left]
  rw [List.append_assoc, scanInt_replicate, scanInt_intText v ht]
  rfl

/-! ## The host's file -/

theorem kB_noDigitHead (unit : Bool) (t : Text) (ht : NoDigitHead t) :
    NoDigitHead ((if unit then kB else []) ++ t) := by
  cases unit
  · exact ht
  · exact noDigitHead_cons rfl _

theorem HostLine.text_eq (l : HostLine) : l.text =
    l.key ++ ':' :: (List.replicate l.pad ' ' ++ intText l.value ++ if l.unit then kB else []) := by
  rw [intText_natCast]
  rfl

theorem HostLine.not_mem_text (l : HostLine) {c : Char} (hkey : c ∉ l.key)
    (hc : c = '\n' ∨ c = '\x00') : c ∉ l.text := by
  have hdigits : c ∉ decimal l.value := by
    rcases hc with rfl | rfl
    · exact not_mem_decimal _ rfl
    · exact not_mem_decimal _ rfl
  have hunit : c ∉ (if l.unit then kB else []) := by
    rcases hc with rfl | rfl <;> cases l.unit <;> decide
  have hpad : c ∉ List.replicate l.pad ' ' := fun h => by
    rw [List.eq_of_mem_replicate h] at hc
    rcases hc with hc | hc <;> cases hc
  have hcolon : c ≠ ':' := by rcases hc with rfl | rfl <;> decide
  simp only [text, hostText, List.mem_append, List.mem_cons, not_or]
  exact ⟨hkey, hcolon, ⟨hpad, hdigits⟩, hunit⟩

theorem HostLine.readEntry_text (l : HostLine) :
    readEntry l.text = some ⟨l.key, l.value, l.unit⟩ := by
  have hread := readEntry_append l.key_chars.1 l.pad l.value
    (List.append_nil _ ▸ kB_noDigitHead l.unit [] (fun c hc => nomatch hc))
  rw [← l.text_eq] at hread
  rw [hread]
  cases l.unit <;> rfl

theorem HostLine.scanEntry_text (l : HostLine) :
    scanEntry (l.text ++ ['\n']) = some (l.key, toLongLong l.value) := by
  have hread := scanEntry_append l.key_ne_nil l.key_chars.1 l.key_length l.pad l.value
    (kB_noDigitHead l.unit ['\n'] (noDigitHead_cons rfl _))
  rw [l.text_eq, ← hread]
  simp

/-- Each line is read in one piece. -/
theorem fgets_meminfo (ls : List HostLine) :
    fgets 254 (meminfo ls) 254 = ls.map fun l => l.text ++ ['\n'] := by
  induction ls with
  | nil => rw [meminfo, List.flatMap_nil, fgets, List.map_nil]
  | cons l ls ih =>
    have hline := l.not_mem_text l.key_chars.2.1 (Or.inl rfl)
    rw [meminfo, List.flatMap_cons, ← meminfo, List.map_cons, List.append_assoc,
      List.singleton_append, fgets_append, ih, fgets_line 254 hline l.fits, List.singleton_append]

/-- The entries of a file are those of its lines. -/
theorem entries_flatMap {α : Type*} {ls : List α} {line : α → Text} {entry : α → Entry}
    (hline : ∀ l ∈ ls, '\n' ∉ line l) (hread : ∀ l ∈ ls, readEntry (line l) = some (entry l)) :
    entries (ls.flatMap fun l => line l ++ ['\n']) = ls.map entry := by
  induction ls with
  | nil => rfl
  | cons l ls ih =>
    have hrest := ih (fun a ha => hline a (List.mem_cons_of_mem l ha))
      fun a ha => hread a (List.mem_cons_of_mem l ha)
    rw [entries] at hrest ⊢
    rw [List.flatMap_cons, List.append_assoc, List.singleton_append,
      List.splitOn_append_cons_self_of_not_mem (hline l List.mem_cons_self), List.filterMap_cons,
      hread l List.mem_cons_self, hrest, List.map_cons]

theorem entries_meminfo (ls : List HostLine) :
    entries (meminfo ls) = ls.map fun l => ⟨l.key, l.value, l.unit⟩ :=
  entries_flatMap (fun l _ => l.not_mem_text l.key_chars.2.1 (Or.inl rfl))
    fun l _ => l.readEntry_text

/-! ## The virtual file -/

section Generator

variable (scale : ℤ → ℤ) (limit : ℤ) (cg : Cgroup)

theorem printed_eq (key : Text) (val : ℤ) : ∃ n, printed key val =
    key ++ ':' :: (List.replicate n ' ' ++ intText val ++ kB) := by
  refine ⟨16 - (key ++ [':']).length + (11 - (intText val).length), ?_⟩
  rw [List.replicate_add]
  simp only [printed, List.rightpad, List.leftpad, List.append_assoc, List.cons_append,
    List.nil_append]

theorem newline_not_mem_printed {key : Text} (hkey : '\n' ∉ key) (val : ℤ) :
    '\n' ∉ printed key val := by
  obtain ⟨n, hn⟩ := printed_eq key val
  have hval : '\n' ∉ intText val := fun h => by
    rcases mem_intText h with h | h <;> cases h
  have hunit : '\n' ∉ kB := by decide
  rw [hn]
  simp [hkey, hval, hunit]

/-- What a line gets. -/
def HostLine.newValue (l : HostLine) : ℤ :=
  let v := virtualValue scale limit cg l.key (toLongLong l.value)
  if kB <:+: l.text ++ ['\n'] ∧ limKb limit < v then limKb limit else v

theorem genMeminfo_meminfo (hlimit : 0 < limit) (ls : List HostLine) :
    genMeminfo scale limit cg (meminfo ls) =
      ls.flatMap fun l => printed l.key (l.newValue scale limit cg) ++ ['\n'] := by
  rw [genMeminfo, fgets_meminfo, List.flatMap_map]
  refine List.flatMap_congr fun l _ => ?_
  have hnul : '\x00' ∉ l.text ++ ['\n'] := by
    simp [l.not_mem_text l.key_chars.2.2 (Or.inr rfl)]
  rw [cString_eq_self hnul, genLine, l.scanEntry_text]
  simp only [if_pos hlimit, decide_eq_true_eq]
  rfl

theorem entries_genMeminfo (hlimit : 0 < limit) (ls : List HostLine) :
    entries (genMeminfo scale limit cg (meminfo ls)) =
      ls.map fun l => ⟨l.key, l.newValue scale limit cg, true⟩ := by
  rw [genMeminfo_meminfo scale limit cg hlimit]
  apply entries_flatMap
  · exact fun l _ => newline_not_mem_printed l.key_chars.2.1 _
  · intro l _
    obtain ⟨n, hn⟩ := printed_eq l.key (l.newValue scale limit cg)
    rw [hn]
    exact readEntry_append l.key_chars.1 n _ (noDigitHead_cons rfl _)

variable {limit cg}

theorem limKb_eq (hlimit : 0 < limit) : limKb limit = limit / 1024 :=
  Int.tdiv_eq_ediv_of_nonneg hlimit.le

theorem Cgroup.used_nonneg : 0 ≤ cg.used := by
  unfold used
  split <;> omega

theorem HostLine.newValue_eq_min (hlimit : 0 < limit) {l : HostLine} (hunit : l.unit = true) :
    l.newValue scale limit cg =
      min (virtualValue scale limit cg l.key (toLongLong l.value)) (limit / 1024) := by
  have hkB : kB <:+: l.text ++ ['\n'] := by
    refine ⟨l.key ++ ':' :: (List.replicate l.pad ' ' ++ intText l.value), ['\n'], ?_⟩
    rw [l.text_eq, hunit]
    simp
  unfold newValue
  simp only [hkB, true_and, limKb_eq hlimit]
  rcases lt_or_ge (limit / 1024) (virtualValue scale limit cg l.key (toLongLong l.value)) with
    hlt | hle
  · rw [if_pos hlt, min_eq_right hlt.le]
  · rw [if_neg (not_lt.2 hle), min_eq_left hle]

theorem virtualValue_total (val : ℤ) : virtualValue scale limit cg memTotal val = limKb limit :=
  if_pos rfl

theorem virtualValue_available (hlimit : 0 < limit) (val : ℤ) :
    virtualValue scale limit cg memAvailable val = max 0 (limit / 1024 - cg.used / 1024) := by
  have htotal : memAvailable ≠ memTotal := by decide
  have hfree : memAvailable ≠ memFree := by decide
  rw [virtualValue, if_neg htotal, if_neg hfree, if_pos rfl, limKb_eq hlimit,
    Int.tdiv_eq_ediv_of_nonneg Cgroup.used_nonneg]
  split <;> omega

theorem virtualValue_swap {key : Text} (hkey : key = swapTotal ∨ key = swapFree) (val : ℤ) :
    virtualValue scale limit cg key val = 0 := by
  have htotal : key ≠ memTotal := by rcases hkey with rfl | rfl <;> decide
  have hfree : key ≠ memFree := by rcases hkey with rfl | rfl <;> decide
  have havailable : key ≠ memAvailable := by rcases hkey with rfl | rfl <;> decide
  rw [virtualValue, if_neg htotal, if_neg hfree, if_neg havailable, if_pos hkey]

/-- Only what is scaled can be negative. -/
theorem virtualValue_nonneg (hlimit : 0 < limit) (key : Text) (val : ℤ) :
    0 ≤ virtualValue scale limit cg key val ↔ (IsScaled cg key → 0 ≤ scale val) := by
  unfold virtualValue
  rw [limKb_eq hlimit]
  split_ifs with htotal hfree hpos havailable hneg hswap hanon hfile hslab
  · exact iff_of_true (by omega) fun h => absurd htotal h.total
  · exact iff_of_true hpos.le fun h => absurd hfree h.free
  · exact iff_of_true le_rfl fun h => absurd hfree h.free
  · exact iff_of_true le_rfl fun h => absurd havailable h.available
  · exact iff_of_true (not_lt.1 hneg) fun h => absurd havailable h.available
  · exact iff_of_true le_rfl fun h => absurd hswap h.swap
  · exact iff_of_true (Int.tdiv_nonneg hanon.2 (by decide)) fun h => absurd hanon h.anon
  · exact iff_of_true (Int.tdiv_nonneg hfile.2 (by decide)) fun h => absurd hfile h.file
  · exact iff_of_true (Int.tdiv_nonneg hslab.2 (by decide)) fun h => absurd hslab h.slab
  · have hscaled : IsScaled cg key :=
      ⟨htotal, hfree, havailable, hswap, hanon, hfile, hslab⟩
    exact ⟨fun h _ => h, fun h => h hscaled⟩

/-- **The virtual file keeps the format exactly if** each line of the host's has a unit and nothing
is scaled to a negative number. -/
theorem virtual_iff (hlimit : 0 < limit) (hcurrent : 0 ≤ cg.current) (ls : List HostLine) :
    Virtual limit cg.current (meminfo ls) (genMeminfo scale limit cg (meminfo ls)) ↔
      ∀ l ∈ ls, l.unit = true ∧ (IsScaled cg l.key → 0 ≤ scale (toLongLong l.value)) := by
  have hused : cg.used = cg.current := if_neg (not_lt.2 hcurrent)
  have hhost := entries_meminfo ls
  have hout := entries_genMeminfo scale limit cg hlimit ls
  constructor
  · rintro ⟨-, hunits, -, -, -, -, hbounded⟩ l hl
    have hunit : l.unit = true := by
      rw [hhost, hout, List.map_map, List.map_map] at hunits
      exact (List.map_inj_left.1 hunits l hl).symm
    refine ⟨hunit, (virtualValue_nonneg scale hlimit _ _).1 ?_⟩
    have hvalue := (hbounded _ (hout ▸ List.mem_map_of_mem hl) rfl).1
    rw [HostLine.newValue_eq_min scale hlimit hunit] at hvalue
    exact (le_min_iff.1 hvalue).1
  · intro h
    have hentry : ∀ e ∈ entries (genMeminfo scale limit cg (meminfo ls)), ∃ l ∈ ls, e.key = l.key ∧
        e.value = min (virtualValue scale limit cg l.key (toLongLong l.value)) (limit / 1024) := by
      intro e he
      rw [hout] at he
      obtain ⟨l, hl, rfl⟩ := List.mem_map.1 he
      exact ⟨l, hl, rfl, HostLine.newValue_eq_min scale hlimit (h l hl).1⟩
    have hlim : 0 ≤ limit / 1024 := Int.ediv_nonneg hlimit.le (by decide)
    refine ⟨?_, ?_, ?_, ?_, ?_, ?_, ?_⟩
    · rw [hhost, hout, List.map_map, List.map_map]
      rfl
    · rw [hhost, hout, List.map_map, List.map_map]
      exact List.map_congr_left fun l hl => (h l hl).1.symm
    · rintro e he hkey
      obtain ⟨l, -, hl, hvalue⟩ := hentry e he
      rw [hvalue, ← hl, hkey, virtualValue_total, limKb_eq hlimit, min_self]
    · rintro e he hkey
      obtain ⟨l, -, hl, hvalue⟩ := hentry e he
      rw [hvalue, ← hl, hkey, virtualValue_available scale hlimit, hused]
      have hcurrent' : 0 ≤ cg.current / 1024 := Int.ediv_nonneg hcurrent (by decide)
      omega
    · rintro e he -
      obtain ⟨l, -, -, hvalue⟩ := hentry e he
      rw [hvalue]
      exact min_le_right _ _
    · rintro e he hkey
      obtain ⟨l, -, hl, hvalue⟩ := hentry e he
      rw [hvalue, ← hl, virtualValue_swap scale hkey, min_eq_left hlim]
    · rintro e he -
      obtain ⟨l, hmem, -, hvalue⟩ := hentry e he
      rw [hvalue]
      exact ⟨le_min ((virtualValue_nonneg scale hlimit _ _).2 (h l hmem).2) hlim, min_le_right _ _⟩

end Generator

/-- `MemTotal:         4096 kB` -/
def totalLine : HostLine where
  key := memTotal
  pad := 9
  value := 4096
  unit := true
  key_ne_nil := by decide
  key_chars := by decide
  key_length := by decide
  fits := by decide

theorem virtual_iff_totalLine :
    Virtual 1048576 0 (meminfo [totalLine])
        (genMeminfo id 1048576 ⟨0, -1, -1, -1⟩ (meminfo [totalLine])) ↔
      ∀ l ∈ [totalLine], l.unit = true ∧
        (IsScaled ⟨0, -1, -1, -1⟩ l.key → 0 ≤ id (toLongLong l.value)) :=
  @virtual_iff id 1048576 ⟨0, -1, -1, -1⟩ (by decide) (by decide) [totalLine]

/-- `HugePages_Total:       0` -/
def hugePages : HostLine where
  key := "HugePages_Total".toList
  pad := 7
  value := 0
  unit := false
  key_ne_nil := by decide
  key_chars := by decide
  key_length := by decide
  fits := by decide

/-- A number of pages becomes a number of kilobytes. -/
theorem not_virtual_hugePages : ¬ ∀ (scale : ℤ → ℤ) (limit : ℤ) (cg : Cgroup) (ls : List HostLine),
    0 < limit → 0 ≤ cg.current →
      Virtual limit cg.current (meminfo ls) (genMeminfo scale limit cg (meminfo ls)) := by
  intro h
  have hunits := (h id 1048576 ⟨0, -1, -1, -1⟩ [hugePages] (by decide) (by decide)).units
  rw [entries_meminfo, entries_genMeminfo _ _ _ (by decide)] at hunits
  cases hunits

end Droidspaces.Meminfo
