import Droidspaces.Config.Environment

/-!
# What a line assigns

`entries` lists the keys and the values that the lines of a file have, in their order, whether a key
is known or not.  A writer that puts `key=value` on a line gets exactly that entry if and only if
the value has no line break and no NUL, has nothing to trim, and leaves the line within the buffer
of the reader (`entries_line_iff`); otherwise the entry has another value, or there are others.
-/

namespace Droidspaces.Config

/-- A line as a C string. -/
def cString (line : Text) : Text := line.takeWhile (· != '\x00')

theorem cString_eq_self {t : Text} (h : '\x00' ∉ t) : cString t = t := by
  rw [cString, List.takeWhile_eq_self_iff]
  intro c hc
  rw [bne_iff_ne]
  rintro rfl
  exact h hc

theorem map_cString_eq_self {pieces : List Text} (h : ∀ piece ∈ pieces, '\x00' ∉ piece) :
    pieces.map cString = pieces :=
  (List.map_congr_left fun piece hpiece => cString_eq_self (h piece hpiece)).trans (List.map_id _)

theorem map_cString_fileLines {text : Text} (h : '\x00' ∉ text) :
    (fileLines text).map cString = fileLines text :=
  map_cString_eq_self fun _ hpiece hmem => h (subset_of_mem_fgets hpiece hmem)

/-- The keys and the values of the lines of a file. -/
def entries (text : Text) : List (Text × Text) :=
  (fileLines text).filterMap fun line => lineEntry (cString line)

/-- Without NULs, the values of a key are those of its entries. -/
theorem valuesOf_eq_entries (k : Key) {text : Text} (h : '\x00' ∉ text) :
    valuesOf k text =
      (entries text).filterMap fun e => if keyOf e.1 = some k then some e.2 else none := by
  rw [valuesOf, entries, List.filterMap_filterMap]
  refine List.filterMap_congr fun line hline => ?_
  rw [cString_eq_self fun hmem => h (subset_of_mem_fgets hline hmem)]

theorem entries_append (body rest : Text) :
    entries (body ++ '\n' :: rest) = entries (body ++ ['\n']) ++ entries rest := by
  rw [entries, fileLines, fgets_append, List.filterMap_append]
  rfl

/-- Lines are read one by one. -/
theorem entries_flatMap {α : Type} (body : α → Text) (l : List α) :
    entries (l.flatMap fun a => body a ++ ['\n']) =
      l.flatMap fun a => entries (body a ++ ['\n']) := by
  induction l with
  | nil => rfl
  | cons a l ih =>
    rw [List.flatMap_cons, List.flatMap_cons, List.append_assoc, List.singleton_append,
      entries_append, ih]

/-- A text ends where the first of the characters is. -/
theorem append_cons_inj {c : Char} {t u rest rest' : Text} (ht : c ∉ t) (hu : c ∉ u)
    (h : t ++ c :: rest = u ++ c :: rest') : t = u ∧ rest = rest' := by
  have hall {t : Text} (ht : c ∉ t) : ∀ d ∈ t, (d != c) = true := fun d hd =>
    bne_iff_ne.2 fun heq => ht (heq ▸ hd)
  have htake := congrArg (List.takeWhile (· != c)) h
  have hdrop := congrArg (List.dropWhile (· != c)) h
  rw [List.takeWhile_append_of_pos (hall ht), List.takeWhile_append_of_pos (hall hu)] at htake
  rw [List.dropWhile_append_of_pos (hall ht), List.dropWhile_append_of_pos (hall hu)] at hdrop
  constructor
  · simpa using htake
  · simpa using hdrop

/-! ## Trimming -/

theorem trim_isInfix (t : Text) : trim t <:+: t :=
  (List.rdropWhile_prefix isSpace _).isInfix.trans (List.dropWhile_suffix isSpace).isInfix

theorem trim_trim (t : Text) : IsTrimmed (trim t) := by
  have hstart : (trim t).dropWhile isSpace = trim t := dropWhile_trimmed isSpace t
  rw [IsTrimmed, trim, hstart]
  exact List.rdropWhile_idempotent isSpace _

theorem rdropWhile_append_of_pos {p : Char → Bool} {s : Text} (hs : ∀ c ∈ s, p c = true)
    (t : Text) : (t ++ s).rdropWhile p = t.rdropWhile p := by
  rw [List.rdropWhile, List.reverse_append,
    List.dropWhile_append_of_pos fun c hc => hs c (List.mem_reverse.1 hc), List.rdropWhile]

theorem trim_append {s : Text} (hs : ∀ c ∈ s, isSpace c = true) (t : Text) :
    trim (t ++ s) = trim t := by
  rw [trim, List.dropWhile_append]
  split
  · next hempty =>
    rw [trim, List.isEmpty_iff.1 hempty, List.dropWhile_eq_nil_iff.2 hs]
  · exact rdropWhile_append_of_pos hs _

/-- What ends in another character is not shortened. -/
theorem rdropWhile_append_cons {p : Char → Bool} {c : Char} (hc : p c = false) (s t : Text) :
    (s ++ c :: t).rdropWhile p = s ++ c :: t.rdropWhile p := by
  rw [List.rdropWhile, List.rdropWhile, List.reverse_append, List.reverse_cons, List.append_assoc,
    List.dropWhile_append]
  split
  · next hempty => simp [List.isEmpty_iff.1 hempty, hc]
  · simp

/-- Only what follows `=` is left to trim. -/
theorem IsKeyText.trim_append {key : Text} (hkey : IsKeyText key) (rest : Text) :
    trim (key ++ '=' :: rest) = key ++ '=' :: rest.rdropWhile isSpace := by
  obtain ⟨c, key', rfl⟩ := List.exists_cons_of_ne_nil hkey.1
  have hstart : (c :: key' ++ '=' :: rest).dropWhile isSpace = c :: key' ++ '=' :: rest := by
    simp [(hkey.2 c List.mem_cons_self).1]
  rw [trim, hstart, rdropWhile_append_cons (by decide)]

theorem IsKeyText.lineEntry_append {key : Text} (hkey : IsKeyText key) (rest : Text) :
    Config.lineEntry (key ++ '=' :: rest) = some (key, trim rest) := by
  rw [hkey.lineEntry_eq (hkey.trim_append rest)]
  have htail : ∀ c ∈ rest.rtakeWhile isSpace, isSpace c = true :=
    fun c hc => List.mem_rtakeWhile_imp hc
  rw [← Config.trim_append htail, List.rdropWhile_append_rtakeWhile]

/-! ## The first piece of a line -/

/-- A piece is at most as long as the room, and ends with its line. -/
theorem fgets_head {n : ℕ} {t : Text} {room : ℕ} {piece : Text} {pieces : List Text}
    (h : fgets n t room = piece :: pieces) : piece.length ≤ room + 1 ∧ '\n' ∉ piece.dropLast := by
  induction t generalizing room piece pieces with
  | nil => simp [fgets] at h
  | cons c t ih =>
    cases t with
    | nil =>
      simp only [fgets, List.cons.injEq] at h
      obtain ⟨rfl, -⟩ := h
      simp
    | cons d t =>
      rw [fgets] at h
      split at h
      · obtain ⟨rfl, -⟩ := List.cons.inj h
        simp
      · next hgo =>
        rw [Bool.or_eq_true, beq_iff_eq, beq_iff_eq, not_or] at hgo
        obtain ⟨line, lines, hread⟩ := List.exists_cons_of_ne_nil
          (fgets_ne_nil n (List.cons_ne_nil d t) (room - 1))
        rw [hread] at h
        obtain ⟨rfl, -⟩ := List.cons.inj h
        obtain ⟨hlen, hline⟩ := ih hread
        refine ⟨by rw [List.length_cons]; omega, ?_⟩
        cases line with
        | nil => simp
        | cons e line =>
          rw [List.dropLast_cons_cons, List.mem_cons, not_or]
          exact ⟨fun heq => hgo.1 heq.symm, hline⟩

/-! ## A line that is read as one entry -/

/-- A value that its line can carry. -/
structure IsCarried (key val : Text) : Prop where
  trimmed : IsTrimmed val
  oneLine : '\n' ∉ val
  noNul : '\x00' ∉ val
  fits : key.length + val.length ≤ 2046

section Line

variable {key val : Text} (hkey : IsKeyText key) (hnul : '\x00' ∉ key)

include hkey in
theorem newline_not_mem_line (hval : '\n' ∉ val) : '\n' ∉ key ++ '=' :: val := by
  simp only [List.mem_append, List.mem_cons, not_or]
  exact ⟨fun hmem => (hkey.2 _ hmem).2.2.2 rfl, by decide, hval⟩

include hkey hnul

theorem entries_of_isCarried (hval : IsCarried key val) :
    entries (key ++ '=' :: val ++ ['\n']) = [(key, val)] := by
  have hlen : (key ++ '=' :: val).length ≤ 2047 := by
    have hfits := hval.fits
    rw [List.length_append, List.length_cons]
    omega
  have hclean : '\x00' ∉ key ++ '=' :: val := by
    simp only [List.mem_append, List.mem_cons, not_or]
    exact ⟨hnul, by decide, hval.noNul⟩
  have hentry (rest : Text) (hrest : '\x00' ∉ rest) (hspace : ∀ c ∈ rest, isSpace c = true) :
      lineEntry (cString (key ++ '=' :: val ++ rest)) = some (key, val) := by
    rw [cString_eq_self (by simp [hnul, hval.noNul, hrest]), List.append_assoc, List.cons_append,
      hkey.lineEntry_append, trim_append hspace, hval.trimmed]
  have hnewline : '\x00' ∉ ['\n'] ∧ ∀ c ∈ ['\n'], isSpace c = true := by simp [isSpace]
  have hwithout := hentry [] List.not_mem_nil fun c hc => absurd hc List.not_mem_nil
  rw [List.append_nil] at hwithout
  rw [entries]
  rcases fileLines_line (newline_not_mem_line hkey hval.oneLine) hlen with hread | hread
  · rw [hread, List.filterMap_cons, hentry ['\n'] hnewline.1 hnewline.2, List.filterMap_nil]
  · rw [hread, List.filterMap_cons, hwithout, List.filterMap_cons,
      show lineEntry (cString ['\n']) = none by decide, List.filterMap_nil]

/-- The first entry of a line is that of its key. -/
theorem exists_entries (hlen : key.length + 1 ≤ 2046) (val : Text) :
    ∃ piece rest es, piece ++ rest = val ++ ['\n'] ∧ key.length + piece.length ≤ 2046 ∧
      '\n' ∉ piece.dropLast ∧
      entries (key ++ '=' :: val ++ ['\n']) = (key, trim (cString piece)) :: es := by
  have hfront : '\n' ∉ key ++ ['='] := newline_not_mem_line hkey List.not_mem_nil
  obtain ⟨piece, pieces, hpieces, hread⟩ := @fgets_start 2046 (key ++ ['=']) (val ++ ['\n'])
    hfront (by simp) 2046 (by simpa using hlen)
  obtain ⟨hroom, hdrop⟩ := fgets_head hpieces
  refine ⟨piece, pieces.flatten, pieces.filterMap fun line => lineEntry (cString line), ?_, ?_,
    hdrop, ?_⟩
  · have hflat := flatten_fgets 2046 (val ++ ['\n']) (2046 - (key ++ ['=']).length)
    rwa [hpieces, List.flatten_cons] at hflat
  · rw [List.length_append, List.length_singleton] at hroom
    omega
  · have hcut : cString (key ++ ['='] ++ piece) = key ++ '=' :: cString piece := by
      have hpos : ∀ c ∈ key ++ ['='], (c != '\x00') = true := by
        intro c hc
        rw [bne_iff_ne]
        rintro rfl
        rcases List.mem_append.1 hc with hc | hc
        · exact hnul hc
        · exact absurd hc (by decide)
      rw [cString, List.takeWhile_append_of_pos hpos, List.append_assoc]
      rfl
    rw [entries, fileLines, show key ++ '=' :: val ++ ['\n'] = key ++ ['='] ++ (val ++ ['\n']) by
      simp, hread, List.filterMap_cons, hcut, hkey.lineEntry_append]

/-- **A line is read as it was meant if and only if it can carry the value.** -/
theorem entries_line_iff (hlen : key.length + 1 ≤ 2046) :
    entries (key ++ '=' :: val ++ ['\n']) = [(key, val)] ↔ IsCarried key val := by
  refine ⟨fun h => ?_, entries_of_isCarried hkey hnul⟩
  obtain ⟨piece, rest, es, hsplit, hroom, hdrop, hread⟩ := exists_entries hkey hnul hlen val
  rw [hread] at h
  have hval : trim (cString piece) = val := (Prod.mk.inj (List.cons.inj h).1).2
  have hcut : cString piece <+: piece := List.takeWhile_prefix _
  have hlength : val.length ≤ (cString piece).length := by
    rw [← hval]
    exact (trim_isInfix _).length_le
  have hpiece : val <+: piece :=
    List.prefix_of_prefix_length_le ⟨['\n'], rfl⟩ ⟨rest, hsplit⟩ (hlength.trans hcut.length_le)
  have hcString : val <+: cString piece := List.prefix_of_prefix_length_le hpiece hcut hlength
  have htrimmed : IsTrimmed val := hval ▸ trim_trim _
  refine ⟨htrimmed, fun hmem => ?_, fun hmem => ?_, ?_⟩
  · -- the piece is the value, perhaps with the end of its line
    obtain ⟨tail, rfl⟩ := hpiece
    cases tail with
    | nil =>
      have hne : val ≠ [] := List.ne_nil_of_mem hmem
      have hlast := List.rdropWhile_eq_self_iff.1 htrimmed.rdropWhile hne
      rw [List.append_nil] at hdrop
      rw [← List.dropLast_append_getLast hne, List.mem_append, List.mem_singleton] at hmem
      rcases hmem with hmem | hmem
      · exact hdrop hmem
      · rw [← hmem] at hlast
        exact hlast (by decide)
    | cons c tail =>
      apply hdrop
      rw [List.dropLast_append_cons]
      exact List.mem_append_left _ hmem
  · have hne := List.mem_takeWhile_imp (hcString.subset hmem)
    exact absurd rfl (bne_iff_ne.1 hne)
  · have hle := hpiece.length_le
    omega

end Line

end Droidspaces.Config
