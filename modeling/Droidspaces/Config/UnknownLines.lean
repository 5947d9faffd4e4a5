import Droidspaces.Config.Pieces
import Droidspaces.Config.SaveShortcut

/-!
# The lines that nobody knows

A line whose key `ds_config_load` does not know is kept and written back at the end of the file, but
`fgets` brings a line that does not fit the buffer in pieces, and each piece is looked at as if it
were a line.  `Cycles.survives_iff` says which files keep their unknown lines however often they are
loaded and saved.
-/

namespace Droidspaces.Config

/-! ## The code -/

/-- `ds_config_load`, of any file: what is behind a NUL in its piece is not seen. -/
def dsConfigLoadRaw (sys : System) (text : Text) (cfg : DsConfig) : DsConfig :=
  ((fileLines text).map cString).foldl (loadLine sys) { cfg with unknown := [] }

/-- The pieces of a file that are kept. -/
def keptPieces (text : Text) : List Text := ((fileLines text).map cString).filter isUnknown

section File

variable (sys : System) (android : Bool)

theorem dsConfigLoadRaw_unknown (text : Text) (cfg : DsConfig) :
    (dsConfigLoadRaw sys text cfg).unknown = keptPieces text := by
  rw [dsConfigLoadRaw, foldl_loadLine_unknown, List.nil_append, keptPieces]

theorem dsConfigLoadRaw_eq {text : Text} (h : '\x00' ∉ text) (cfg : DsConfig) :
    dsConfigLoadRaw sys text cfg = dsConfigLoad sys text cfg := by
  rw [dsConfigLoadRaw, map_cString_fileLines h, dsConfigLoad]

theorem dsConfigSave_eq (cfg : DsConfig) : dsConfigSave sys android cfg =
    dsConfigSerializeKnown sys android (sorted cfg) ++ cfg.unknown.flatten := by
  rw [dsConfigSave, List.flatten_append]
  rfl

/-- A file is loaded and saved as it is. -/
def reload (file : Text) : Text :=
  fileAfterSave sys android file (dsConfigLoad sys file defaults)

end File

/-! ## What is meant -/

/-- The lines of a text that there is something in. -/
def textLines (text : Text) : List Text := (text.splitOn '\n').filter (· ≠ [])

def unknownLines (text : Text) : List Text := (text.splitOn '\n').filter isUnknown

/-- The unknown lines of the text are what is written last, each on a line of its own. -/
def Survives (sys : System) (android : Bool) (text : Text) (cfg : DsConfig) : Prop :=
  (∃ known, dsConfigSave sys android cfg = known ++ '\n' :: cfg.unknown.flatten) ∧
    textLines cfg.unknown.flatten = unknownLines text

/-- A file whose unknown lines are not cut: each of their pieces has an unknown key of its own, no
piece of another line has one, and only the last of them may be so long that its end comes alone. -/
structure IsUncut (text : Text) : Prop where
  kept : ∀ line ∈ unknownLines text, ∀ piece ∈ fileLines line, isUnknown piece = true
  others : ∀ line ∈ text.splitOn '\n', isUnknown line = false →
    ∀ piece ∈ fileLines line, isUnknown (cString piece) = false
  ended : ∀ line ∈ (unknownLines text).dropLast, ¬ 2047 ∣ line.length
  noNul : ∀ line ∈ unknownLines text, '\x00' ∉ line

/-! ## Ends of lines -/

theorem isUnknown_newline (t : Text) : isUnknown (t ++ ['\n']) = isUnknown t := by
  have htrim : trim (t ++ ['\n']) = trim t :=
    trim_append (List.forall_mem_singleton.2 (by decide)) t
  rw [isUnknown, isUnknown, lineEntry, lineEntry, htrim]

theorem isUnknown_cString_newline (t : Text) :
    isUnknown (cString (t ++ ['\n'])) = isUnknown (cString t) := by
  rcases cString_newline t with hsame | ⟨hend, hself⟩
  · rw [hsame]
  · rw [hend, hself, isUnknown_newline]

theorem isUnknown_nil : isUnknown [] = false := by decide

theorem isUnknown_end : isUnknown ['\n'] = false := by decide

theorem isUnknown_cString_end : isUnknown (cString ['\n']) = false := isUnknown_end

theorem keptPieces_append (line rest : Text) :
    keptPieces (line ++ '\n' :: rest) = keptPieces (line ++ ['\n']) ++ keptPieces rest := by
  rw [keptPieces, fileLines, fgets_append, List.map_append, List.filter_append]
  rfl

/-! ## Lines that come in one -/

/-- What is kept of a line that is not cut: the line, and its end if that does not come alone. -/
theorem flatten_keptPieces {line : Text} (hline : '\n' ∉ line) (hnul : '\x00' ∉ line)
    (hkept : ∀ piece ∈ fileLines line, isUnknown piece = true) :
    (keptPieces line).flatten = line ∧
      (keptPieces (line ++ ['\n'])).flatten =
        if 2047 ∣ line.length then line else line ++ ['\n'] := by
  have hclean : (fileLines line).map cString = fileLines line := map_cString_fileLines hnul
  have hself : (fileLines line).filter isUnknown = fileLines line := List.filter_eq_self.2 hkept
  refine ⟨by rw [keptPieces, hclean, hself]; exact flatten_fgets 2046 line 2046, ?_⟩
  rcases fgets_newline 2046 hline with ⟨hdvd, hread⟩ | ⟨hdvd, pieces, last, hpieces, hread⟩
  · rw [if_pos hdvd, keptPieces, fileLines, hread, List.map_append, List.filter_append,
      show fgets 2046 line 2046 = fileLines line from rfl, hclean, hself, List.flatten_append,
      show (fileLines line).flatten = line from flatten_fgets 2046 line 2046]
    simp [isUnknown_cString_end]
  · have hended : (fileLines (line ++ ['\n'])).map cString = pieces ++ [last ++ ['\n']] :=
      (map_cString_fileLines (by simpa using hnul)).trans hread
    rw [show fileLines line = pieces ++ [last] from hpieces] at hkept
    have hread' : (keptPieces (line ++ ['\n'])) = pieces ++ [last ++ ['\n']] := by
      rw [keptPieces, hended]
      refine List.filter_eq_self.2 (List.forall_mem_append.2 ⟨?_, ?_⟩)
      · exact fun piece hpiece => hkept piece (List.mem_append_left _ hpiece)
      · rw [List.forall_mem_singleton, isUnknown_newline]
        exact hkept last (by simp)
    have hflat : (pieces ++ [last]).flatten = line := by
      rw [← hpieces]
      exact flatten_fgets 2046 line 2046
    rw [if_neg hdvd, hread', ← hflat]
    simp

/-- Nothing is kept of lines without an unknown piece. -/
theorem keptPieces_eq_nil {text : Text} (h : ∀ line ∈ text.splitOn '\n',
    ∀ piece ∈ fileLines line, isUnknown (cString piece) = false) : keptPieces text = [] := by
  rw [keptPieces, List.filter_eq_nil_iff]
  intro piece hpiece
  obtain ⟨piece, hmem, rfl⟩ := List.mem_map.1 hpiece
  rw [Bool.not_eq_true]
  rcases exists_line_of_mem_fgets hmem with rfl | ⟨line, hline, part, hpart, rfl | rfl⟩
  · exact isUnknown_cString_end
  · exact h line hline piece hpart
  · rw [isUnknown_cString_newline]
    exact h line hline part hpart

theorem ne_nil_of_isUnknown {line : Text} (h : isUnknown line = true) : line ≠ [] := by
  rintro rfl
  rw [isUnknown_nil] at h
  cases h

theorem unknownLines_cons {line : Text} (hline : '\n' ∉ line) (rest : Text) :
    unknownLines (line ++ '\n' :: rest) =
      if isUnknown line then line :: unknownLines rest else unknownLines rest := by
  rw [unknownLines, List.splitOn_append_cons_self_of_not_mem hline, List.filter_cons]
  rfl

theorem textLines_cons {line : Text} (hline : '\n' ∉ line) (hne : line ≠ []) (rest : Text) :
    textLines (line ++ '\n' :: rest) = line :: textLines rest := by
  rw [textLines, List.splitOn_append_cons_self_of_not_mem hline, List.filter_cons_of_pos]
  · rfl
  · simpa using hne

theorem textLines_singleton {line : Text} (hline : '\n' ∉ line) (hne : line ≠ []) :
    textLines line = [line] := by
  rw [textLines, List.splitOn_eq_singleton hline]
  simp [hne]

theorem IsUncut.of_cons {line rest : Text} (hline : '\n' ∉ line)
    (h : IsUncut (line ++ '\n' :: rest)) : IsUncut rest := by
  have hmem : ∀ l ∈ unknownLines rest, l ∈ unknownLines (line ++ '\n' :: rest) := by
    intro l hl
    rw [unknownLines_cons hline]
    split
    · exact List.mem_cons_of_mem _ hl
    · exact hl
  refine ⟨fun l hl => h.kept l (hmem l hl), fun l hl => h.others l ?_, fun l hl => ?_,
    fun l hl => h.noNul l (hmem l hl)⟩
  · rw [List.splitOn_append_cons_self_of_not_mem hline]
    exact List.mem_cons_of_mem _ hl
  · refine h.ended l ?_
    rw [unknownLines_cons hline]
    split
    · rw [List.dropLast_cons_of_ne_nil (List.ne_nil_of_mem (List.mem_of_mem_dropLast hl))]
      exact List.mem_cons_of_mem _ hl
    · exact hl

/-- What is kept of a text whose unknown lines are not cut. -/
theorem IsUncut.textLines_kept {text : Text} (h : IsUncut text) :
    textLines (keptPieces text).flatten = unknownLines text := by
  induction text using lineInduction '\n' with
  | last line hline =>
    have hlines : line.splitOn '\n' = [line] := List.splitOn_eq_singleton hline
    by_cases hunknown : isUnknown line = true
    · have hmem : line ∈ unknownLines line := by simp [unknownLines, hlines, hunknown]
      rw [(flatten_keptPieces hline (h.noNul line hmem) (h.kept line hmem)).1,
        textLines_singleton hline (ne_nil_of_isUnknown hunknown), unknownLines, hlines]
      simp [hunknown]
    · have hnone := h.others line (by simp [hlines]) (by simpa using hunknown)
      rw [keptPieces_eq_nil (by simpa [hlines] using hnone), unknownLines, hlines]
      simp [hunknown, textLines]
  | cons line rest hline ih =>
    have hrest := h.of_cons hline
    rw [keptPieces_append, List.flatten_append, unknownLines_cons hline]
    by_cases hunknown : isUnknown line = true
    · have hlines := unknownLines_cons hline rest
      rw [if_pos hunknown] at hlines ⊢
      have hmem : line ∈ unknownLines (line ++ '\n' :: rest) := by rw [hlines]; simp
      have hne := ne_nil_of_isUnknown hunknown
      rw [(flatten_keptPieces hline (h.noNul line hmem) (h.kept line hmem)).2]
      by_cases hdvd : 2047 ∣ line.length
      · -- the end of the line is lost, so nothing may follow
        have hlast : unknownLines rest = [] := by
          by_contra hne
          refine h.ended line ?_ hdvd
          rw [hlines, List.dropLast_cons_of_ne_nil hne]
          exact List.mem_cons_self
        have hnone : keptPieces rest = [] := keptPieces_eq_nil fun l hl => by
          refine hrest.others l hl ?_
          by_contra hl'
          exact List.filter_eq_nil_iff.1 hlast l hl (by simpa using hl')
        rw [if_pos hdvd, hnone, hlast, List.flatten_nil, List.append_nil,
          textLines_singleton hline hne]
      · rw [if_neg hdvd, List.append_assoc, List.singleton_append, textLines_cons hline hne,
          ih hrest]
    · have hnone := h.others line (by simp [List.splitOn_append_cons_self_of_not_mem hline])
        (by simpa using hunknown)
      have hlines : (line ++ ['\n']).splitOn '\n' = [line, []] := by
        rw [List.splitOn_append_cons_self_of_not_mem hline]
        rfl
      have hkept : keptPieces (line ++ ['\n']) = [] := keptPieces_eq_nil <| by
        rw [hlines]
        exact List.forall_mem_cons.2 ⟨hnone, List.forall_mem_singleton.2 (by simp [fileLines, fgets])⟩
      rw [if_neg hunknown, hkept, List.flatten_nil, List.nil_append, ih hrest]

/-! ## Lines that are cut -/

/-- As many pieces of a text are kept as of its lines. -/
theorem countP_fileLines (text : Text) : (fileLines text).countP isUnknown =
    ((text.splitOn '\n').map fun line => (fileLines line).countP isUnknown).sum := by
  have hcount (pieces : List Text) : pieces.countP isUnknown =
      (pieces.flatMap fun piece => if isUnknown piece then [()] else []).length := by
    induction pieces with
    | nil => rfl
    | cons piece pieces ih => by_cases h : isUnknown piece = true <;> simp [h, ih, Nat.add_comm]
  have hread := flatMap_fgets_lines (n := 2046)
    (f := fun piece => if isUnknown piece then [()] else []) (by simp [isUnknown_end])
    (fun line _ => by rw [isUnknown_newline]) text
  rw [hcount, fileLines, hread, List.length_flatMap]
  simp only [hcount, fileLines]

/-- What is filtered out counts for nothing if the sum stays the same. -/
theorem sum_filter_eq_iff {α : Type} (p : α → Bool) (c : α → ℕ) (l : List α) :
    ((l.filter p).map c).sum = (l.map c).sum ↔ ∀ x ∈ l, p x = false → c x = 0 := by
  have hsum : ((l.filter p).map c).sum + ((l.filter fun x => !p x).map c).sum =
      (l.map c).sum := by
    induction l with
    | nil => rfl
    | cons x l ih => by_cases h : p x = true <;> simp [h] <;> omega
  have hzero : ((l.filter fun x => !p x).map c).sum = 0 ↔ ∀ x ∈ l, p x = false → c x = 0 := by
    rw [List.sum_eq_zero_iff_forall_eq_nat, List.forall_mem_map]
    simp
  rw [← hzero]
  omega

theorem dropLast_filter_subset {α : Type} (p : α → Bool) (l : List α) :
    (l.filter p).dropLast ⊆ l.dropLast := by
  rcases List.eq_nil_or_concat l with rfl | ⟨front, last, rfl⟩
  · exact List.Subset.refl _
  · rw [List.concat_eq_append, List.filter_append, List.dropLast_concat]
    by_cases h : p last = true
    · rw [List.filter_cons_of_pos h, List.filter_nil, List.dropLast_concat]
      exact List.filter_subset_self front
    · rw [List.filter_cons_of_neg h, List.filter_nil, List.append_nil]
      exact List.Subset.trans (List.dropLast_subset _) (List.filter_subset_self front)

/-- What is kept of a text gives its unknown lines only if they are not cut. -/
theorem IsUncut.of_textLines_kept {text : Text} (hnul : '\x00' ∉ text)
    (h : textLines (keptPieces text).flatten = unknownLines text) : IsUncut text := by
  have hclean {piece line : Text} (hline : line ∈ text.splitOn '\n')
      (hpiece : piece ∈ fileLines line) : cString piece = piece := by
    refine cString_eq_self fun hmem => hnul ((isInfix_of_mem_splitOn hline).subset ?_)
    exact subset_of_mem_fgets hpiece hmem
  have hkept : keptPieces text = (fileLines text).filter isUnknown := by
    rw [keptPieces, map_cString_fileLines hnul]
  have hread : fileLines (keptPieces text).flatten = keptPieces text := by
    rw [hkept]
    exact fileLines_filter _ text
  have hall : ∀ piece ∈ fileLines (keptPieces text).flatten, isUnknown piece = true := by
    rw [hread, hkept]
    exact fun piece hpiece => (List.mem_filter.1 hpiece).2
  refine ⟨fun line hline piece hpiece => ?_, fun line hline hother piece hpiece => ?_,
    fun line hline hdvd => ?_, fun line hline hmem => ?_⟩
  · rw [← h] at hline
    rcases mem_fgets_of_mem_splitOn (List.mem_filter.1 hline).1 hpiece with hmem | hmem
    · exact hall piece hmem
    · rw [← isUnknown_newline]
      exact hall _ hmem
  · -- there are as many pieces in what is kept as in the unknown lines of the text
    let count (line : Text) := (fileLines line).countP isUnknown
    have htext : ((text.splitOn '\n').map count).sum = (keptPieces text).length := by
      rw [← countP_fileLines, List.countP_eq_length_filter, ← hkept]
    have hlines : (((keptPieces text).flatten.splitOn '\n').map count).sum =
        (keptPieces text).length := by
      rw [← countP_fileLines, List.countP_eq_length_filter, List.filter_eq_self.2 hall, hread]
    have hfilled : ((unknownLines text).map count).sum =
        (((keptPieces text).flatten.splitOn '\n').map count).sum := by
      rw [← h, textLines, sum_filter_eq_iff]
      intro line _ hnil
      obtain rfl : line = [] := by simpa using hnil
      rfl
    have hzero := (sum_filter_eq_iff isUnknown count (text.splitOn '\n')).1
      (hfilled.trans (hlines.trans htext.symm)) line hline hother
    rw [hclean hline hpiece]
    simpa using List.countP_eq_zero.1 hzero piece hpiece
  · rw [← h] at hline
    have hend := hall ['\n'] (newline_mem_fgets (dropLast_filter_subset _ _ hline) hdvd)
    rw [isUnknown_end] at hend
    cases hend
  · exact hnul ((isInfix_of_mem_splitOn (List.mem_filter.1 hline).1).subset hmem)

/-! ## Loading and saving -/

section Reload

variable {sys : System} {android : Bool}

theorem dsConfigSerializeKnown_congr {cfg cfg' : DsConfig}
    (h : ∀ k, cfg.value k = cfg'.value k) :
    dsConfigSerializeKnown sys android cfg = dsConfigSerializeKnown sys android cfg' := by
  rw [dsConfigSerializeKnown_eq, dsConfigSerializeKnown_eq]
  exact congrArg _ (linesOf_congr fun k _ => written_congr (h k) (Or.inl (h .netMode)))

theorem sorted_congr {cfg cfg' : DsConfig} (h : ∀ k, cfg.value k = cfg'.value k) (k : Key) :
    (sorted cfg).value k = (sorted cfg').value k := by
  by_cases hk : k = .binds
  · subst hk
    rw [sorted_binds, sorted_binds, h]
  · rw [value_sorted hk, value_sorted hk, h]

theorem serialized_line (cfg : DsConfig) :
    ∀ line ∈ header ++ knownLines sys android cfg, ∃ body, line = body ++ ['\n'] := by
  intro line hline
  rcases List.mem_append.1 hline with hline | hline
  · exact header_line line hline
  · obtain ⟨k, -, hk⟩ := List.mem_filterMap.1 hline
    obtain ⟨val, -, rfl⟩ := Option.map_eq_some_iff.1 hk
    exact ⟨keyText k ++ '=' :: val, rfl⟩

theorem exists_front (cfg : DsConfig) : ∃ front,
    dsConfigSave sys android cfg = front ++ '\n' :: cfg.unknown.flatten := by
  rw [dsConfigSave_eq, dsConfigSerializeKnown]
  have hline := @serialized_line sys android (sorted cfg)
  obtain ⟨lines, last, hlines⟩ :=
    (List.eq_nil_or_concat (header ++ knownLines sys android (sorted cfg))).resolve_left
      (by simp [header])
  rw [hlines, List.concat_eq_append] at hline ⊢
  obtain ⟨body, rfl⟩ := hline last (by simp)
  exact ⟨lines.flatten ++ body, by simp⟩

/-- A file that was written says what the network mode is. -/
theorem valuesOf_netMode_save (cfg : DsConfig) :
    valuesOf .netMode (dsConfigSave sys android cfg) ≠ [] := by
  have hvalue (mode : NetMode) : IsValue .netMode (netModeText mode) := by
    cases mode with
    | _ => exact ⟨by unfold IsTrimmed; decide, by decide, by decide⟩
  have hmem : keyLine .netMode (netModeText (cfg.value .netMode)) ∈
      header ++ knownLines sys android (sorted cfg) := by
    refine List.mem_append_right _ (List.mem_filterMap.2 ⟨.netMode, by decide, ?_⟩)
    rw [← value_sorted (by decide : Key.netMode ≠ .binds)]
    rfl
  have hread := (hvalue (cfg.value .netMode)).valueIn (k := .netMode)
  rw [if_pos rfl, Option.toList_some] at hread
  obtain ⟨piece, hpiece, hval⟩ := List.mem_filterMap.1 (hread ▸ List.mem_singleton_self _)
  refine List.ne_nil_of_mem (List.mem_filterMap.2 ⟨piece, ?_, hval⟩)
  rw [dsConfigSave_eq, dsConfigSerializeKnown, fileLines_flatten_append (serialized_line _)]
  exact List.mem_append_left _ (List.mem_flatMap.2 ⟨_, hmem, hpiece⟩)

/-- A file that was written is not written again. -/
theorem reload_dsConfigSave (cfg : DsConfig) :
    reload sys android (dsConfigSave sys android cfg) = dsConfigSave sys android cfg := by
  have hvalues (k : Key) :
      (dsConfigLoad sys (dsConfigSave sys android cfg) defaults).value k =
        (dsConfigLoad sys (dsConfigSave sys android cfg) zeroed).value k :=
    (dsConfigLoad_zeroed fun _ => valuesOf_netMode_save cfg).symm
  have hskip : isSkipped sys android (dsConfigSave sys android cfg)
      (dsConfigLoad sys (dsConfigSave sys android cfg) defaults) = true :=
    decide_eq_true (dsConfigSerializeKnown_congr (sorted_congr hvalues))
  rw [reload, fileAfterSave, if_pos hskip]

/-- **The unknown lines of a file survive exactly if they are not cut**; and once the file is written,
loading and saving it again does not change it any more. -/
theorem survives_iff (text : Text) {base cfg : DsConfig}
    (hload : cfg.unknown = (dsConfigLoadRaw sys text base).unknown) :
    (IsUncut text → Survives sys android text cfg) ∧
      ('\x00' ∉ text → (Survives sys android text cfg ↔ IsUncut text)) ∧
      ∀ n, (reload sys android)^[n] (dsConfigSave sys android cfg) =
        dsConfigSave sys android cfg := by
  rw [dsConfigLoadRaw_unknown] at hload
  have hsurvives : Survives sys android text cfg ↔
      textLines (keptPieces text).flatten = unknownLines text := by
    rw [Survives, hload]
    exact and_iff_right (hload ▸ exists_front cfg)
  refine ⟨fun h => hsurvives.2 h.textLines_kept, fun hnul => hsurvives.trans
    ⟨IsUncut.of_textLines_kept hnul, IsUncut.textLines_kept⟩, fun n => ?_⟩
  exact Function.iterate_fixed (reload_dsConfigSave cfg) n

end Reload

def appFile : Text := "run_at_boot=1\nhostname=web\nuse_sparse_image=0".toList

theorem survives_appFile :
    Survives plainSystem false appFile (dsConfigLoadRaw plainSystem appFile defaults) :=
  (@survives_iff plainSystem false appFile defaults _ rfl).1
    ⟨by decide +kernel, by decide +kernel, by decide +kernel, by decide +kernel⟩

def noteKey : Text := "note".toList

def longValue : Text := List.replicate 2042 'x'

/-- A line of 2048 bytes: the last one does not fit. -/
def longLine : Text := noteKey ++ '=' :: longValue ++ ['x']

theorem mem_longLine {c : Char} (hc : c ∈ longLine) : c ∈ noteKey ∨ c = '=' ∨ c = 'x' := by
  rcases List.mem_append.1 hc with hc | hc
  · rcases List.mem_append.1 hc with hc | hc
    · exact Or.inl hc
    · exact Or.inr ((List.mem_cons.1 hc).imp_right List.eq_of_mem_replicate)
  · exact Or.inr (Or.inr (List.mem_singleton.1 hc))

theorem not_mem_longLine {c : Char} (hkey : c ∉ noteKey) (heq : c ≠ '=') (hx : c ≠ 'x') :
    c ∉ longLine := fun hc => (mem_longLine hc).elim hkey fun h => h.elim heq hx

theorem isUnknown_longLine : isUnknown longLine = true := by
  have hkey : IsKeyText noteKey := by decide
  have hval : IsTrimmed (longValue ++ ['x']) := isTrimmed_of_forall fun c hc => by
    obtain rfl : c = 'x' :=
      (List.mem_append.1 hc).elim List.eq_of_mem_replicate List.mem_singleton.1
    decide
  have hcut : longLine = noteKey ++ '=' :: (longValue ++ ['x']) := by
    rw [longLine, List.append_assoc, List.cons_append]
  rw [isUnknown, hkey.lineEntry hval (hcut ▸ (hkey.trim_line hval).1)]
  decide

theorem not_survives_longLine : ¬ Survives plainSystem false (longLine ++ ['\n'])
    (dsConfigLoadRaw plainSystem (longLine ++ ['\n']) defaults) := by
  rintro ⟨-, hlines⟩
  rw [dsConfigLoadRaw_unknown] at hlines
  have hline : '\n' ∉ longLine := not_mem_longLine (by decide) (by decide) (by decide)
  have hnul : '\x00' ∉ longLine ++ ['\n'] := by
    rw [List.mem_append, not_or]
    exact ⟨not_mem_longLine (by decide) (by decide) (by decide), by decide⟩
  have hmem : longLine ∈ unknownLines (longLine ++ ['\n']) := by
    rw [unknownLines_cons hline, if_pos isUnknown_longLine]
    exact List.mem_cons_self
  have hlen : (noteKey ++ '=' :: longValue).length = 2047 := by
    rw [List.length_append, List.length_cons, longValue, List.length_replicate]
    rfl
  have hfront : IsPiece 2046 (noteKey ++ '=' :: longValue) :=
    ⟨List.append_ne_nil_of_right_ne_nil _ (List.cons_ne_nil _ _),
      fun hmem => hline (List.mem_append_left _ (List.dropLast_subset _ hmem)), hlen.le⟩
  have hpiece : ['x'] ∈ fileLines longLine := by
    rw [fileLines, longLine, hfront.fgets_append 2046 (Or.inr (Or.inr hlen))]
    exact List.mem_cons_of_mem _ (List.mem_singleton_self _)
  exact absurd ((IsUncut.of_textLines_kept hnul hlines).kept longLine hmem ['x'] hpiece)
    (by decide)

end Droidspaces.Config
