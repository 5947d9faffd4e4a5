import Droidspaces.Boot.GpuGroups

/-!
# The lines of the group file

The rewriting of `/etc/group` should be surgical: a line stays what it is and where it is, except
that root comes behind the users of an entry with the GID of the graphics devices, or a new entry
comes last (`IsSurgical`).

It is exactly under `IsRegular`.  The rewriting does not see the lines of the file but their pieces,
and it ends each line that it writes; so a line that is too long for the buffer may be broken, an
entry may become too long and be written to again, and a new entry may come right behind the last
line.
-/

namespace Droidspaces.GpuGroups

open Config

/-! ## What the rewriting is for -/

/-- The lines of a file; behind the last newline there is no line. -/
def groupLines (content : Text) : List Text :=
  if (content.splitOn '\n').getLast? = some [] then (content.splitOn '\n').dropLast
  else content.splitOn '\n'

/-- The GID is this number, written out. -/
def GroupEntry.hasGid (g : GroupEntry) (gid : ℕ) : Bool :=
  g.gid ≠ [] && g.gid.all Char.isDigit && leadingDigits g.gid == gid

def GroupEntry.members (g : GroupEntry) : List Text :=
  if g.users = [] then [] else g.users.splitOn ','

/-- The line is an entry with the GID of the graphics devices. -/
def isEntry (line : Text) : Bool := (parseGroup line).any fun g => g.hasGid gpuUnifiedGid

/-- It is one, and root is not a member. -/
def lacks (line : Text) : Bool :=
  (parseGroup line).any fun g => g.hasGid gpuUnifiedGid && !g.members.contains rootName

/-- The line that it should become. -/
def fixed (line : Text) : Text :=
  match parseGroup line with
  | none => line
  | some g =>
    if g.hasGid gpuUnifiedGid && !g.members.contains rootName then
      g.head ++ ':' :: [','].intercalate (g.members ++ [rootName])
    else line

structure IsSurgical (content : Text) : Prop where
  lines : groupLines (setupGpuGroups content) =
    (groupLines content).map fixed ++
      if (groupLines content).any isEntry then [] else [newEntry]
  /-- A second run changes nothing. -/
  again : setupGpuGroups (setupGpuGroups content) = setupGpuGroups content

/-! ## When it does that -/

/-- What comes last of a line when it is read. -/
def lastPiece (line : Text) : Text := line.drop (line.length / 2047 * 2047)

structure IsRegular (content : Text) : Prop where
  /-- What is written ends at a NUL. -/
  nul : '\x00' ∉ content ∨ IsSettled content
  /-- With root, an entry fits the buffer. -/
  room : ∀ piece ∈ fileLines content, lacksRoot piece = true → (withRoot piece).length ≤ 2047
  /-- The last piece of a line is taken for what the line is. -/
  ends : ∀ line ∈ groupLines content, lacksRoot (lastPiece line) = lacks line ∧
    (lacks line = true → (usersOf (lastPiece line) = [] ↔ usersOf line = []))
  /-- A piece is taken for an entry if there is one. -/
  found : (∃ piece ∈ fileLines content, isUnified piece = true) ↔
    ∃ line ∈ groupLines content, isEntry line = true
  /-- A new entry comes behind a newline. -/
  newline : (∃ piece ∈ fileLines content, isUnified piece = true) ∨ content = [] ∨
    content.getLast? = some '\n'

/-! ## Lines -/

@[simp] theorem groupLines_nil : groupLines [] = [] := rfl

theorem groupLines_cons {line : Text} (h : '\n' ∉ line) (rest : Text) :
    groupLines (line ++ '\n' :: rest) = line :: groupLines rest := by
  unfold groupLines
  rw [List.splitOn_append_cons_self_of_not_mem h]
  obtain ⟨field, fields, hfields⟩ := List.exists_cons_of_ne_nil (List.splitOn_ne_nil '\n' rest)
  rw [hfields, List.getLast?_cons_cons, List.dropLast_cons_cons]
  split
  · rfl
  · rfl

theorem groupLines_last {line : Text} (hne : line ≠ []) (h : '\n' ∉ line) :
    groupLines line = [line] := by
  unfold groupLines
  rw [List.splitOn_eq_singleton h]
  simp [hne]

theorem exists_groupLines_of_mem {content : Text} {c : Char} (hc : c ∈ content) (hne : c ≠ '\n') :
    ∃ line ∈ groupLines content, c ∈ line := by
  induction content using lineInduction '\n' with
  | last line h =>
    rw [groupLines_last (List.ne_nil_of_mem hc) h]
    exact ⟨line, List.mem_singleton_self _, hc⟩
  | cons line rest h ih =>
    rw [groupLines_cons h]
    rcases List.mem_append.1 hc with hc | hc
    · exact ⟨line, List.mem_cons_self, hc⟩
    · obtain ⟨l, hl, hc⟩ := ih ((List.mem_cons.1 hc).resolve_left hne)
      exact ⟨l, List.mem_cons_of_mem _ hl, hc⟩

theorem mem_of_mem_groupLines {content line : Text} (h : line ∈ groupLines content) :
    line ⊆ content ∧ '\n' ∉ line := by
  induction content using lineInduction '\n' with
  | last last hlast =>
    by_cases hne : last = []
    · rw [hne] at h
      cases h
    · rw [groupLines_last hne hlast, List.mem_singleton] at h
      subst h
      exact ⟨List.Subset.refl _, hlast⟩
  | cons first rest hfirst ih =>
    rw [groupLines_cons hfirst] at h
    rcases List.mem_cons.1 h with rfl | h
    · exact ⟨List.subset_append_left _ _, hfirst⟩
    · exact ⟨fun c hc => List.mem_append_right _ (List.mem_cons_of_mem _ ((ih h).1 hc)), (ih h).2⟩

/-! ## The line that an entry should become -/

theorem isEntry_of_lacks {line : Text} (h : lacks line = true) : isEntry line = true := by
  unfold lacks at h
  unfold isEntry
  rw [Option.any_eq_true] at h ⊢
  obtain ⟨g, hg, hlacks⟩ := h
  rw [Bool.and_eq_true] at hlacks
  exact ⟨g, hg, hlacks.1⟩

theorem fixed_of_not {line : Text} (h : lacks line = false) : fixed line = line := by
  unfold lacks at h
  unfold fixed
  cases hg : parseGroup line with
  | none => rfl
  | some g =>
    rw [hg, Option.any_some] at h
    exact if_neg (Bool.eq_false_iff.1 h)

theorem intercalate_concat {fields : List Text} (h : fields ≠ []) (c : Char) (last : Text) :
    [c].intercalate (fields ++ [last]) = [c].intercalate fields ++ c :: last := by
  induction fields with
  | nil => exact absurd rfl h
  | cons field fields ih =>
    cases fields with
    | nil => simp [List.intercalate]
    | cons field' fields =>
      rw [List.cons_append, List.cons_append, List.intercalate_cons_cons, ← List.cons_append,
        ih (List.cons_ne_nil _ _), List.intercalate_cons_cons]
      simp

theorem intercalate_members (g : GroupEntry) :
    [','].intercalate (g.members ++ [rootName]) = g.users ++ rootSuffix g.users := by
  unfold GroupEntry.members rootSuffix
  split
  · next h => simp [h, List.intercalate]
  · rw [intercalate_concat (List.splitOn_ne_nil _ _), List.intercalate_splitOn]

theorem fixed_of_lacks {line : Text} (h : lacks line = true) :
    ∃ g, parseGroup line = some g ∧ fixed line = line ++ rootSuffix g.users := by
  unfold lacks at h
  obtain ⟨g, hg, hlacks⟩ := (Option.any_eq_true _ _).1 h
  obtain ⟨-, -, -, -, -, -, hline⟩ := parseGroup_eq_some_iff.1 hg
  refine ⟨g, hg, ?_⟩
  unfold fixed
  rw [hg]
  simp only
  rw [if_pos hlacks, intercalate_members, hline, List.append_assoc, List.cons_append]

theorem length_rootSuffix_le (users : Text) : (rootSuffix users).length ≤ 5 := by
  unfold rootSuffix
  split <;> decide

theorem fixed_eq_append (line : Text) : ∃ more : Text, fixed line = line ++ more ∧
    more.length ≤ 5 ∧ (more = [] ↔ lacks line = false) := by
  cases h : lacks line with
  | false => exact ⟨[], by rw [fixed_of_not h, List.append_nil], Nat.zero_le _, by simp⟩
  | true =>
    obtain ⟨g, -, hfixed⟩ := fixed_of_lacks h
    have hpos := length_rootSuffix g.users
    refine ⟨_, hfixed, length_rootSuffix_le _, iff_of_false (fun hnil => ?_) (by simp)⟩
    rw [hnil] at hpos
    cases hpos

theorem rootSuffix_inj {users users' : Text} :
    rootSuffix users = rootSuffix users' ↔ (users = [] ↔ users' = []) := by
  have hne : rootName ≠ ',' :: rootName := by decide
  unfold rootSuffix
  by_cases h : users = []
  · by_cases h' : users' = []
    · simp [h, h']
    · simp [h, h', hne]
  · by_cases h' : users' = []
    · simp [h, h', hne.symm]
    · simp [h, h']

/-! ## The pieces of a line -/

/-- A line is read in pieces that are full, and what is left comes with the newline. -/
theorem fileLines_line {line : Text} (h : '\n' ∉ line) :
    ∃ front : List Text, line = front.flatten ++ lastPiece line ∧ (∀ p ∈ front, p.length = 2047) ∧
      fileLines (line ++ ['\n']) = front ++ [lastPiece line ++ ['\n']] ∧
      fileLines line = front ++ if lastPiece line = [] then [] else [lastPiece line] := by
  induction hlen : line.length using Nat.strong_induction_on generalizing line with
  | _ m ih =>
    by_cases hfits : line.length ≤ 2046
    · have hlast : lastPiece line = line := by
        rw [lastPiece, Nat.div_eq_of_lt (by omega), Nat.zero_mul, List.drop_zero]
      rw [hlast]
      refine ⟨[], rfl, by simp, fgets_line 2046 h hfits, ?_⟩
      split
      · next hnil => rw [hnil, fileLines, fgets]; rfl
      · next hne => exact fgets_eq_singleton hne h (by omega)
    · obtain ⟨first, rest, hfirst, rfl⟩ : ∃ first rest, first.length = 2047 ∧
          line = first ++ rest :=
        ⟨line.take 2047, line.drop 2047, List.length_take_of_le (by omega),
          (List.take_append_drop _ _).symm⟩
      rw [List.mem_append, not_or] at h
      have hpiece : IsPiece 2046 first :=
        ⟨List.ne_nil_of_length_pos (by omega), fun hmem => h.1 (List.dropLast_subset _ hmem),
          hfirst.le⟩
      have hcut (t : Text) : fileLines (first ++ t) = first :: fileLines t :=
        hpiece.fgets_append 2046 (Or.inr (Or.inr hfirst))
      have hlast : lastPiece (first ++ rest) = lastPiece rest := by
        have hdiv : (2047 + rest.length) / 2047 * 2047 = 2047 + rest.length / 2047 * 2047 := by
          omega
        rw [lastPiece, List.length_append, hfirst, hdiv, ← hfirst, List.drop_length_add_append,
          hfirst, lastPiece]
      rw [List.length_append, hfirst] at hlen
      obtain ⟨front, hrest, hfull, hend, hread⟩ := ih rest.length (by omega) h.2 rfl
      rw [hlast, List.append_assoc, hcut, hcut, hend, hread]
      refine ⟨first :: front, ?_, List.forall_mem_cons.2 ⟨hfirst, hfull⟩, rfl, rfl⟩
      rw [List.flatten_cons, List.append_assoc, ← hrest]

/-- What is written behind a line. -/
def addition (line : Text) : Text :=
  if lacksRoot (lastPiece line) then rootSuffix (usersOf (lastPiece line)) else []

theorem not_mem_addition (line : Text) : '\n' ∉ addition line := by
  unfold addition
  split
  · exact not_mem_rootSuffix _ (Or.inl rfl)
  · exact List.not_mem_nil

/-- With root, every entry fits the buffer. -/
def HasRoom (content : Text) : Prop :=
  ∀ piece ∈ fileLines content, lacksRoot piece = true → (withRoot piece).length ≤ 2047

theorem written_cons (line rest : Text) :
    written (line ++ '\n' :: rest) = written (line ++ ['\n']) ++ written rest := by
  unfold written
  rw [← List.flatMap_append]
  exact congrArg _ (fgets_append 2046 line rest 2046)

section Line

variable {line : Text} (hnul : '\x00' ∉ line) (hline : '\n' ∉ line)
include hnul hline

/-- Root is not written into the middle of a line. -/
theorem flatMap_writePiece_full {front : List Text} (hsub : ∀ p ∈ front, p ⊆ line)
    (hfull : ∀ p ∈ front, p.length = 2047)
    (hroom : ∀ p ∈ front, lacksRoot p = true → (withRoot p).length ≤ 2047) :
    front.flatMap writePiece = front.flatten := by
  rw [← List.flatMap_id]
  refine List.flatMap_congr fun p hp => ?_
  have hpnul : '\x00' ∉ p := fun hmem => hnul (hsub p hp hmem)
  refine writePiece_of_not hpnul (Bool.eq_false_iff.2 fun hlacks => ?_)
  have hlen := hroom p hp hlacks
  have hcopy := lineCopy_eq_self hpnul fun hmem => hline (hsub p hp hmem)
  have hpos := length_rootSuffix (usersOf p)
  rw [withRoot_eq (hfull p hp).le hlacks, hcopy, List.length_append, hfull p hp] at hlen
  omega

theorem writePiece_lastPiece :
    writePiece (lastPiece line ++ ['\n']) = lastPiece line ++ addition line ++ ['\n'] ∧
      writePiece (lastPiece line) =
        lastPiece line ++ addition line ++ if lacksRoot (lastPiece line) then ['\n'] else [] := by
  have hsub : lastPiece line ⊆ line := List.drop_subset _ _
  have hlast : '\n' ∉ lastPiece line := fun hmem => hline (hsub hmem)
  have hlastnul : '\x00' ∉ lastPiece line := fun hmem => hnul (hsub hmem)
  have hlen : (lastPiece line).length ≤ 2047 := by
    rw [lastPiece, List.length_drop]
    omega
  obtain ⟨-, hlacks, hroot⟩ := decided_newline hlast
  unfold writePiece addition
  rw [hlacks, hroot]
  split
  · next h =>
    rw [withRoot_eq hlen h, lineCopy_eq_self hlastnul hlast]
    exact ⟨rfl, rfl⟩
  · rw [cString_eq_self hlastnul, cString_eq_self (by simpa using hlastnul)]
    simp

/-- **What is written for a line.** -/
theorem written_newline (hroom : HasRoom (line ++ ['\n'])) :
    written (line ++ ['\n']) = line ++ addition line ++ ['\n'] := by
  obtain ⟨front, hfront, hfull, hread, -⟩ := fileLines_line hline
  have hsub : ∀ p ∈ front, p ⊆ line := fun p hp c hc =>
    hfront ▸ List.mem_append_left _ (List.mem_flatten_of_mem hp hc)
  have hroom' : ∀ p ∈ front, lacksRoot p = true → (withRoot p).length ≤ 2047 := fun p hp =>
    hroom p (by rw [hread]; exact List.mem_append_left _ hp)
  rw [written, hread, List.flatMap_append, flatMap_writePiece_full hnul hline hsub hfull hroom',
    List.flatMap_singleton, (writePiece_lastPiece hnul hline).1, ← List.append_assoc,
    ← List.append_assoc, ← hfront]

theorem written_last (hroom : HasRoom line) :
    written line = line ++ addition line ∨ written line = line ++ addition line ++ ['\n'] := by
  obtain ⟨front, hfront, hfull, -, hread⟩ := fileLines_line hline
  have hsub : ∀ p ∈ front, p ⊆ line := fun p hp c hc =>
    hfront ▸ List.mem_append_left _ (List.mem_flatten_of_mem hp hc)
  have hroom' : ∀ p ∈ front, lacksRoot p = true → (withRoot p).length ≤ 2047 := fun p hp =>
    hroom p (by rw [hread]; exact List.mem_append_left _ hp)
  rw [written, hread, List.flatMap_append, flatMap_writePiece_full hnul hline hsub hfull hroom']
  by_cases hlast : lastPiece line = []
  · have hnone : addition line = [] := by
      rw [addition, hlast]
      decide
    have hself : front.flatten = line := by rw [hlast, List.append_nil] at hfront; exact hfront.symm
    rw [if_pos hlast, hnone, hself, List.flatMap_nil]
    exact Or.inl rfl
  · rw [if_neg hlast, List.flatMap_singleton, (writePiece_lastPiece hnul hline).2,
      ← List.append_assoc, ← List.append_assoc, ← hfront]
    split
    · exact Or.inr rfl
    · exact Or.inl (List.append_nil _)

end Line

theorem groupLines_written {content : Text} (hnul : '\x00' ∉ content) (hroom : HasRoom content) :
    groupLines (written content) =
      (groupLines content).map fun line => line ++ addition line := by
  induction content using lineInduction '\n' with
  | last line hline =>
    by_cases hne : line = []
    · subst hne
      rfl
    · have hfree : '\n' ∉ line ++ addition line := by
        rw [List.mem_append, not_or]
        exact ⟨hline, not_mem_addition line⟩
      have hne' : line ++ addition line ≠ [] := fun hnil => hne (List.append_eq_nil_iff.1 hnil).1
      rw [groupLines_last hne hline, List.map_singleton]
      rcases written_last hnul hline hroom with heq | heq
      · rw [heq, groupLines_last hne' hfree]
      · rw [heq, groupLines_cons hfree, groupLines_nil]
  | cons line rest hline ih =>
    have hfree : '\n' ∉ line ++ addition line := by
      rw [List.mem_append, not_or]
      exact ⟨hline, not_mem_addition line⟩
    have hread : fileLines (line ++ '\n' :: rest) = fileLines (line ++ ['\n']) ++ fileLines rest :=
      fgets_append 2046 line rest 2046
    rw [List.mem_append, List.mem_cons, not_or, not_or] at hnul
    have hroom' : HasRoom (line ++ ['\n']) ∧ HasRoom rest := by
      constructor
      · exact fun p hp => hroom p (by rw [hread]; exact List.mem_append_left _ hp)
      · exact fun p hp => hroom p (by rw [hread]; exact List.mem_append_right _ hp)
    rw [written_cons, written_newline hnul.1 hline hroom'.1, List.append_assoc,
      List.singleton_append, groupLines_cons hfree, ih hnul.2.2 hroom'.2, groupLines_cons hline,
      List.map_cons]

/-! ## A file that is left as it is -/

/-- Where a line ends, a piece of the file ends. -/
theorem exists_piece_of_lastPiece {content line : Text} (h : line ∈ groupLines content)
    (hlacks : lacksRoot (lastPiece line) = true) :
    ∃ piece ∈ fileLines content, lacksRoot piece = true := by
  have hend {l : Text} (hl : '\n' ∉ l) :
      lacksRoot (lastPiece l ++ ['\n']) = lacksRoot (lastPiece l) :=
    (decided_newline fun hmem => hl (List.drop_subset _ _ hmem)).2.1
  induction content using lineInduction '\n' with
  | last last hlast =>
    by_cases hne : last = []
    · rw [hne] at h
      cases h
    · rw [groupLines_last hne hlast, List.mem_singleton] at h
      subst h
      obtain ⟨front, -, -, -, hread⟩ := fileLines_line hlast
      have hne' : lastPiece line ≠ [] := fun hnil => by
        rw [hnil] at hlacks
        exact absurd hlacks (by decide)
      rw [hread, if_neg hne']
      exact ⟨_, List.mem_append_right _ (List.mem_singleton_self _), hlacks⟩
  | cons first rest hfirst ih =>
    have hread : fileLines (first ++ '\n' :: rest) =
        fileLines (first ++ ['\n']) ++ fileLines rest :=
      fgets_append 2046 first rest 2046
    rw [groupLines_cons hfirst] at h
    rw [hread]
    rcases List.mem_cons.1 h with rfl | h
    · obtain ⟨front, -, -, hread, -⟩ := fileLines_line hfirst
      refine ⟨lastPiece line ++ ['\n'], ?_, (hend hfirst).trans hlacks⟩
      rw [hread]
      exact List.mem_append_left _ (List.mem_append_right _ (List.mem_singleton_self _))
    · obtain ⟨piece, hpiece, hlacks⟩ := ih h
      exact ⟨piece, List.mem_append_right _ hpiece, hlacks⟩

theorem IsSettled.lastPiece {content line : Text} (h : IsSettled content)
    (hline : line ∈ groupLines content) : lacksRoot (lastPiece line) = false := by
  refine Bool.eq_false_iff.2 fun hlacks => ?_
  obtain ⟨piece, hpiece, hlacks⟩ := exists_piece_of_lastPiece hline hlacks
  rw [h.2 piece hpiece] at hlacks
  cases hlacks

/-- If only the lines themselves are in the result, there is an entry already. -/
theorem any_isEntry_of_length {content : Text} {lines : List Text}
    (hlen : lines.length = (groupLines content).length)
    (h : lines = (groupLines content).map fixed ++
      if (groupLines content).any isEntry then [] else [newEntry]) :
    (groupLines content).any isEntry = true ∧ lines = (groupLines content).map fixed := by
  cases hany : (groupLines content).any isEntry with
  | true =>
    rw [hany, if_pos rfl, List.append_nil] at h
    exact ⟨rfl, h⟩
  | false =>
    rw [hany] at h
    rw [h] at hlen
    simp at hlen

theorem isSurgical_iff_of_settled {content : Text} (h : IsSettled content) :
    IsSurgical content ↔ IsRegular content := by
  constructor
  · intro hsurgical
    have hlines := hsurgical.lines
    rw [setupGpuGroups_of_settled h] at hlines
    obtain ⟨hany, hfixed⟩ := any_isEntry_of_length rfl hlines
    refine ⟨Or.inr h, fun piece hpiece hlacks => ?_, fun line hline => ?_,
      iff_of_true h.1 (List.any_eq_true.1 hany), Or.inl h.1⟩
    · rw [h.2 piece hpiece] at hlacks
      cases hlacks
    · have hself : fixed line = line :=
        List.map_inj_left.1 (hfixed.symm.trans (List.map_id _).symm) line hline
      obtain ⟨more, heq, -, hnone⟩ := fixed_eq_append line
      have hnil : more = [] := List.append_right_eq_self.1 (heq.symm.trans hself)
      have hlacks := hnone.1 hnil
      rw [h.lastPiece hline, hlacks]
      exact ⟨rfl, fun h => by cases h⟩
  · intro hregular
    have hany := List.any_eq_true.2 (hregular.found.1 h.1)
    refine ⟨?_, by rw [setupGpuGroups_of_settled h, setupGpuGroups_of_settled h]⟩
    rw [setupGpuGroups_of_settled h, hany, if_pos rfl, List.append_nil]
    have hself : ∀ line ∈ groupLines content, fixed line = line := fun line hline =>
      fixed_of_not ((hregular.ends line hline).1.symm.trans (h.lastPiece hline))
    exact ((List.map_congr_left hself).trans (List.map_id'' (fun _ => rfl) _)).symm

/-! ## A file that is rewritten -/

section Rewritten

variable {content : Text} (hsettled : ¬ IsSettled content)
include hsettled

theorem not_nul_mem_setupGpuGroups : '\x00' ∉ setupGpuGroups content := by
  have hpiece := (isPiece_of_mem_fgets 2046 content).1
  rw [setupGpuGroups_of_not hsettled, List.mem_append, not_or]
  constructor
  · intro hmem
    obtain ⟨piece, hp, hmem⟩ := List.mem_flatMap.1 hmem
    unfold writePiece at hmem
    split at hmem
    · next hlacks =>
      rcases List.mem_append.1 hmem with hmem | hmem
      · exact (not_mem_withRoot (hpiece piece hp) hlacks).1 hmem
      · exact absurd hmem (by decide)
    · simpa [cString] using List.mem_takeWhile_imp hmem
  · split
    · exact List.not_mem_nil
    · decide

/-- What stands behind a NUL is lost. -/
theorem not_isSurgical_of_nul (hnul : '\x00' ∈ content) : ¬ IsSurgical content := by
  intro h
  obtain ⟨line, hline, hmem⟩ := exists_groupLines_of_mem hnul (by decide)
  obtain ⟨more, hfixed, -, -⟩ := fixed_eq_append line
  have hout : fixed line ∈ groupLines (setupGpuGroups content) := by
    rw [h.lines]
    exact List.mem_append_left _ (List.mem_map_of_mem hline)
  refine not_nul_mem_setupGpuGroups hsettled ((mem_of_mem_groupLines hout).1 ?_)
  rw [hfixed]
  exact List.mem_append_left _ hmem

end Rewritten

/-- The line gets what it should get. -/
theorem append_addition_eq_iff {line : Text} (hnul : '\x00' ∉ line) (hline : '\n' ∉ line) :
    line ++ addition line = fixed line ↔ lacksRoot (lastPiece line) = lacks line ∧
      (lacks line = true → (usersOf (lastPiece line) = [] ↔ usersOf line = [])) := by
  unfold addition
  cases h : lacks line with
  | false =>
    rw [fixed_of_not h, List.append_right_eq_self]
    cases hlast : lacksRoot (lastPiece line) with
    | false => simp
    | true =>
      have hpos := length_rootSuffix (usersOf (lastPiece line))
      rw [if_pos rfl]
      refine iff_of_false (fun hnil => ?_) (by simp)
      rw [hnil] at hpos
      cases hpos
  | true =>
    obtain ⟨g, hg, hfixed⟩ := fixed_of_lacks h
    have husers : usersOf line = g.users := by
      rw [usersOf, lineCopy_eq_self hnul hline, hg]
      rfl
    rw [hfixed, List.append_cancel_left_eq, husers]
    cases hlast : lacksRoot (lastPiece line) with
    | false =>
      have hpos := length_rootSuffix g.users
      refine iff_of_false (fun hnil => ?_) (by simp)
      rw [← hnil] at hpos
      cases hpos
    | true =>
      rw [if_pos rfl, rootSuffix_inj]
      simp

/-- With an entry in the file, and something to write. -/
theorem isSurgical_iff_of_found {content : Text} (hnul : '\x00' ∉ content)
    (hsettled : ¬ IsSettled content) (hfound : (fileLines content).any isUnified = true) :
    IsSurgical content ↔ IsRegular content := by
  have hwritten : setupGpuGroups content = written content := by
    rw [setupGpuGroups_of_not hsettled, hfound, if_pos rfl, List.append_nil]
  have hnul' : '\x00' ∉ written content := hwritten ▸ not_nul_mem_setupGpuGroups hsettled
  have hagain : setupGpuGroups (setupGpuGroups content) = setupGpuGroups content ↔
      HasRoom content := by
    rw [hwritten, setupGpuGroups_eq_self_iff hnul']
    constructor
    · intro h piece hpiece hlacks
      by_contra hlen
      obtain ⟨q, hq, hqlacks⟩ := (lacksRoot_written_iff hnul).2
        ⟨piece, hpiece, hlacks, Nat.lt_of_not_le hlen⟩
      rw [h.2 q hq] at hqlacks
      cases hqlacks
    · intro hroom
      refine ⟨isUnified_written hnul (List.any_eq_true.1 hfound), fun q hq => ?_⟩
      refine Bool.eq_false_iff.2 fun hlacks => ?_
      obtain ⟨p, hp, hlacks, hlen⟩ := (lacksRoot_written_iff hnul).1 ⟨q, hq, hlacks⟩
      exact Nat.not_lt.2 (hroom p hp hlacks) hlen
  have hlineof : ∀ line ∈ groupLines content,
      (line ++ addition line = fixed line ↔ lacksRoot (lastPiece line) = lacks line ∧
        (lacks line = true → (usersOf (lastPiece line) = [] ↔ usersOf line = []))) := by
    intro line hline
    obtain ⟨hsub, hfree⟩ := mem_of_mem_groupLines hline
    exact append_addition_eq_iff (fun hmem => hnul (hsub hmem)) hfree
  constructor
  · intro h
    have hroom := hagain.1 h.again
    have hlines := h.lines
    rw [hwritten, groupLines_written hnul hroom] at hlines
    obtain ⟨hany, hmap⟩ := any_isEntry_of_length (List.length_map _) hlines
    exact ⟨Or.inl hnul, hroom,
      fun line hline => (hlineof line hline).1 (List.map_inj_left.1 hmap line hline),
      iff_of_true (List.any_eq_true.1 hfound) (List.any_eq_true.1 hany),
      Or.inl (List.any_eq_true.1 hfound)⟩
  · intro h
    have hany := List.any_eq_true.2 (h.found.1 (List.any_eq_true.1 hfound))
    refine ⟨?_, hagain.2 h.room⟩
    rw [hwritten, groupLines_written hnul h.room, hany, if_pos rfl, List.append_nil]
    exact List.map_congr_left fun line hline => (hlineof line hline).2 (h.ends line hline)

/-! ## A file without an entry -/

theorem groupLines_newEntry {content : Text} (h : content = [] ∨ content.getLast? = some '\n') :
    groupLines (content ++ (newEntry ++ ['\n'])) = groupLines content ++ [newEntry] := by
  have hfree : '\n' ∉ newEntry := by decide
  induction content using lineInduction '\n' with
  | last line hline =>
    have hnil : line = [] := h.resolve_right fun hlast => hline (List.mem_of_getLast? hlast)
    rw [hnil, List.nil_append, groupLines_cons hfree]
    rfl
  | cons line rest hline ih =>
    have hrest : rest = [] ∨ rest.getLast? = some '\n' := by
      cases rest with
      | nil => exact Or.inl rfl
      | cons c rest =>
        refine Or.inr ?_
        have hlast := h.resolve_left (by simp)
        rwa [List.getLast?_append_of_ne_nil _ (List.cons_ne_nil _ _),
          List.getLast?_cons_cons] at hlast
    rw [List.append_assoc, List.cons_append, groupLines_cons hline, ih hrest,
      groupLines_cons hline, List.cons_append]

/-- A last line without a newline does not stay a line of its own. -/
theorem groupLines_glued {content : Text} (hne : content ≠ [])
    (h : content.getLast? ≠ some '\n') :
    ∃ lines last, groupLines content = lines ++ [last] ∧
      groupLines (content ++ (newEntry ++ ['\n'])) = lines ++ [last ++ newEntry] := by
  have hfree : '\n' ∉ newEntry := by decide
  induction content using lineInduction '\n' with
  | last line hline =>
    have hfree' : '\n' ∉ line ++ newEntry := by
      rw [List.mem_append, not_or]
      exact ⟨hline, hfree⟩
    refine ⟨[], line, groupLines_last hne hline, ?_⟩
    rw [← List.append_assoc, groupLines_cons hfree']
    rfl
  | cons line rest hline ih =>
    cases rest with
    | nil => exact absurd List.getLast?_concat h
    | cons c rest =>
      rw [List.getLast?_append_of_ne_nil _ (List.cons_ne_nil _ _), List.getLast?_cons_cons] at h
      obtain ⟨lines, last, hlines, hglued⟩ := ih (List.cons_ne_nil _ _) h
      refine ⟨line :: lines, last, ?_, ?_⟩
      · rw [groupLines_cons hline, hlines, List.cons_append]
      · rw [List.append_assoc, List.cons_append, groupLines_cons hline, hglued, List.cons_append]

theorem isSettled_newEntry {content : Text} (h : content = [] ∨ content.getLast? = some '\n')
    (hnone : ∀ piece ∈ fileLines content, lacksRoot piece = false) :
    IsSettled (content ++ (newEntry ++ ['\n'])) := by
  have hentry : fileLines (newEntry ++ ['\n']) = [newEntry ++ ['\n']] := by decide +kernel
  have hread : fileLines (content ++ (newEntry ++ ['\n'])) =
      fileLines content ++ [newEntry ++ ['\n']] := by
    rcases List.eq_nil_or_concat content with rfl | ⟨body, last, rfl⟩
    · rw [List.nil_append, hentry, fileLines, fgets, List.nil_append]
    · rw [List.concat_eq_append] at h ⊢
      have hlast : last = '\n' := by simpa using h
      rw [hlast, List.append_assoc, List.singleton_append, ← hentry]
      exact fgets_append 2046 body _ 2046
  rw [IsSettled, hread]
  refine ⟨⟨newEntry ++ ['\n'], List.mem_append_right _ (List.mem_singleton_self _), by decide⟩,
    fun piece hpiece => ?_⟩
  rcases List.mem_append.1 hpiece with hpiece | hpiece
  · exact hnone piece hpiece
  · rw [List.mem_singleton.1 hpiece]
    decide

theorem lacksRoot_of_not_found {content : Text}
    (hfound : ¬ (fileLines content).any isUnified = true) :
    ∀ piece ∈ fileLines content, lacksRoot piece = false := fun piece hpiece =>
  Bool.eq_false_iff.2 fun hlacks =>
    hfound (List.any_eq_true.2 ⟨piece, hpiece, isUnified_of_lacksRoot hlacks⟩)

/-- The lines stay as they are, and the entry comes behind them. -/
theorem setupGpuGroups_of_not_found {content : Text} (hnul : '\x00' ∉ content)
    (hfound : ¬ (fileLines content).any isUnified = true) :
    setupGpuGroups content = content ++ (newEntry ++ ['\n']) := by
  have hsettled : ¬ IsSettled content := fun h => hfound (List.any_eq_true.2 h.1)
  have hself : (fileLines content).flatMap writePiece = (fileLines content).flatMap id :=
    List.flatMap_congr fun p hp =>
      writePiece_of_not (not_nul_mem_fileLines hnul hp) (lacksRoot_of_not_found hfound p hp)
  have hwritten : written content = content := by
    rw [written, hself, List.flatMap_id]
    exact flatten_fgets 2046 content 2046
  rw [setupGpuGroups_of_not hsettled, hwritten, if_neg hfound]

/-- Behind a line that is not ended, the entry becomes part of the line. -/
theorem not_isSurgical_of_not_ended {content : Text} (hnul : '\x00' ∉ content)
    (hfound : ¬ (fileLines content).any isUnified = true)
    (hend : ¬ (content = [] ∨ content.getLast? = some '\n')) : ¬ IsSurgical content := by
  intro h
  rw [not_or] at hend
  obtain ⟨lines, last, hlines, hglued⟩ := groupLines_glued hend.1 hend.2
  have hresult := h.lines
  rw [setupGpuGroups_of_not_found hnul hfound, hglued] at hresult
  have hlen : (lines ++ [last ++ newEntry]).length = (groupLines content).length := by
    rw [hlines, List.length_append, List.length_append]
    rfl
  obtain ⟨-, heq⟩ := any_isEntry_of_length hlen hresult
  rw [hlines, List.map_append, List.map_singleton] at heq
  have hfixed : last ++ newEntry = fixed last :=
    List.singleton_inj.1 (List.append_inj_right heq (List.length_map _).symm)
  obtain ⟨more, hmore, hshort, -⟩ := fixed_eq_append last
  rw [hmore, List.append_cancel_left_eq] at hfixed
  rw [← hfixed] at hshort
  exact absurd hshort (by decide)

theorem isSurgical_iff_of_not_found {content : Text} (hnul : '\x00' ∉ content)
    (hfound : ¬ (fileLines content).any isUnified = true) :
    IsSurgical content ↔ IsRegular content := by
  have hnone := lacksRoot_of_not_found hfound
  have hno : ¬ ∃ piece ∈ fileLines content, isUnified piece = true :=
    fun h => hfound (List.any_eq_true.2 h)
  have hresult := setupGpuGroups_of_not_found hnul hfound
  have hends : ∀ line ∈ groupLines content, lacksRoot (lastPiece line) = false := by
    intro line hline
    refine Bool.eq_false_iff.2 fun hlacks => ?_
    obtain ⟨piece, hpiece, hlacks⟩ := exists_piece_of_lastPiece hline hlacks
    rw [hnone piece hpiece] at hlacks
    cases hlacks
  by_cases hend : content = [] ∨ content.getLast? = some '\n'
  · constructor
    · intro h
      have hlines := h.lines
      rw [hresult, groupLines_newEntry hend] at hlines
      have hany : (groupLines content).any isEntry = false := by
        cases hany : (groupLines content).any isEntry with
        | false => rfl
        | true =>
          rw [hany, if_pos rfl, List.append_nil] at hlines
          have hlen := congrArg List.length hlines
          simp at hlen
      have hentry : ∀ line ∈ groupLines content, isEntry line = false := fun line hline =>
        Bool.eq_false_iff.2 (List.any_eq_false.1 hany line hline)
      refine ⟨Or.inl hnul, fun piece hpiece hlacks => ?_, fun line hline => ?_,
        iff_of_false hno ?_, Or.inr hend⟩
      · rw [hnone piece hpiece] at hlacks
        cases hlacks
      · have hlacks : lacks line = false := Bool.eq_false_iff.2 fun hlacks => by
          have hyes := isEntry_of_lacks hlacks
          rw [hentry line hline] at hyes
          cases hyes
        rw [hends line hline, hlacks]
        exact ⟨rfl, fun h => by cases h⟩
      · rintro ⟨line, hline, hyes⟩
        rw [hentry line hline] at hyes
        cases hyes
    · intro h
      have hany : (groupLines content).any isEntry = false :=
        Bool.eq_false_iff.2 fun hany => hno (h.found.2 (List.any_eq_true.1 hany))
      have hself : ∀ line ∈ groupLines content, fixed line = line := fun line hline =>
        fixed_of_not ((h.ends line hline).1.symm.trans (hends line hline))
      refine ⟨?_, ?_⟩
      · rw [hresult, groupLines_newEntry hend, hany, List.map_congr_left hself,
          List.map_id'' (fun _ => rfl)]
        rfl
      · rw [hresult]
        exact setupGpuGroups_of_settled (isSettled_newEntry hend hnone)
  · exact iff_of_false (not_isSurgical_of_not_ended hnul hfound hend)
      fun h => h.newline.elim hno hend

/-! ## When the rewriting is surgical -/

/-- **The rewriting is surgical exactly under the condition.** -/
theorem isSurgical_iff (content : Text) : IsSurgical content ↔ IsRegular content := by
  by_cases hsettled : IsSettled content
  · exact isSurgical_iff_of_settled hsettled
  · by_cases hnul : '\x00' ∈ content
    · exact iff_of_false (not_isSurgical_of_nul hsettled hnul)
        fun h => h.nul.elim (fun hnot => hnot hnul) hsettled
    · by_cases hfound : (fileLines content).any isUnified = true
      · exact isSurgical_iff_of_found hnul hsettled hfound
      · exact isSurgical_iff_of_not_found hnul hfound

/-- The last line has no newline, and the users of the new entry become the users of `root`. -/
theorem not_isSurgical_root : ¬ IsSurgical "root:x:0:".toList := by
  intro h
  have hlines := h.lines
  revert hlines
  decide +kernel

end Droidspaces.GpuGroups
