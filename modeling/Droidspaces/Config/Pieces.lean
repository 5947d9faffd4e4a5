import Droidspaces.Config.Built
import Droidspaces.Config.Entries

/-!
# Lines and pieces

`fgets` returns a line in one piece if the line fits the buffer.  A reader to whom the end of a line
says nothing then makes of the pieces what it would make of the lines (`flatMap_fgets`).
-/

namespace Droidspaces.Config

/-- A text is taken apart from its first line on. -/
@[elab_as_elim]
theorem lineInduction {motive : Text → Prop} (sep : Char)
    (last : ∀ line, sep ∉ line → motive line)
    (cons : ∀ line rest, sep ∉ line → motive rest → motive (line ++ sep :: rest)) (text : Text) :
    motive text := by
  induction hlen : text.length using Nat.strong_induction_on generalizing text with
  | _ m ih =>
    by_cases hmem : sep ∈ text
    · obtain ⟨line, rest, rfl, hline⟩ := List.eq_append_cons_of_mem hmem
      refine cons line rest hline (ih rest.length ?_ rest rfl)
      rw [← hlen, List.length_append, List.length_cons]
      omega
    · exact last text hmem

theorem isInfix_of_mem_splitOn {c : Char} {text field : Text} (h : field ∈ text.splitOn c) :
    field <:+: text := by
  induction text using lineInduction c with
  | last line hline =>
    rw [List.splitOn_eq_singleton hline] at h
    rw [List.mem_singleton.1 h]
  | cons line rest hline ih =>
    rw [List.splitOn_append_cons_self_of_not_mem hline] at h
    rcases List.mem_cons.1 h with rfl | h
    · exact (List.prefix_append _ _).isInfix
    · exact (ih h).trans ((List.suffix_cons c rest).trans (List.suffix_append line _)).isInfix

theorem subset_of_mem_tokens {t u : Text} (h : u ∈ tokens t) : u ⊆ t :=
  (isInfix_of_mem_splitOn (List.mem_filter.1 h).1).subset

theorem cString_append_nul {front : Text} (h : '\x00' ∉ front) (rest : Text) :
    cString (front ++ '\x00' :: rest) = front := by
  have hpos : ∀ c ∈ front, (c != '\x00') = true :=
    fun c hc => bne_iff_ne.2 fun heq => h (heq ▸ hc)
  rw [cString, List.takeWhile_append_of_pos hpos]
  simp

/-- The end of a line is seen, unless there is a NUL before it. -/
theorem cString_newline (line : Text) :
    cString (line ++ ['\n']) = cString line ∨
      cString (line ++ ['\n']) = line ++ ['\n'] ∧ cString line = line := by
  by_cases hnul : '\x00' ∈ line
  · obtain ⟨front, rest, rfl, hfront⟩ := List.eq_append_cons_of_mem hnul
    rw [List.append_assoc, List.cons_append, cString_append_nul hfront, cString_append_nul hfront]
    exact Or.inl rfl
  · exact Or.inr ⟨cString_eq_self (by simpa using hnul), cString_eq_self hnul⟩

theorem fgets_eq_singleton {n : ℕ} {line : Text} (hne : line ≠ []) (hline : '\n' ∉ line)
    (hlen : line.length ≤ n + 1) : fgets n line n = [line] := by
  have hpiece : IsPiece n line := ⟨hne, fun h => hline (List.dropLast_subset line h), hlen⟩
  have hread := @IsPiece.fgets_append n _ _ hpiece [] (Or.inl rfl)
  rwa [List.append_nil, show fgets n [] n = [] by rw [fgets]] at hread

/-- A line comes in its pieces, and its end in the last of them, unless that one is full. -/
theorem fgets_newline (n : ℕ) {line : Text} (hline : '\n' ∉ line) :
    (n + 1 ∣ line.length ∧ fgets n (line ++ ['\n']) n = fgets n line n ++ [['\n']]) ∨
      (¬ n + 1 ∣ line.length ∧ ∃ pieces last, fgets n line n = pieces ++ [last] ∧
        fgets n (line ++ ['\n']) n = pieces ++ [last ++ ['\n']]) := by
  induction hlen : line.length using Nat.strong_induction_on generalizing line with
  | _ m ih =>
    by_cases hfits : line.length ≤ n
    · have hread := fgets_line n hline hfits
      by_cases hne : line = []
      · subst hne
        exact Or.inl ⟨hlen ▸ Nat.dvd_zero _, by rw [hread, fgets]; rfl⟩
      · have hpos := List.length_pos_iff.2 hne
        have hdvd : ¬ n + 1 ∣ m := fun hdvd => by
          have hle := Nat.le_of_dvd (by omega) hdvd
          omega
        exact Or.inr ⟨hdvd, [], line, fgets_eq_singleton hne hline (by omega), hread⟩
    · obtain ⟨front, rest, hfront, rfl⟩ : ∃ front rest, front.length = n + 1 ∧
          line = front ++ rest :=
        ⟨line.take (n + 1), line.drop (n + 1), List.length_take_of_le (by omega),
          (List.take_append_drop _ _).symm⟩
      rw [List.mem_append, not_or] at hline
      have hne : front ≠ [] := by
        rintro rfl
        cases hfront
      have hpiece : IsPiece n front :=
        ⟨hne, fun hmem => hline.1 (List.dropLast_subset _ hmem), hfront.le⟩
      have hcut (t : Text) : fgets n (front ++ t) n = front :: fgets n t n :=
        hpiece.fgets_append n (Or.inr (Or.inr hfront))
      rw [List.length_append, hfront] at hlen
      have hdvd : n + 1 ∣ m ↔ n + 1 ∣ rest.length := by
        rw [← hlen]
        exact Nat.dvd_add_right (dvd_refl _)
      rw [hdvd, List.append_assoc, hcut, hcut]
      rcases ih rest.length (by omega) hline.2 rfl with
        ⟨hrest, hread⟩ | ⟨hrest, pieces, last, hpieces, hread⟩
      · exact Or.inl ⟨hrest, by rw [hread]; rfl⟩
      · exact Or.inr ⟨hrest, front :: pieces, last, by rw [hpieces]; rfl, by rw [hread]; rfl⟩

theorem mem_fgets_newline {n : ℕ} {line piece : Text} (h : '\n' ∉ line)
    (hpiece : piece ∈ fgets n line n) :
    piece ∈ fgets n (line ++ ['\n']) n ∨ piece ++ ['\n'] ∈ fgets n (line ++ ['\n']) n := by
  rcases fgets_newline n h with ⟨-, hread⟩ | ⟨-, pieces, last, hpieces, hread⟩
  · rw [hread]
    exact Or.inl (List.mem_append_left _ hpiece)
  · rw [hread]
    rw [hpieces] at hpiece
    rcases List.mem_append.1 hpiece with hmem | hmem
    · exact Or.inl (List.mem_append_left _ hmem)
    · rw [List.mem_singleton.1 hmem]
      exact Or.inr (List.mem_append_right _ (List.mem_singleton_self _))

/-- The pieces of a line are pieces of the text, perhaps with the end of the line. -/
theorem mem_fgets_of_mem_splitOn {n : ℕ} {text line piece : Text} (h : line ∈ text.splitOn '\n')
    (hpiece : piece ∈ fgets n line n) :
    piece ∈ fgets n text n ∨ piece ++ ['\n'] ∈ fgets n text n := by
  induction text using lineInduction '\n' with
  | last first hfirst =>
    rw [List.splitOn_eq_singleton hfirst] at h
    rw [List.mem_singleton.1 h] at hpiece
    exact Or.inl hpiece
  | cons first rest hfirst ih =>
    rw [List.splitOn_append_cons_self_of_not_mem hfirst] at h
    rw [fgets_append, List.mem_append, List.mem_append]
    rcases List.mem_cons.1 h with rfl | h
    · exact (mem_fgets_newline hfirst hpiece).imp Or.inl Or.inl
    · exact (ih h).imp Or.inr Or.inr

/-- A line that is full to the last byte leaves its end for a piece of its own. -/
theorem newline_mem_fgets {n : ℕ} {text line : Text} (h : line ∈ (text.splitOn '\n').dropLast)
    (hdvd : n + 1 ∣ line.length) : ['\n'] ∈ fgets n text n := by
  induction text using lineInduction '\n' with
  | last first hfirst =>
    rw [List.splitOn_eq_singleton hfirst] at h
    cases h
  | cons first rest hfirst ih =>
    rw [List.splitOn_append_cons_self_of_not_mem hfirst,
      List.dropLast_cons_of_ne_nil (List.splitOn_ne_nil _ _)] at h
    rw [fgets_append]
    rcases List.mem_cons.1 h with rfl | h
    · rcases fgets_newline n hfirst with ⟨-, hread⟩ | ⟨hnot, -⟩
      · rw [hread]
        simp
      · exact absurd hdvd hnot
    · exact List.mem_append_right _ (ih h)

theorem exists_line_of_mem_fgets {n : ℕ} {text piece : Text} (h : piece ∈ fgets n text n) :
    piece = ['\n'] ∨ ∃ line ∈ text.splitOn '\n', ∃ part ∈ fgets n line n,
      piece = part ∨ piece = part ++ ['\n'] := by
  induction text using lineInduction '\n' with
  | last line hline =>
    rw [List.splitOn_eq_singleton hline]
    exact Or.inr ⟨line, List.mem_singleton_self _, piece, h, Or.inl rfl⟩
  | cons line rest hline ih =>
    rw [List.splitOn_append_cons_self_of_not_mem hline]
    rw [fgets_append] at h
    rcases List.mem_append.1 h with h | h
    · rcases fgets_newline n hline with ⟨-, hread⟩ | ⟨-, pieces, last, hpieces, hread⟩
      · rw [hread] at h
        rcases List.mem_append.1 h with hmem | hmem
        · exact Or.inr ⟨line, List.mem_cons_self, piece, hmem, Or.inl rfl⟩
        · exact Or.inl (List.mem_singleton.1 hmem)
      · rw [hread] at h
        rcases List.mem_append.1 h with hmem | hmem
        · exact Or.inr ⟨line, List.mem_cons_self, piece,
            hpieces ▸ List.mem_append_left _ hmem, Or.inl rfl⟩
        · exact Or.inr ⟨line, List.mem_cons_self, last,
            hpieces ▸ List.mem_append_right _ (List.mem_singleton_self _),
            Or.inr (List.mem_singleton.1 hmem)⟩
    · exact (ih h).imp_right fun ⟨l, hl, part, hpart, heq⟩ =>
        ⟨l, List.mem_cons_of_mem _ hl, part, hpart, heq⟩

section Reader

variable {β : Type} {n : ℕ} {f : Text → List β} (hend : f ['\n'] = [])
  (hline : ∀ line, '\n' ∉ line → f (line ++ ['\n']) = f line)
include hend hline

theorem flatMap_fgets_newline {line : Text} (h : '\n' ∉ line) :
    (fgets n (line ++ ['\n']) n).flatMap f = (fgets n line n).flatMap f := by
  rcases fgets_newline n h with ⟨-, hread⟩ | ⟨-, pieces, last, hpieces, hread⟩
  · rw [hread]
    simp [hend]
  · have hlast : '\n' ∉ last := fun hmem => h <| by
      have hpiece : last ∈ fgets n line n := hpieces ▸ List.mem_append_right _ List.mem_cons_self
      exact subset_of_mem_fgets hpiece hmem
    rw [hread, hpieces]
    simp [hline last hlast]

/-- A text comes in the pieces of its lines. -/
theorem flatMap_fgets_lines (text : Text) :
    (fgets n text n).flatMap f =
      (text.splitOn '\n').flatMap fun line => (fgets n line n).flatMap f := by
  induction text using lineInduction '\n' with
  | last line h => rw [List.splitOn_eq_singleton h, List.flatMap_singleton]
  | cons line rest h ih =>
    rw [List.splitOn_append_cons_self_of_not_mem h, fgets_append, List.flatMap_append,
      flatMap_fgets_newline hend hline h, ih, List.flatMap_cons]

/-- **Pieces are read as lines.** -/
theorem flatMap_fgets (text : Text) (h : ∀ line ∈ text.splitOn '\n', line.length ≤ n + 1) :
    (fgets n text n).flatMap f = (text.splitOn '\n').flatMap f := by
  rw [flatMap_fgets_lines hend hline]
  refine List.flatMap_congr fun line hmem => ?_
  by_cases hne : line = []
  · have hnil := hline [] List.not_mem_nil
    rw [List.nil_append, hend] at hnil
    rw [hne, ← hnil, fgets]
    rfl
  · rw [fgets_eq_singleton hne (not_mem_of_mem_splitOn hmem) (h line hmem), List.flatMap_singleton]

end Reader

end Droidspaces.Config
