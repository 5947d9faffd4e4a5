import Droidspaces.Config.RoundTrip

/-!
# What `scanf` reads

The conversions that the readers of `/proc` use, on what is left of the file: `%s`, `%c` and the
numbers.  A number is first read as an integer of any size; what becomes of it in a `long long` or
an `unsigned long long` is `toLongLong` and `toULongLong`.
-/

namespace Droidspaces.Scanf

open Config

/-! ## The conversions -/

/-- The digits of a number and what is behind them. -/
def scanDigits (t : Text) : Option (ℕ × Text) :=
  if (t.takeWhile Char.isDigit).isEmpty then none
  else some (leadingDigits t, t.dropWhile Char.isDigit)

/-- `%d`, `%u` and their long forms -/
def scanInt (t : Text) : Option (ℤ × Text) :=
  match t.dropWhile isSpace with
  | '-' :: ds => (scanDigits ds).map fun r => (-(r.1 : ℤ), r.2)
  | '+' :: ds => (scanDigits ds).map fun r => ((r.1 : ℤ), r.2)
  | ds => (scanDigits ds).map fun r => ((r.1 : ℤ), r.2)

/-- `%s` -/
def scanWord (t : Text) : Option (Text × Text) :=
  match t.dropWhile isSpace with
  | [] => none
  | c :: cs => some ((c :: cs).takeWhile (!isSpace ·), (c :: cs).dropWhile (!isSpace ·))

/-- `%c` behind a blank of the format. -/
def scanChar (t : Text) : Option (Char × Text) :=
  match t.dropWhile isSpace with
  | [] => none
  | c :: cs => some (c, cs)

/-- A number that does not fit is the nearest that does. -/
def toLongLong (v : ℤ) : ℤ := max (-2 ^ 63) (min v (2 ^ 63 - 1))

/-- `ULLONG_MAX` -/
def ullongMax : ℕ := 2 ^ 64 - 1

/-- A negative number is negated as an `unsigned long long`. -/
def toULongLong (v : ℤ) : ℕ := if ullongMax < v.natAbs then ullongMax else (v % 2 ^ 64).toNat

/-- `%*s`, over and over; at the end of the file there is nothing left. -/
def skipWords : ℕ → Text → Text
  | 0, t => t
  | n + 1, t =>
    match scanWord t with
    | none => []
    | some (_, rest) => skipWords n rest

/-- `%*d`, over and over. -/
def skipInts : ℕ → Text → Option Text
  | 0, t => some t
  | n + 1, t => (scanInt t).bind fun r => skipInts n r.2

/-! ## Numbers -/

/-- How a number is printed. -/
def intText (v : ℤ) : Text := if v < 0 then '-' :: decimal v.natAbs else decimal v.natAbs

theorem intText_natCast (n : ℕ) : intText n = decimal n := by
  rw [intText, if_neg (by simp), Int.natAbs_natCast]

/-- A number ends here. -/
def NoDigitHead (t : Text) : Prop := ∀ c ∈ t.head?, c.isDigit = false

theorem noDigitHead_cons {c : Char} (hc : c.isDigit = false) (t : Text) : NoDigitHead (c :: t) := by
  rintro d ⟨⟩
  exact hc

theorem noDigitHead_dropWhile (t : Text) : NoDigitHead (t.dropWhile Char.isDigit) := by
  intro c hc
  have hne : t.dropWhile Char.isDigit ≠ [] := by
    intro hnil
    rw [hnil] at hc
    cases hc
  rw [List.head?_eq_some_head hne, Option.mem_some] at hc
  rw [← hc]
  exact List.head_dropWhile_not Char.isDigit hne

theorem NoDigitHead.takeWhile {t : Text} (ht : NoDigitHead t) : t.takeWhile Char.isDigit = [] := by
  cases t with
  | nil => rfl
  | cons c t => simp [ht c rfl]

theorem NoDigitHead.dropWhile {t : Text} (ht : NoDigitHead t) : t.dropWhile Char.isDigit = t := by
  cases t with
  | nil => rfl
  | cons c t => simp [ht c rfl]

theorem leadingDigits_decimal (n : ℕ) {t : Text} (ht : NoDigitHead t) :
    leadingDigits (decimal n ++ t) = n :=
  leadingDigits_toDigits_append n ht

theorem scanDigits_decimal (n : ℕ) {t : Text} (ht : NoDigitHead t) :
    scanDigits (decimal n ++ t) = some (n, t) := by
  have hall : ∀ c ∈ decimal n, c.isDigit = true := fun c hc => isDigit_of_mem_decimal hc
  have htake : (decimal n ++ t).takeWhile Char.isDigit = decimal n := by
    rw [List.takeWhile_append_of_pos hall, ht.takeWhile, List.append_nil]
  have hdrop : (decimal n ++ t).dropWhile Char.isDigit = t := by
    rw [List.dropWhile_append_of_pos hall, ht.dropWhile]
  have hne : ¬ (decimal n).isEmpty = true := by
    rw [List.isEmpty_iff]
    exact Nat.toDigits_ne_nil
  rw [scanDigits, htake, hdrop, if_neg hne, leadingDigits_decimal n ht]

theorem dropWhile_isSpace_intText (v : ℤ) (t : Text) :
    (intText v ++ t).dropWhile isSpace = intText v ++ t := by
  unfold intText
  split
  · rfl
  · obtain ⟨d, ds, hds, hd⟩ := decimal_eq_cons v.natAbs
    rw [hds, List.cons_append, List.dropWhile_cons_of_neg]
    simp [isSpace_of_isDigit hd]

/-- **A printed number is read back.** -/
theorem scanInt_intText (v : ℤ) {t : Text} (ht : NoDigitHead t) :
    scanInt (intText v ++ t) = some (v, t) := by
  rw [scanInt, dropWhile_isSpace_intText]
  have hread := scanDigits_decimal v.natAbs ht
  by_cases h : v < 0
  · rw [intText, if_pos h, List.cons_append]
    simp only [hread, Option.map_some]
    rw [Int.ofNat_natAbs_of_nonpos h.le, neg_neg]
  · rw [intText, if_neg h]
    obtain ⟨d, ds, hds, hd⟩ := decimal_eq_cons v.natAbs
    rw [hds, List.cons_append] at hread ⊢
    have hminus : d ≠ '-' := ne_of_isDigit hd rfl
    have hplus : d ≠ '+' := ne_of_isDigit hd rfl
    split
    · next heq => exact absurd (List.cons.inj heq).1 hminus
    · next heq => exact absurd (List.cons.inj heq).1 hplus
    · rw [hread, Option.map_some, Int.natAbs_of_nonneg (not_lt.1 h)]

theorem intText_ne_nil (v : ℤ) : intText v ≠ [] := by
  unfold intText
  split
  · exact List.cons_ne_nil _ _
  · exact Nat.toDigits_ne_nil

theorem mem_intText {v : ℤ} {c : Char} (hc : c ∈ intText v) : c = '-' ∨ c.isDigit = true := by
  unfold intText at hc
  split at hc
  · exact (List.mem_cons.1 hc).imp_right isDigit_of_mem_decimal
  · exact Or.inr (isDigit_of_mem_decimal hc)

theorem isSpace_of_mem_intText {v : ℤ} {c : Char} (hc : c ∈ intText v) : isSpace c = false := by
  rcases mem_intText hc with rfl | hc
  · rfl
  · exact isSpace_of_isDigit hc

theorem scanInt_space (t : Text) : scanInt (' ' :: t) = scanInt t := rfl

/-! ## Words -/

theorem scanWord_space (t : Text) : scanWord (' ' :: t) = scanWord t := rfl

/-- A word ends here. -/
def SpaceHead (t : Text) : Prop := ∀ c ∈ t.head?, isSpace c = true

theorem spaceHead_cons {c : Char} (hc : isSpace c = true) (t : Text) : SpaceHead (c :: t) := by
  rintro d ⟨⟩
  exact hc

theorem SpaceHead.noDigitHead {t : Text} (ht : SpaceHead t) : NoDigitHead t := by
  intro c hc
  by_contra hdigit
  have hnot := isSpace_of_isDigit (Bool.not_eq_false _ ▸ hdigit)
  rw [ht c hc] at hnot
  cases hnot

theorem scanWord_append {w : Text} (hne : w ≠ []) (hw : ∀ c ∈ w, isSpace c = false) {t : Text}
    (ht : SpaceHead t) : scanWord (w ++ t) = some (w, t) := by
  have htake : (w ++ t).takeWhile (!isSpace ·) = w := by
    rw [List.takeWhile_append_of_pos fun c hc => by simp [hw c hc]]
    cases t with
    | nil => simp
    | cons c t => simp [ht c rfl]
  have hdrop : (w ++ t).dropWhile (!isSpace ·) = t := by
    rw [List.dropWhile_append_of_pos fun c hc => by simp [hw c hc]]
    cases t with
    | nil => simp
    | cons c t => simp [ht c rfl]
  obtain ⟨c, w, rfl⟩ := List.exists_cons_of_ne_nil hne
  have hstart : (c :: w ++ t).dropWhile isSpace = c :: w ++ t := by
    simp [hw c List.mem_cons_self]
  rw [scanWord, hstart]
  simp only [List.cons_append] at htake hdrop ⊢
  rw [htake, hdrop]

end Droidspaces.Scanf
