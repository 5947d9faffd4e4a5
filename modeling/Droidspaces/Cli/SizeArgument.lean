import Droidspaces.Cli.Overrides
import Mathlib.Tactic.SplitIfs

/-!
# Sizes

`ds_parse_size` reads a number with `strtoll`, a fraction with `strtod` and one letter for the unit.
The letter is put into lower case before it is looked at, and that makes a blank of the end of the
text, so that no size is read without a unit; and nobody looks at what is behind the letter.
`isExactAt_iff` says which texts are read as they are meant.
-/

namespace Droidspaces.Cli

open Config

/-! ## The code -/

/-- What is behind a sign, if there is one. -/
def skipSign : Text → Text
  | '-' :: t => t
  | '+' :: t => t
  | t => t

/-- `strtoll`, with what is behind the number: there has to be one, and it has to fit. -/
def strtoll (s : Text) : Option (ℤ × Text) :=
  let t := s.dropWhile isSpace
  let digits := (skipSign t).takeWhile Char.isDigit
  let n : ℤ := Nat.ofDigitChars 10 digits 0
  let v := if t.head? = some '-' then -n else n
  if digits = [] then none
  else if v < -2 ^ 63 ∨ llongMax < v then none
  else some (v, (skipSign t).dropWhile Char.isDigit)

/-- What is behind an exponent, if there is one. -/
def skipExponent : Text → Text
  | [] => []
  | e :: t =>
    if (e = 'e' ∨ e = 'E') ∧ (skipSign t).takeWhile Char.isDigit ≠ [] then
      (skipSign t).dropWhile Char.isDigit
    else e :: t

/-- What `strtod` leaves of a text that starts with a dot, if there is a number. -/
def strtodEnd (t : Text) : Option Text :=
  if t.tail.takeWhile Char.isDigit = [] then none
  else some (skipExponent (t.tail.dropWhile Char.isDigit))

/-- What floating point makes of a fraction. -/
structure Doubles where
  /-- `(long long)(frac * (double)factor)` -/
  scaled : Text → ℕ → ℤ
  /-- What does not fit becomes the largest number or the smallest one. -/
  scaled_range : ∀ t n, (0 ≤ scaled t n ∧ scaled t n ≤ llongMax) ∨ scaled t n = -2 ^ 63

/-- `*end | 0x20` -/
def lowered (t : Text) : ℕ := ((t.head?.map Char.toNat).getD 0) ||| 0x20

/-- The `switch` -/
def factorOf (x : ℕ) : Option ℕ :=
  if x = 'k'.toNat then some 1024
  else if x = 'm'.toNat then some (1024 * 1024)
  else if x = 'g'.toNat then some (1024 * 1024 * 1024)
  else if x = 't'.toNat then some (1024 * 1024 * 1024 * 1024)
  else if x = '\x00'.toNat then some 1
  else none

variable (doubles : Doubles)

/-- The part behind the number: the fraction, as text, and what is behind that. -/
def readFraction (t : Text) : Option (Text × Text) :=
  if t.head? = some '.' then (strtodEnd t).map fun rest => (t.take (t.length - rest.length), rest)
  else some ([], t)

def dsParseSize (str : Text) : ℤ :=
  match strtoll str with
  | none => -1
  | some (n, rest) =>
    if n < 0 then -1
    else
      match readFraction rest with
      | none => -1
      | some (frac, rest) =>
        match factorOf (lowered rest) with
        | none => -1
        | some factor =>
          if 1 < factor ∧ (llongMax / factor : ℕ) < n then -1
          else if frac = [] then n * factor
          else (n * factor + doubles.scaled frac factor).bmod (2 ^ 64)

/-! ## What is meant -/

inductive SizeUnit where
  | bytes
  | kilo
  | mega
  | giga
  | tera
  deriving DecidableEq

namespace SizeUnit

def factor : SizeUnit → ℕ
  | bytes => 1
  | kilo => 1024
  | mega => 1024 ^ 2
  | giga => 1024 ^ 3
  | tera => 1024 ^ 4

/-- The letters, in either case. -/
def texts : SizeUnit → List Text
  | bytes => [[]]
  | kilo => [['k'], ['K']]
  | mega => [['m'], ['M']]
  | giga => [['g'], ['G']]
  | tera => [['t'], ['T']]

end SizeUnit

def IsDigits (t : Text) : Prop := t ≠ [] ∧ ∀ c ∈ t, c.isDigit = true

/-- Digits, a fraction or none, and a unit or none. -/
def IsSize (s : Text) : Prop :=
  ∃ (digits frac : Text) (u : SizeUnit), ∃ t ∈ u.texts, s = digits ++ frac ++ t ∧
    IsDigits digits ∧ (frac = [] ∨ ∃ ds, IsDigits ds ∧ frac = '.' :: ds)

/-- A number with a unit is read as it stands, and what is no size as none. -/
def IsExactAt (s : Text) : Prop :=
  (∀ (n : ℕ) (u : SizeUnit), ∀ t ∈ u.texts, s = decimal n ++ t →
    dsParseSize doubles s = if n * u.factor < 2 ^ 63 then (n * u.factor : ℤ) else -1) ∧
  (¬ IsSize s → dsParseSize doubles s = -1)

/-! ## What is read besides -/

def IsSign (sign : Text) : Prop := sign = [] ∨ sign = ['-'] ∨ sign = ['+']

/-- What `strtod` takes for a fraction. -/
def IsFraction (frac : Text) : Prop :=
  ∃ ds, IsDigits ds ∧ (frac = '.' :: ds ∨ ∃ e sign es, (e = 'e' ∨ e = 'E') ∧
    IsSign sign ∧ IsDigits es ∧ frac = '.' :: ds ++ e :: sign ++ es)

/-- Blanks, a sign, a number, a fraction that may have an exponent, a unit, and anything behind. -/
def IsLoose (s : Text) : Prop :=
  ∃ (blanks sign digits frac rest : Text) (u : SizeUnit), ∃ t ∈ u.texts,
    s = blanks ++ sign ++ digits ++ frac ++ t ++ rest ∧ u ≠ .bytes ∧
    (∀ c ∈ blanks, isSpace c = true) ∧ IsDigits digits ∧
    IsSign sign ∧ (sign = ['-'] → Nat.ofDigitChars 10 digits 0 = 0) ∧
    (frac = [] ∨ IsFraction frac) ∧ Nat.ofDigitChars 10 digits 0 * u.factor < 2 ^ 63

/-- A number below 2^63 without a unit. -/
def IsByteCount (s : Text) : Prop := ∃ n < 2 ^ 63, s = decimal n

/-! ## Signs and digits -/

theorem exists_sign (t : Text) : ∃ sign, IsSign sign ∧ t = sign ++ skipSign t ∧
    (sign = ['-'] ↔ t.head? = some '-') := by
  unfold skipSign
  split
  · exact ⟨['-'], by simp [IsSign]⟩
  · exact ⟨['+'], by simp [IsSign]⟩
  · next hminus hplus =>
    refine ⟨[], by simp [IsSign], rfl, ?_⟩
    rw [List.head?_eq_some_iff]
    exact iff_of_false (List.cons_ne_nil _ _).symm fun ⟨u, hu⟩ => hminus u hu

section Digits

variable {digits rest : Text} (hdigits : IsDigits digits)
  (hrest : ∀ c ∈ rest.head?, c.isDigit = false)
include hdigits

theorem IsDigits.exists_cons : ∃ d ds, digits = d :: ds ∧ d.isDigit = true := by
  obtain ⟨d, ds, rfl⟩ := List.exists_cons_of_ne_nil hdigits.1
  exact ⟨d, ds, rfl, hdigits.2 d List.mem_cons_self⟩

theorem skipSign_append {sign : Text} (hsign : IsSign sign) :
    skipSign (sign ++ (digits ++ rest)) = digits ++ rest := by
  obtain ⟨d, ds, rfl, hd⟩ := hdigits.exists_cons
  rcases hsign with rfl | rfl | rfl
  · have hminus : d ≠ '-' := ne_of_isDigit hd rfl
    have hplus : d ≠ '+' := ne_of_isDigit hd rfl
    rw [List.nil_append, List.cons_append, skipSign]
    · exact fun t ht => hminus (List.cons.inj ht).1
    · exact fun t ht => hplus (List.cons.inj ht).1
  · rfl
  · rfl

include hrest

theorem takeWhile_digits : (digits ++ rest).takeWhile Char.isDigit = digits := by
  rw [List.takeWhile_append_of_pos hdigits.2]
  cases rest with
  | nil => simp
  | cons c t => simp [hrest c rfl]

theorem dropWhile_digits : (digits ++ rest).dropWhile Char.isDigit = rest := by
  rw [List.dropWhile_append_of_pos hdigits.2]
  cases rest with
  | nil => rfl
  | cons c t => simp [hrest c rfl]

end Digits

/-- The digits that a text starts with, and what is behind them. -/
theorem exists_digits {t : Text} (h : t.takeWhile Char.isDigit ≠ []) :
    IsDigits (t.takeWhile Char.isDigit) ∧
      t = t.takeWhile Char.isDigit ++ t.dropWhile Char.isDigit ∧
      ∀ c ∈ (t.dropWhile Char.isDigit).head?, c.isDigit = false := by
  refine ⟨⟨h, fun c hc => List.mem_takeWhile_imp hc⟩, List.takeWhile_append_dropWhile.symm, ?_⟩
  intro c hc
  have hhead := List.head?_dropWhile_not Char.isDigit t
  rw [Option.mem_def] at hc
  rw [hc] at hhead
  simpa using hhead

/-! ## The number -/

/-- The number that is read, if it fits. -/
theorem strtoll_append {blanks sign digits rest : Text} (hblanks : ∀ c ∈ blanks, isSpace c = true)
    (hsign : IsSign sign) (hdigits : IsDigits digits) (hrest : ∀ c ∈ rest.head?, c.isDigit = false)
    {v : ℤ} (hv : v = if sign = ['-'] then -(Nat.ofDigitChars 10 digits 0 : ℤ)
      else Nat.ofDigitChars 10 digits 0) :
    strtoll (blanks ++ (sign ++ (digits ++ rest))) =
      if v < -2 ^ 63 ∨ llongMax < v then none else some (v, rest) := by
  obtain ⟨d, ds, hcons, hd⟩ := hdigits.exists_cons
  have hstart : (blanks ++ (sign ++ (digits ++ rest))).dropWhile isSpace =
      sign ++ (digits ++ rest) := by
    rw [List.dropWhile_append_of_pos hblanks, hcons]
    rcases hsign with rfl | rfl | rfl
    · simp [isSpace_of_isDigit hd]
    · rfl
    · rfl
  have hhead : (sign ++ (digits ++ rest)).head? = some '-' ↔ sign = ['-'] := by
    rw [hcons]
    rcases hsign with rfl | rfl | rfl
    · simp [ne_of_isDigit hd (c := '-') rfl]
    · simp
    · simp
  unfold strtoll
  simp only [hstart, skipSign_append hdigits hsign, takeWhile_digits hdigits hrest,
    dropWhile_digits hdigits hrest, if_neg hdigits.1, hhead, ← hv]

/-- What is read is a number with a sign, and blanks before it. -/
theorem exists_of_strtoll {s rest : Text} {v : ℤ} (h : strtoll s = some (v, rest)) :
    ∃ blanks sign digits, s = blanks ++ (sign ++ (digits ++ rest)) ∧
      (∀ c ∈ blanks, isSpace c = true) ∧ IsSign sign ∧ IsDigits digits ∧
      (∀ c ∈ rest.head?, c.isDigit = false) ∧
      v = (if sign = ['-'] then -(Nat.ofDigitChars 10 digits 0 : ℤ)
        else Nat.ofDigitChars 10 digits 0) ∧ v ≤ llongMax := by
  obtain ⟨sign, hsign, hsplit, hminus⟩ := exists_sign (s.dropWhile isSpace)
  unfold strtoll at h
  dsimp only at h
  rw [Option.ite_none_left_eq_some, Option.ite_none_left_eq_some] at h
  obtain ⟨hdigits, hfits, heq⟩ := h
  obtain ⟨rfl, rfl⟩ := Prod.mk.inj (Option.some.inj heq)
  obtain ⟨hall, hrest, hstop⟩ := exists_digits hdigits
  refine ⟨s.takeWhile isSpace, sign, _, ?_, fun c hc => List.mem_takeWhile_imp hc, hsign, hall,
    hstop, ?_, ?_⟩
  · rw [← hrest, ← hsplit, List.takeWhile_append_dropWhile]
  · simp only [hminus]
  · omega

/-! ## The unit -/

theorem lor_eq_of_lt {x y : ℕ} (hy : y < 128) (h : x ||| 32 = y) : x = y ∨ x + 32 = y := by
  have hall : ∀ x < 128, x = x ||| 32 ∨ x + 32 = x ||| 32 := by decide +kernel
  have hle : x ≤ x ||| 32 := Nat.left_le_or
  rw [← h]
  exact hall x (by omega)

/-- The two letters that become `d`. -/
theorem eq_of_lowered {c : Char} {d D : Char} (hd : d.toNat < 128) (hD : D.toNat + 32 = d.toNat)
    (h : c.toNat ||| 32 = d.toNat) : c = d ∨ c = D := by
  rcases lor_eq_of_lt hd h with heq | heq
  · exact Or.inl (Char.toNat_inj.1 heq)
  · exact Or.inr (Char.toNat_inj.1 (by omega))

/-- A unit that is found is a letter, and the end of the text is none. -/
theorem factorOf_lowered_iff (t : Text) (f : ℕ) :
    factorOf (lowered t) = some f ↔
      ∃ u : SizeUnit, u ≠ .bytes ∧ f = u.factor ∧ ∃ c rest, [c] ∈ u.texts ∧ t = c :: rest := by
  constructor
  · intro h
    cases t with
    | nil => exact absurd h (Option.some_ne_none f).symm
    | cons c rest =>
      unfold factorOf at h
      change (if c.toNat ||| 32 = 'k'.toNat then _ else if c.toNat ||| 32 = 'm'.toNat then _
        else if c.toNat ||| 32 = 'g'.toNat then _ else if c.toNat ||| 32 = 't'.toNat then _
        else if c.toNat ||| 32 = 0 then _ else none) = _ at h
      have hpos : 32 ≤ c.toNat ||| 32 := Nat.right_le_or
      split_ifs at h with hk hm hg ht hend
      · have hc := eq_of_lowered (D := 'K') (by decide) (by decide) hk
        exact ⟨.kilo, by decide, (Option.some.inj h).symm, c, rest, by simpa [SizeUnit.texts], rfl⟩
      · have hc := eq_of_lowered (D := 'M') (by decide) (by decide) hm
        exact ⟨.mega, by decide, (Option.some.inj h).symm, c, rest, by simpa [SizeUnit.texts], rfl⟩
      · have hc := eq_of_lowered (D := 'G') (by decide) (by decide) hg
        exact ⟨.giga, by decide, (Option.some.inj h).symm, c, rest, by simpa [SizeUnit.texts], rfl⟩
      · have hc := eq_of_lowered (D := 'T') (by decide) (by decide) ht
        exact ⟨.tera, by decide, (Option.some.inj h).symm, c, rest, by simpa [SizeUnit.texts], rfl⟩
      · omega
  · rintro ⟨u, hu, rfl, c, rest, hc, rfl⟩
    cases u with
    | bytes => exact absurd rfl hu
    | kilo | mega | giga | tera =>
      have hc' := hc
      simp only [SizeUnit.texts, List.mem_cons, List.cons.injEq, and_true, List.not_mem_nil,
        or_false] at hc'
      rcases hc' with rfl | rfl <;>
      · change factorOf (Char.toNat _ ||| 32) = _
        decide

/-! ## The fraction -/

theorem isDigit_of_mem_texts {u : SizeUnit} {c : Char} (h : [c] ∈ u.texts) :
    c.isDigit = false ∧ c ≠ '.' ∧ c ≠ 'e' ∧ c ≠ 'E' := by
  have hall : u.texts.all (·.all fun c => !c.isDigit && c != '.' && c != 'e' && c != 'E') = true := by
    cases u <;> decide +kernel
  have hunit := List.all_eq_true.1 (List.all_eq_true.1 hall [c] h) c List.mem_cons_self
  simpa only [Bool.and_eq_true, Bool.not_eq_true', bne_iff_ne, and_assoc] using hunit

/-- An exponent is part of the fraction. -/
theorem exists_of_skipExponent {ds : Text} (hds : IsDigits ds) (t : Text) :
    ∃ exp, t = exp ++ skipExponent t ∧ IsFraction ('.' :: ds ++ exp) := by
  have hnone : IsFraction ('.' :: ds ++ []) := ⟨ds, hds, Or.inl (List.append_nil _)⟩
  cases t with
  | nil => exact ⟨[], rfl, hnone⟩
  | cons e t =>
    rw [skipExponent]
    split_ifs with hexp
    · obtain ⟨he, hdigits⟩ := hexp
      obtain ⟨sign, hsign, hsplit, -⟩ := exists_sign t
      obtain ⟨hes, hrest, -⟩ := exists_digits hdigits
      refine ⟨e :: sign ++ (skipSign t).takeWhile Char.isDigit, ?_, ds, hds, Or.inr ?_⟩
      · rw [List.append_assoc, ← hrest, List.cons_append, ← hsplit]
      · exact ⟨e, sign, _, he, hsign, hes, by simp⟩
    · exact ⟨[], rfl, hnone⟩

/-- What is read is nothing or a fraction. -/
theorem of_readFraction {t frac rest : Text} (h : readFraction t = some (frac, rest)) :
    t = frac ++ rest ∧ (frac = [] ∨ IsFraction frac) := by
  unfold readFraction at h
  split at h
  · next hdot =>
    obtain ⟨t, rfl⟩ := List.head?_eq_some_iff.1 hdot
    obtain ⟨rest', hend, heq⟩ := Option.map_eq_some_iff.1 h
    obtain ⟨hfrac, rfl⟩ := Prod.mk.inj heq
    unfold strtodEnd at hend
    rw [List.tail_cons, Option.ite_none_left_eq_some] at hend
    obtain ⟨hdigits, hrest⟩ := hend
    obtain ⟨hds, hsplit, -⟩ := exists_digits hdigits
    obtain ⟨exp, hexp, hfraction⟩ := exists_of_skipExponent hds (t.dropWhile Char.isDigit)
    rw [Option.some.inj hrest] at hexp
    have hsplit' : '.' :: t = '.' :: t.takeWhile Char.isDigit ++ exp ++ rest' := by
      rw [List.append_assoc, ← hexp, List.cons_append, ← hsplit]
    have hsame : frac = '.' :: t.takeWhile Char.isDigit ++ exp := by
      rw [← hfrac, hsplit', List.length_append, Nat.add_sub_cancel, List.take_left]
    rw [hsame]
    exact ⟨hsplit', Or.inr hfraction⟩
  · obtain ⟨rfl, rfl⟩ := Prod.mk.inj (Option.some.inj h)
    exact ⟨rfl, Or.inl rfl⟩

/-- A fraction is read up to the letter behind it. -/
theorem readFraction_append {frac rest : Text} {c : Char} (hfrac : frac = [] ∨ IsFraction frac)
    (hc : c.isDigit = false ∧ c ≠ '.' ∧ c ≠ 'e' ∧ c ≠ 'E') :
    readFraction (frac ++ c :: rest) = some (frac, c :: rest) := by
  obtain ⟨hdigit, hdot, he, hE⟩ := hc
  have hstop : ∀ d ∈ (c :: rest).head?, d.isDigit = false := by
    rintro d ⟨⟩
    exact hdigit
  rcases hfrac with rfl | ⟨ds, hds, hfrac⟩
  · simp [readFraction, hdot]
  · have hend : ∃ t, frac = '.' :: t ∧ strtodEnd (frac ++ c :: rest) = some (c :: rest) := by
      rcases hfrac with rfl | ⟨e, sign, es, hexp, hsign, hes, rfl⟩
      · refine ⟨ds, rfl, ?_⟩
        rw [strtodEnd, List.cons_append, List.tail_cons, takeWhile_digits hds hstop,
          dropWhile_digits hds hstop, if_neg hds.1, skipExponent, if_neg]
        exact fun h => h.1.elim he hE
      · have hstop' : ∀ d ∈ (e :: (sign ++ (es ++ c :: rest))).head?, d.isDigit = false := by
          rintro d ⟨⟩
          rcases hexp with rfl | rfl <;> decide
        refine ⟨ds ++ e :: sign ++ es, by simp, ?_⟩
        have hassoc : '.' :: ds ++ e :: sign ++ es ++ c :: rest =
            '.' :: (ds ++ e :: (sign ++ (es ++ c :: rest))) := by simp
        rw [hassoc, strtodEnd, List.tail_cons, takeWhile_digits hds hstop',
          dropWhile_digits hds hstop', if_neg hds.1, skipExponent, skipSign_append hes hsign,
          takeWhile_digits hes hstop, dropWhile_digits hes hstop, if_pos ⟨hexp, hes.1⟩]
    obtain ⟨t, rfl, hend⟩ := hend
    have hhead : List.head? ('.' :: t ++ c :: rest) = some '.' := rfl
    rw [readFraction, if_pos hhead, hend, Option.map_some, List.length_append, Nat.add_sub_cancel,
      List.take_left]

/-! ## The size -/

variable {doubles : Doubles}

/-- A size that is read is not taken for an error. -/
theorem bmod_ne_neg_one {n : ℤ} {u : SizeUnit} (hu : u ≠ .bytes) (hn : 0 ≤ n)
    (hle : n * u.factor ≤ llongMax) (t : Text) (f : ℕ) :
    (n * u.factor + doubles.scaled t f).bmod (2 ^ 64) ≠ -1 := by
  have heven : ∃ k : ℤ, n * u.factor = 2 * k := by
    have hhalf : u.factor = 2 * (u.factor / 2) := by
      cases u with
      | bytes => exact absurd rfl hu
      | _ => decide
    refine ⟨n * (u.factor / 2 : ℕ), ?_⟩
    rw [← Int.mul_left_comm]
    exact congrArg (n * ·) (by exact_mod_cast hhalf)
  have hpos : 0 ≤ n * u.factor := mul_nonneg hn (Int.natCast_nonneg _)
  have hmax : (llongMax : ℤ) = 2 ^ 63 - 1 := rfl
  obtain ⟨k, hk⟩ := heven
  have hrange := doubles.scaled_range t f
  rw [hmax] at hrange hle
  rw [Int.bmod_def]
  generalize n * (u.factor : ℤ) = a at *
  generalize doubles.scaled t f = s at *
  split_ifs
  · omega
  · omega

/-- What becomes of a number, a fraction and a letter. -/
theorem dsParseSize_eq {s frac rest : Text} {n : ℕ} {u : SizeUnit} {c : Char}
    (hnumber : strtoll s = some ((n : ℤ), frac ++ c :: rest)) (hfrac : frac = [] ∨ IsFraction frac)
    (hc : [c] ∈ u.texts) :
    dsParseSize doubles s =
      if n * u.factor < 2 ^ 63 then
        (if frac = [] then (n * u.factor : ℤ)
        else (n * u.factor + doubles.scaled frac u.factor : ℤ).bmod (2 ^ 64))
      else -1 := by
  have hu : u ≠ .bytes := by
    rintro rfl
    simp [SizeUnit.texts] at hc
  have hfactor : factorOf (lowered (c :: rest)) = some u.factor :=
    (factorOf_lowered_iff _ _).2 ⟨u, hu, rfl, c, rest, hc, rfl⟩
  have hone : 1 < u.factor := by
    cases u with
    | bytes => exact absurd rfl hu
    | _ => decide
  have hfits : (1 < u.factor ∧ ((llongMax / u.factor : ℕ) : ℤ) < n) ↔ ¬ n * u.factor < 2 ^ 63 := by
    rw [and_iff_right hone, Int.ofNat_lt, Nat.div_lt_iff_lt_mul (by omega)]
    have hmax : llongMax = 2 ^ 63 - 1 := rfl
    omega
  have hneg : ¬ (n : ℤ) < 0 := by omega
  unfold dsParseSize
  rw [hnumber]
  dsimp only
  rw [if_neg hneg, readFraction_append hfrac (isDigit_of_mem_texts hc)]
  dsimp only
  rw [hfactor]
  dsimp only
  rw [if_congr hfits rfl rfl, ite_not]

theorem isDigits_decimal (n : ℕ) : IsDigits (decimal n) :=
  ⟨Nat.toDigits_ne_nil, fun _ => isDigit_of_mem_decimal⟩

theorem eq_singleton_of_mem_texts {u : SizeUnit} {t : Text} (ht : t ∈ u.texts) :
    u = .bytes ∧ t = [] ∨ u ≠ .bytes ∧ ∃ c, t = [c] ∧ [c] ∈ u.texts := by
  have hcopy := ht
  cases u with
  | bytes => exact Or.inl ⟨rfl, List.mem_singleton.1 ht⟩
  | _ =>
    simp only [SizeUnit.texts, List.mem_cons, List.not_mem_nil, or_false] at hcopy
    rcases hcopy with rfl | rfl <;> exact Or.inr ⟨by decide, _, rfl, ht⟩

/-- A number with a unit is read as it stands, and without one as no size. -/
theorem dsParseSize_decimal (n : ℕ) (u : SizeUnit) {t : Text} (ht : t ∈ u.texts) :
    dsParseSize doubles (decimal n ++ t) =
      if u ≠ .bytes ∧ n * u.factor < 2 ^ 63 then (n * u.factor : ℤ) else -1 := by
  have hstop : ∀ c ∈ t.head?, c.isDigit = false := by
    rcases eq_singleton_of_mem_texts ht with ⟨-, rfl⟩ | ⟨-, c, rfl, hc⟩
    · exact fun c hc => absurd hc (Option.not_mem_none c)
    · rintro d ⟨⟩
      exact (isDigit_of_mem_texts hc).1
  have hval : (n : ℤ) = if ([] : Text) = ['-'] then
      -(Nat.ofDigitChars 10 (decimal n) 0 : ℤ) else Nat.ofDigitChars 10 (decimal n) 0 := by
    rw [if_neg (by decide), show Nat.ofDigitChars 10 (decimal n) 0 = n from
      Nat.ofDigitChars_toDigits (by decide) (by decide)]
  have hnumber := @strtoll_append [] [] (decimal n) t (fun _ hc => absurd hc List.not_mem_nil)
    (Or.inl rfl) (isDigits_decimal n) hstop n hval
  rw [List.nil_append, List.nil_append] at hnumber
  have hmax : llongMax = 2 ^ 63 - 1 := rfl
  by_cases hlarge : llongMax < n
  · rw [if_pos (Or.inr (by exact_mod_cast hlarge))] at hnumber
    have hfactor : 1 ≤ u.factor := by cases u <;> decide
    have hle : n * 1 ≤ n * u.factor := Nat.mul_le_mul_left n hfactor
    rw [dsParseSize, hnumber, if_neg]
    omega
  · rw [if_neg (by omega)] at hnumber
    rcases eq_singleton_of_mem_texts ht with ⟨rfl, rfl⟩ | ⟨hu, c, rfl, hc⟩
    · -- the end of the text is looked at as a blank
      have hend : factorOf (lowered []) = none := by decide
      have hfraction : readFraction [] = some ([], []) := rfl
      rw [dsParseSize, hnumber]
      dsimp only
      rw [if_neg (by omega : ¬ (n : ℤ) < 0), hfraction]
      dsimp only
      rw [hend, if_neg fun h => h.1 rfl]
    · rw [@dsParseSize_eq doubles _ [] [] n u c hnumber (Or.inl rfl) hc, if_pos rfl]
      simp only [hu, ne_eq, not_false_eq_true, true_and]

/-- **What is read at all.** -/
theorem dsParseSize_ne_iff (s : Text) : dsParseSize doubles s ≠ -1 ↔ IsLoose s := by
  constructor
  · intro h
    unfold dsParseSize at h
    split at h
    · exact absurd rfl h
    · next v rest hnumber =>
      split at h
      · exact absurd rfl h
      · next hneg =>
        split at h
        · exact absurd rfl h
        · next frac rest' hfraction =>
          split at h
          · exact absurd rfl h
          · next f hfactor =>
            obtain ⟨blanks, sign, digits, rfl, hblanks, hsign, hdigits, -, hv, -⟩ :=
              exists_of_strtoll hnumber
            obtain ⟨rfl, hfrac⟩ := of_readFraction hfraction
            obtain ⟨u, hu, rfl, c, rest, hc, rfl⟩ := (factorOf_lowered_iff _ _).1 hfactor
            have hzero : sign = ['-'] → Nat.ofDigitChars 10 digits 0 = 0 := by
              intro hminus
              rw [if_pos hminus] at hv
              omega
            have hvalue : v = Nat.ofDigitChars 10 digits 0 := by
              rw [hv]
              split
              · next hminus => simp [hzero hminus]
              · rfl
            refine ⟨blanks, sign, digits, frac, rest, u, [c], hc, by simp, hu, hblanks, hdigits,
              hsign, hzero, hfrac, ?_⟩
            by_contra hlarge
            rw [if_pos] at h
            · exact h rfl
            · have hone : 1 < u.factor := by
                cases u with
                | bytes => exact absurd rfl hu
                | _ => decide
              rw [hvalue, Int.ofNat_lt, Nat.div_lt_iff_lt_mul (by omega)]
              have hmax : llongMax = 2 ^ 63 - 1 := rfl
              exact ⟨hone, by omega⟩
  · rintro ⟨blanks, sign, digits, frac, rest, u, t, ht, rfl, hu, hblanks, hdigits, hsign, hzero,
      hfrac, hfits⟩
    obtain ⟨c, rfl, hc⟩ := ((eq_singleton_of_mem_texts ht).resolve_left fun h => hu h.1).2
    have hstop : ∀ d ∈ (frac ++ c :: rest).head?, d.isDigit = false := by
      rcases hfrac with rfl | ⟨ds, -, rfl | ⟨e, sign, es, -, -, -, rfl⟩⟩
      · rintro d ⟨⟩
        exact (isDigit_of_mem_texts hc).1
      · rintro d ⟨⟩
        rfl
      · rintro d ⟨⟩
        rfl
    have hval : (Nat.ofDigitChars 10 digits 0 : ℤ) = if sign = ['-'] then
        -(Nat.ofDigitChars 10 digits 0 : ℤ) else Nat.ofDigitChars 10 digits 0 := by
      split
      · next hminus => simp [hzero hminus]
      · rfl
    have hnumber := strtoll_append hblanks hsign hdigits hstop hval
    have hfactor : 1 ≤ u.factor := by cases u <;> decide
    have hle := Nat.mul_le_mul_left (Nat.ofDigitChars 10 digits 0) hfactor
    have hmax : llongMax = 2 ^ 63 - 1 := rfl
    rw [if_neg (by omega)] at hnumber
    have hs : blanks ++ sign ++ digits ++ frac ++ [c] ++ rest =
        blanks ++ (sign ++ (digits ++ (frac ++ c :: rest))) := by simp
    rw [hs, dsParseSize_eq hnumber hfrac hc, if_pos hfits]
    split
    · have hpos : (0 : ℤ) ≤ Nat.ofDigitChars 10 digits 0 * u.factor :=
        mul_nonneg (Int.natCast_nonneg _) (Int.natCast_nonneg _)
      omega
    · refine bmod_ne_neg_one hu (Int.natCast_nonneg _) ?_ _ _
      have hcast : ((Nat.ofDigitChars 10 digits 0 * u.factor : ℕ) : ℤ) ≤ llongMax := by omega
      exact_mod_cast hcast

theorem dsParseSize_le (s : Text) : dsParseSize doubles s ≤ llongMax := by
  have hmax : (llongMax : ℤ) = 2 ^ 63 - 1 := rfl
  unfold dsParseSize
  split
  · decide
  · next n rest _ =>
    split_ifs with hneg
    · decide
    · split
      · decide
      · split
        · decide
        · next frac _ _ _ f hfactor =>
          obtain ⟨u, hu, rfl, -⟩ := (factorOf_lowered_iff _ _).1 hfactor
          split_ifs with hlarge
          · decide
          · have hone : 1 < u.factor := by
              cases u with
              | bytes => exact absurd rfl hu
              | _ => decide
            have hle : n.toNat ≤ llongMax / u.factor := by
              have hnot := mt (And.intro hone) hlarge
              omega
            have hmul := (Nat.le_div_iff_mul_le (by omega)).1 hle
            have hcast : ((n.toNat * u.factor : ℕ) : ℤ) = n * u.factor := by
              rw [Int.natCast_mul, Int.toNat_of_nonneg (Int.not_lt.1 hneg)]
            omega
          · have hlt := Int.bmod_lt (x := n * u.factor + doubles.scaled frac u.factor)
              (m := 2 ^ 64) (by decide)
            omega

/-- **Sizes are read as they are meant exactly if they have a unit and nothing around them.** -/
theorem isExactAt_iff (s : Text) :
    IsExactAt doubles s ↔ ¬ IsByteCount s ∧ (IsSize s ∨ ¬ IsLoose s) := by
  constructor
  · rintro ⟨hexact, hother⟩
    refine ⟨?_, ?_⟩
    · rintro ⟨n, hn, rfl⟩
      have hread := hexact n .bytes [] (List.mem_singleton_self _) (List.append_nil _).symm
      have hrefused := @dsParseSize_decimal doubles n .bytes [] (List.mem_singleton_self _)
      rw [List.append_nil, if_neg fun h => h.1 rfl] at hrefused
      rw [hrefused, if_pos (by simpa [SizeUnit.factor] using hn)] at hread
      simp [SizeUnit.factor] at hread
    · rw [← @dsParseSize_ne_iff doubles, not_not]
      exact or_iff_not_imp_left.2 hother
  · rintro ⟨hcount, hloose⟩
    refine ⟨fun n u t ht hs => ?_, fun hsize => ?_⟩
    · rw [hs, dsParseSize_decimal n u ht]
      by_cases hu : u = .bytes
      · subst hu
        obtain rfl := List.mem_singleton.1 ht
        rw [if_neg fun h => h.1 rfl, if_neg]
        intro hlt
        exact hcount ⟨n, by simpa [SizeUnit.factor] using hlt, hs.trans (List.append_nil _)⟩
      · simp only [hu, ne_eq, not_false_eq_true, true_and]
    · have hnot := hloose.resolve_left hsize
      rwa [← @dsParseSize_ne_iff doubles, not_not] at hnot

/-- Fractions of floating point that are all 0. -/
def noFractions : Doubles := ⟨fun _ _ => 0, fun _ _ => Or.inl (by decide)⟩

/-- The number of bytes in the comment of the code is no size. -/
theorem not_isExactAt_bytes : ¬ IsExactAt noFractions "2048".toList := by
  intro h
  have hdecimal : "2048".toList = decimal 2048 ++ [] := by decide
  have hread := h.1 2048 .bytes [] (List.mem_singleton_self _) hdecimal
  rw [hdecimal, dsParseSize_decimal 2048 .bytes (List.mem_singleton_self _)] at hread
  exact absurd hread (by decide)

/-- The sizes that `--memory` is given. -/
def Numbers.withSizes (numbers : Numbers) (doubles : Doubles) : Numbers :=
  { numbers with size := dsParseSize doubles, size_le := dsParseSize_le }

/-- A limit in bytes is always refused. -/
theorem memory_decimal (numbers : Numbers) (n : ℕ) (c : CliConfig) :
    applyOption (numbers.withSizes doubles) c (.option .memory (decimal n)) = .error .failed := by
  have hrefused := @dsParseSize_decimal doubles n .bytes [] (List.mem_singleton_self _)
  rw [List.append_nil, if_neg fun h => h.1 rfl] at hrefused
  have hsize : (numbers.withSizes doubles).size (decimal n) < 4 * 1024 * 1024 := by
    show dsParseSize doubles (decimal n) < _
    rw [hrefused]
    decide
  have hassign : assignments (numbers.withSizes doubles) (decimal n) .memory = .error .failed :=
    if_pos hsize
  show (assignments (numbers.withSizes doubles) (decimal n) .memory).map _ = _
  rw [hassign]
  rfl

end Droidspaces.Cli
