import Mathlib.Algebra.Order.Ring.Int
import Mathlib.Data.List.TakeDrop
import Mathlib.Data.Nat.Notation

/-!
# JSON documents

`document` reads the whole grammar of JSON: white space, escapes with surrogate pairs, numbers with
a fraction and an exponent.  `print` writes a value without white space.  The round trip is stated
with what follows the value (`readValue_print`), so that a document with text behind it can be told
from one without (`document_print`).
-/

namespace Json

/-- A number is `mantissa * 10 ^ exponent`, as it is written. -/
inductive Value where
  | null
  | bool (b : Bool)
  | number (mantissa exponent : ℤ)
  | string (s : List Char)
  | array (vs : List Value)
  | object (ms : List (List Char × Value))

/-! ## Reading -/

def isBlank (c : Char) : Bool := c == ' ' || c == '\t' || c == '\n' || c == '\r'

def skip (t : List Char) : List Char := t.dropWhile isBlank

/-- The text after the next character, if that is `c`. -/
def expect (c : Char) (t : List Char) : Option (List Char) :=
  match skip t with
  | d :: r => if d = c then some r else none
  | [] => none

def hexValue (c : Char) : Option ℕ :=
  if c.isDigit then some (c.toNat - 48)
  else if 97 ≤ c.toNat ∧ c.toNat ≤ 102 then some (c.toNat - 87)
  else if 65 ≤ c.toNat ∧ c.toNat ≤ 70 then some (c.toNat - 55)
  else none

def codeUnit (a b c d : Char) : Option ℕ := do
  let a ← hexValue a
  let b ← hexValue b
  let c ← hexValue c
  let d ← hexValue d
  return ((a * 16 + b) * 16 + c) * 16 + d

def unescape (c : Char) : Option Char :=
  match c with
  | '"' => some '"'
  | '\\' => some '\\'
  | '/' => some '/'
  | 'b' => some '\x08'
  | 'f' => some '\x0c'
  | 'n' => some '\n'
  | 'r' => some '\r'
  | 't' => some '\t'
  | _ => none

def isHigh (n : ℕ) : Bool := 0xd800 ≤ n && n < 0xdc00

def isLow (n : ℕ) : Bool := 0xdc00 ≤ n && n < 0xe000

/-- A string after its opening quote. -/
def readChars : List Char → Option (List Char × List Char)
  | [] => none
  | c :: t =>
    if c = '"' then some ([], t)
    else if c.toNat < 32 then none
    else if c ≠ '\\' then (readChars t).map fun (s, r) => (c :: s, r)
    else
      match t with
      | 'u' :: a :: b :: c :: d :: t => do
        let n ← codeUnit a b c d
        if isHigh n then
          match t with
          | '\\' :: 'u' :: a :: b :: c :: d :: t => do
            let m ← codeUnit a b c d
            if isLow m then
              let (s, r) ← readChars t
              return (Char.ofNat (0x10000 + (n - 0xd800) * 0x400 + (m - 0xdc00)) :: s, r)
            else none
          | _ => none
        else if isLow n then none
        else
          let (s, r) ← readChars t
          return (Char.ofNat n :: s, r)
      | e :: t => do
        let c ← unescape e
        let (s, r) ← readChars t
        return (c :: s, r)
      | [] => none
termination_by structural t => t

/-- The digits at the start, of which there must be some. -/
def readDigits (t : List Char) : Option (List Char × List Char) :=
  let ds := t.takeWhile Char.isDigit
  if ds = [] then none else some (ds, t.dropWhile Char.isDigit)

def readSign : List Char → Bool × List Char
  | '-' :: t => (true, t)
  | t => (false, t)

def readFraction : List Char → Option (List Char × List Char)
  | '.' :: t => readDigits t
  | t => some ([], t)

def readExponent : List Char → Option (ℤ × List Char)
  | [] => some (0, [])
  | c :: t =>
    if c = 'e' ∨ c = 'E' then do
      let (negative, t) := if t.head? = some '+' then (false, t.drop 1) else readSign t
      let (ds, t) ← readDigits t
      let n : ℤ := Nat.ofDigitChars 10 ds 0
      return (if negative then -n else n, t)
    else some (0, c :: t)

def readNumber (t : List Char) : Option (Value × List Char) := do
  let (negative, t) := readSign t
  let (whole, t) ← readDigits t
  if whole.head? = some '0' ∧ whole ≠ ['0'] then none
  else
    let (fraction, t) ← readFraction t
    let (e, t) ← readExponent t
    let n : ℤ := Nat.ofDigitChars 10 (whole ++ fraction) 0
    return (.number (if negative then -n else n) (e - fraction.length), t)

def readWord (w : String) (v : Value) (t : List Char) : Option (Value × List Char) :=
  if w.toList.isPrefixOf t then some (v, t.drop w.length) else none

mutual

def readValue : ℕ → List Char → Option (Value × List Char)
  | 0, _ => none
  | n + 1, t =>
    match skip t with
    | [] => none
    | c :: r =>
      if c = '"' then (readChars r).map fun (s, r) => (.string s, r)
      else if c = '[' then
        match expect ']' r with
        | some r => some (.array [], r)
        | none => (readElements n r).map fun (vs, r) => (.array vs, r)
      else if c = '{' then
        match expect '}' r with
        | some r => some (.object [], r)
        | none => (readMembers n r).map fun (ms, r) => (.object ms, r)
      else
        readWord "null" .null (c :: r) <|> readWord "true" (.bool true) (c :: r) <|>
          readWord "false" (.bool false) (c :: r) <|> readNumber (c :: r)

/-- The elements of an array that has some, with the bracket after them. -/
def readElements : ℕ → List Char → Option (List Value × List Char)
  | 0, _ => none
  | n + 1, t => do
    let (v, r) ← readValue n t
    match expect ',' r with
    | some r =>
      let (vs, r) ← readElements n r
      return (v :: vs, r)
    | none =>
      let r ← expect ']' r
      return ([v], r)

/-- The members of an object that has some, with the brace after them. -/
def readMembers : ℕ → List Char → Option (List (List Char × Value) × List Char)
  | 0, _ => none
  | n + 1, t => do
    let r ← expect '"' t
    let (key, r) ← readChars r
    let r ← expect ':' r
    let (v, r) ← readValue n r
    match expect ',' r with
    | some r =>
      let (ms, r) ← readMembers n r
      return ((key, v) :: ms, r)
    | none =>
      let r ← expect '}' r
      return ([(key, v)], r)

end

/-- One value with white space around it. -/
def document (t : List Char) : Option Value := do
  let (v, r) ← readValue (t.length + 1) t
  if skip r = [] then some v else none

/-! ## Writing -/

def escape (c : Char) : List Char :=
  if c = '"' ∨ c = '\\' then ['\\', c]
  else if c.toNat < 32 then
    ['\\', 'u', '0', '0', (c.toNat / 16).digitChar, (c.toNat % 16).digitChar]
  else [c]

def quoted (s : List Char) : List Char := '"' :: s.flatMap escape ++ ['"']

def integer : ℤ → List Char
  | .ofNat n => Nat.toDigits 10 n
  | .negSucc n => '-' :: Nat.toDigits 10 (n + 1)

mutual

def print : Value → List Char
  | .null => "null".toList
  | .bool true => "true".toList
  | .bool false => "false".toList
  | .number m e => integer m ++ if e = 0 then [] else 'e' :: integer e
  | .string s => quoted s
  | .array [] => "[]".toList
  | .array (v :: vs) => '[' :: print v ++ moreElements vs ++ [']']
  | .object [] => "\x7b\x7d".toList
  | .object ((key, v) :: ms) => '{' :: quoted key ++ ':' :: print v ++ moreMembers ms ++ ['}']

def moreElements : List Value → List Char
  | [] => []
  | v :: vs => ',' :: print v ++ moreElements vs

def moreMembers : List (List Char × Value) → List Char
  | [] => []
  | (key, v) :: ms => ',' :: quoted key ++ ':' :: print v ++ moreMembers ms

end

theorem print_null : print .null = "null".toList := rfl

theorem print_true : print (.bool true) = "true".toList := rfl

theorem print_false : print (.bool false) = "false".toList := rfl

theorem print_number (m e : ℤ) :
    print (.number m e) = integer m ++ if e = 0 then [] else 'e' :: integer e := rfl

theorem print_string (s : List Char) : print (.string s) = quoted s := rfl

theorem print_array_nil : print (.array []) = "[]".toList := rfl

theorem print_array_cons (v : Value) (vs : List Value) :
    print (.array (v :: vs)) = '[' :: print v ++ moreElements vs ++ [']'] := rfl

theorem print_object_nil : print (.object []) = "\x7b\x7d".toList := rfl

theorem print_object_cons (key : List Char) (v : Value) (ms : List (List Char × Value)) :
    print (.object ((key, v) :: ms)) =
      '{' :: quoted key ++ ':' :: print v ++ moreMembers ms ++ ['}'] := rfl

/-! ## The round trip -/

theorem codeUnit_control :
    ∀ n < 32, codeUnit '0' '0' (n / 16).digitChar (n % 16).digitChar = some n := by
  decide

theorem readChars_escape (c : Char) (t : List Char) :
    readChars (escape c ++ t) = (readChars t).map fun (s, r) => (c :: s, r) := by
  unfold escape
  split
  · next hc =>
    rcases hc with rfl | rfl
    · cases h : readChars t <;> simp [readChars, unescape, h]
    · cases h : readChars t <;> simp [readChars, unescape, h]
  · next hc =>
    push Not at hc
    split
    · next hlow =>
      have hcode : codeUnit '0' '0' (c.toNat / 16).digitChar (c.toNat % 16).digitChar =
          some c.toNat := codeUnit_control c.toNat hlow
      have hhigh : isHigh c.toNat = false := by simp [isHigh]; omega
      have hlow' : isLow c.toNat = false := by simp [isLow]; omega
      cases h : readChars t <;> simp [readChars, hcode, hhigh, hlow', h, Char.ofNat_toNat]
    · next hlow =>
      rw [List.singleton_append, readChars.eq_def]
      simp [hc, hlow]

theorem readChars_quoted (s r : List Char) :
    readChars (s.flatMap escape ++ '"' :: r) = some (s, r) := by
  induction s with
  | nil => rw [List.flatMap_nil, List.nil_append, readChars.eq_def]; rfl
  | cons c s ih => simp [List.append_assoc, readChars_escape, ih]

/-- What may follow a number. -/
def Ends (r : List Char) : Prop :=
  ∀ c ∈ r.head?, c.isDigit = false ∧ c ≠ '.' ∧ c ≠ 'e' ∧ c ≠ 'E'

theorem readDigits_toDigits (n : ℕ) {r : List Char} (hr : ∀ c ∈ r.head?, c.isDigit = false) :
    readDigits (Nat.toDigits 10 n ++ r) = some (Nat.toDigits 10 n, r) := by
  have hdigits : ∀ c ∈ Nat.toDigits 10 n, c.isDigit = true := fun c hc =>
    Nat.isDigit_of_mem_toDigits (by decide) (by decide) hc
  have htake : r.takeWhile Char.isDigit = [] := by
    cases r with
    | nil => rfl
    | cons c r => simp [hr c rfl]
  have hdrop : r.dropWhile Char.isDigit = r := by
    cases r with
    | nil => rfl
    | cons c r => simp [hr c rfl]
  unfold readDigits
  rw [List.takeWhile_append_of_pos hdigits, List.dropWhile_append_of_pos hdigits, htake, hdrop,
    List.append_nil, if_neg Nat.toDigits_ne_nil]

theorem exists_toDigits_eq_cons (n : ℕ) :
    ∃ d ds, Nat.toDigits 10 n = d :: ds ∧ d.isDigit = true := by
  obtain ⟨d, ds, hds⟩ := List.exists_cons_of_ne_nil (Nat.toDigits_ne_nil (n := n) (b := 10))
  refine ⟨d, ds, hds, Nat.isDigit_of_mem_toDigits (n := n) (by decide) (le_refl 10) ?_⟩
  rw [hds]
  exact List.mem_cons_self

/-- No leading zeros. -/
theorem toDigits_of_head?_zero (n : ℕ) (h : (Nat.toDigits 10 n).head? = some '0') :
    Nat.toDigits 10 n = ['0'] := by
  induction n using Nat.strong_induction_on with
  | _ n ih =>
    rw [Nat.toDigits_eq_if (by decide)] at h ⊢
    split
    · next hlt =>
      rw [if_pos hlt] at h
      rw [Option.some.inj h]
    · next hle =>
      rw [if_neg hle] at h
      obtain ⟨d, ds, hds, -⟩ := exists_toDigits_eq_cons (n / 10)
      have hhead : (Nat.toDigits 10 (n / 10)).head? = some '0' := by
        rw [hds] at h ⊢
        exact h
      have hzero : n / 10 = 0 := by
        have hval : Nat.ofDigitChars 10 (Nat.toDigits 10 (n / 10)) 0 = n / 10 :=
          Nat.ofDigitChars_ten_toDigits
        rw [ih (n / 10) (by omega) hhead] at hval
        exact hval.symm
      omega

theorem readSign_integer (m : ℤ) (t : List Char) :
    readSign (integer m ++ t) = (decide (m < 0), Nat.toDigits 10 m.natAbs ++ t) := by
  cases m with
  | ofNat n =>
    obtain ⟨d, ds, hds, hd⟩ := exists_toDigits_eq_cons n
    have hne : d ≠ '-' := by
      rintro rfl
      exact absurd hd (by decide)
    have hpos : ¬ ((n : ℕ) : ℤ) < 0 := by omega
    change readSign (Nat.toDigits 10 n ++ t) = (decide (((n : ℕ) : ℤ) < 0), Nat.toDigits 10 n ++ t)
    rw [decide_eq_false hpos, hds, List.cons_append]
    unfold readSign
    split
    · next heq => exact absurd (List.cons.inj heq).1 hne
    · rfl
  | negSucc n =>
    have hneg : Int.negSucc n < 0 := Int.negSucc_lt_zero n
    rw [decide_eq_true hneg]
    rfl

theorem exists_integer_eq_cons (m : ℤ) :
    ∃ c t, integer m = c :: t ∧ (c.isDigit = true ∨ c = '-') := by
  cases m with
  | ofNat n =>
    obtain ⟨d, ds, hds, hd⟩ := exists_toDigits_eq_cons n
    exact ⟨d, ds, hds, Or.inl hd⟩
  | negSucc n => exact ⟨'-', _, rfl, Or.inr rfl⟩

theorem ne_of_integer {c d : Char} (hc : c.isDigit = true ∨ c = '-') (hd : d.isDigit = false)
    (hsign : d ≠ '-') : c ≠ d := by
  rintro rfl
  rcases hc with hc | hc
  · rw [hc] at hd
    cases hd
  · exact hsign hc

theorem isBlank_of_integer {c : Char} (hc : c.isDigit = true ∨ c = '-') : isBlank c = false := by
  rw [← Bool.not_eq_true]
  intro h
  simp only [isBlank, Bool.or_eq_true, beq_iff_eq] at h
  rcases h with ((h | h) | h) | h
  · exact ne_of_integer hc rfl (by decide) h
  · exact ne_of_integer hc rfl (by decide) h
  · exact ne_of_integer hc rfl (by decide) h
  · exact ne_of_integer hc rfl (by decide) h

theorem readExponent_integer (e : ℤ) {r : List Char} (hr : Ends r) :
    readExponent ((if e = 0 then [] else 'e' :: integer e) ++ r) = some (e, r) := by
  split
  · next he =>
    subst he
    cases r with
    | nil => rfl
    | cons c r =>
      obtain ⟨-, -, hlower, hupper⟩ := hr c rfl
      simp [readExponent, hlower, hupper]
  · obtain ⟨c, t, he, hc⟩ := exists_integer_eq_cons e
    have hplus : (integer e ++ r).head? ≠ some '+' := by
      rw [he]
      exact fun h => ne_of_integer hc rfl (by decide) (Option.some.inj h)
    have hdigits := readDigits_toDigits e.natAbs fun c hc => (hr c hc).1
    rw [List.cons_append, readExponent, if_pos (Or.inl rfl), if_neg hplus, readSign_integer]
    simp only [Option.pure_def, Option.bind_eq_bind, hdigits, Option.bind_some,
      Nat.ofDigitChars_ten_toDigits]
    by_cases hneg : e < 0
    · simp [hneg, abs_of_neg hneg]
    · simp [hneg, abs_of_nonneg (not_lt.1 hneg)]

theorem readNumber_print (m e : ℤ) {r : List Char} (hr : Ends r) :
    readNumber (print (.number m e) ++ r) = some (.number m e, r) := by
  have hhead : ∀ c ∈ ((if e = 0 then [] else 'e' :: integer e) ++ r).head?,
      c.isDigit = false ∧ c ≠ '.' := by
    split
    · exact fun c hc => ⟨(hr c hc).1, (hr c hc).2.1⟩
    · intro c hc
      rw [← Option.some.inj hc]
      decide
  have hdigits := readDigits_toDigits m.natAbs fun c hc => (hhead c hc).1
  have hfraction : readFraction ((if e = 0 then [] else 'e' :: integer e) ++ r) =
      some ([], (if e = 0 then [] else 'e' :: integer e) ++ r) := by
    unfold readFraction
    split
    · next t heq => exact absurd rfl (hhead '.' (by rw [heq]; rfl)).2
    · rfl
  have hzero : ¬ ((Nat.toDigits 10 m.natAbs).head? = some '0' ∧ Nat.toDigits 10 m.natAbs ≠ ['0']) :=
    fun h => h.2 (toDigits_of_head?_zero _ h.1)
  rw [print_number, List.append_assoc]
  unfold readNumber
  rw [readSign_integer]
  simp only [Option.pure_def, Option.bind_eq_bind, hdigits, Option.bind_some, if_neg hzero,
    hfraction, readExponent_integer e hr, List.append_nil, Nat.ofDigitChars_ten_toDigits]
  by_cases hneg : m < 0
  · simp [hneg, abs_of_neg hneg]
  · simp [hneg, abs_of_nonneg (not_lt.1 hneg)]

/-- The character that a value starts with tells it from white space and from a closing bracket. -/
theorem exists_print_eq_cons (v : Value) :
    ∃ c t, print v = c :: t ∧ isBlank c = false ∧ c ≠ ']' := by
  cases v with
  | null => exact ⟨'n', _, rfl, rfl, by decide⟩
  | bool b => cases b with
    | false => exact ⟨'f', _, rfl, rfl, by decide⟩
    | true => exact ⟨'t', _, rfl, rfl, by decide⟩
  | number m e =>
    obtain ⟨c, t, hm, hc⟩ := exists_integer_eq_cons m
    exact ⟨c, _, by rw [print_number, hm]; rfl, isBlank_of_integer hc, ne_of_integer hc rfl (by decide)⟩
  | string s => exact ⟨'"', _, rfl, rfl, by decide⟩
  | array vs => cases vs with
    | nil => exact ⟨'[', _, rfl, rfl, by decide⟩
    | cons v vs => exact ⟨'[', _, by rw [print_array_cons]; rfl, rfl, by decide⟩
  | object ms => cases ms with
    | nil => exact ⟨'{', _, rfl, rfl, by decide⟩
    | cons m ms => exact ⟨'{', _, by rw [print_object_cons]; rfl, rfl, by decide⟩

theorem expect_self {c : Char} (hc : isBlank c = false) (r : List Char) :
    expect c (c :: r) = some r := by
  simp [expect, skip, hc]

theorem expect_of_ne {c d : Char} (hd : isBlank d = false) (h : d ≠ c) (r : List Char) :
    expect c (d :: r) = none := by
  simp [expect, skip, hd, h]

theorem ends_moreElements (vs : List Value) (r : List Char) :
    Ends (moreElements vs ++ ']' :: r) := by
  cases vs with
  | nil => exact fun c hc => Option.some.inj hc ▸ by decide
  | cons v vs =>
    rw [moreElements]
    exact fun c hc => Option.some.inj hc ▸ by decide

theorem ends_moreMembers (ms : List (List Char × Value)) (r : List Char) :
    Ends (moreMembers ms ++ '}' :: r) := by
  cases ms with
  | nil => exact fun c hc => Option.some.inj hc ▸ by decide
  | cons m ms =>
    rw [moreMembers]
    exact fun c hc => Option.some.inj hc ▸ by decide

theorem readWord_of_ne {w : String} {d : Char} {ds : List Char} (hw : w.toList = d :: ds)
    (v : Value) {c : Char} (h : c ≠ d) (t : List Char) : readWord w v (c :: t) = none := by
  have hprefix : ¬ (w.toList.isPrefixOf (c :: t)) = true := by
    rw [hw, List.isPrefixOf_cons_cons, Bool.and_eq_true, beq_iff_eq]
    exact fun hboth => h hboth.1.symm
  rw [readWord, if_neg hprefix]

theorem readValue_number (m e : ℤ) (n : ℕ) {r : List Char} (hr : Ends r) :
    readValue (n + 1) (print (.number m e) ++ r) = some (.number m e, r) := by
  obtain ⟨c, t, hm, hc⟩ := exists_integer_eq_cons m
  have hnumber := readNumber_print m e hr
  have hne {d : Char} (hd : d.isDigit = false) (hsign : d ≠ '-') : c ≠ d :=
    ne_of_integer hc hd hsign
  rw [print_number, hm, List.cons_append, List.cons_append] at hnumber ⊢
  rw [readValue]
  have hskip : skip (c :: (t ++ (if e = 0 then [] else 'e' :: integer e) ++ r)) =
      c :: (t ++ (if e = 0 then [] else 'e' :: integer e) ++ r) := by
    rw [skip, List.dropWhile_cons_of_neg (by simp [isBlank_of_integer hc])]
  rw [hskip]
  dsimp only
  rw [if_neg (hne rfl (by decide)), if_neg (hne rfl (by decide)), if_neg (hne rfl (by decide)),
    readWord_of_ne rfl .null (hne rfl (by decide)),
    readWord_of_ne rfl (.bool true) (hne rfl (by decide)),
    readWord_of_ne rfl (.bool false) (hne rfl (by decide)), hnumber]
  rfl

theorem readValue_word {v : Value} (h : v = .null ∨ v = .bool true ∨ v = .bool false) (n : ℕ)
    (r : List Char) : readValue (n + 1) (print v ++ r) = some (v, r) := by
  rcases h with rfl | rfl | rfl
  · rw [print_null, readValue]
    simp [skip, isBlank, readWord]
    rfl
  · rw [print_true, readValue]
    simp [skip, isBlank, readWord]
    rfl
  · rw [print_false, readValue]
    simp [skip, isBlank, readWord]
    rfl

mutual

/-- **Reading back what was written**, whatever follows it. -/
theorem readValue_print : ∀ (v : Value) (n : ℕ) {r : List Char}, (print v).length ≤ n → Ends r →
    readValue n (print v ++ r) = some (v, r)
  | v, 0, r, hn, _ => by
    obtain ⟨c, t, hprint, -, -⟩ := exists_print_eq_cons v
    rw [hprint] at hn
    exact absurd hn (by simp)
  | .null, n + 1, r, _, _ => readValue_word (Or.inl rfl) n r
  | .bool true, n + 1, r, _, _ => readValue_word (Or.inr (Or.inl rfl)) n r
  | .bool false, n + 1, r, _, _ => readValue_word (Or.inr (Or.inr rfl)) n r
  | .number m e, n + 1, r, _, hr => readValue_number m e n hr
  | .string s, n + 1, r, _, _ => by
    rw [print_string, quoted, readValue]
    simp [skip, isBlank, readChars_quoted]
  | .array [], n + 1, r, _, _ => by
    rw [print_array_nil, readValue]
    simp [skip, isBlank, expect]
  | .array (v :: vs), n + 1, r, hn, _ => by
    have hlen : (print v ++ moreElements vs).length < n := by
      simp only [print_array_cons, List.length_append, List.length_cons, List.length_nil] at hn ⊢
      omega
    have hread := readElements_print v vs n r hlen
    obtain ⟨c, t, hv, hblank, hclose⟩ := exists_print_eq_cons v
    simp only [hv, List.cons_append, List.append_assoc] at hread
    rw [print_array_cons, hv, readValue]
    simp [skip, isBlank, expect_of_ne hblank hclose, hread]
  | .object [], n + 1, r, _, _ => by
    rw [print_object_nil, readValue]
    simp [skip, isBlank, expect]
  | .object ((key, v) :: ms), n + 1, r, hn, _ => by
    have hlen : (quoted key ++ ':' :: print v ++ moreMembers ms).length ≤ n := by
      simp only [print_object_cons, List.length_append, List.length_cons, List.length_nil] at hn ⊢
      omega
    have hread := readMembers_print key v ms n r hlen
    have hquote : isBlank '"' = false := rfl
    simp only [quoted, List.cons_append, List.append_assoc, List.nil_append] at hread
    rw [print_object_cons, quoted, readValue]
    simp [skip, isBlank, expect_of_ne hquote (c := '}') (by decide), hread]

theorem readElements_print : ∀ (v : Value) (vs : List Value) (n : ℕ) (r : List Char),
    (print v ++ moreElements vs).length < n →
      readElements n (print v ++ moreElements vs ++ ']' :: r) = some (v :: vs, r)
  | v, [], n + 1, r, hn => by
    have hlen : (print v).length ≤ n := by simpa [moreElements, Nat.lt_succ_iff] using hn
    have hread := readValue_print v n hlen (ends_moreElements [] r)
    rw [moreElements, List.nil_append] at hread
    rw [moreElements, List.append_nil, readElements, hread]
    simp [expect, skip, isBlank]
  | v, w :: vs, n + 1, r, hn => by
    have hlen : (print v).length ≤ n ∧ (print w ++ moreElements vs).length < n := by
      simp only [moreElements, List.length_append, List.length_cons] at hn ⊢
      omega
    have hread := readValue_print v n hlen.1 (ends_moreElements (w :: vs) r)
    have hmore := readElements_print w vs n r hlen.2
    rw [List.append_assoc, readElements, hread]
    simp only [moreElements, List.cons_append, Option.bind_eq_bind, Option.bind_some,
      expect_self (c := ',') rfl, hmore]
    rfl

theorem readMembers_print : ∀ (key : List Char) (v : Value) (ms : List (List Char × Value)) (n : ℕ)
    (r : List Char), (quoted key ++ ':' :: print v ++ moreMembers ms).length ≤ n →
      readMembers n (quoted key ++ ':' :: print v ++ moreMembers ms ++ '}' :: r) =
        some ((key, v) :: ms, r)
  | key, v, ms, 0, r, hn => by simp [quoted] at hn
  | key, v, [], n + 1, r, hn => by
    have hlen : (print v).length ≤ n := by
      simp only [quoted, moreMembers, List.length_append, List.length_cons, List.length_nil] at hn
      omega
    have hread := readValue_print v n hlen (ends_moreMembers [] r)
    rw [moreMembers, List.nil_append] at hread
    rw [moreMembers, List.append_nil, readMembers]
    simp [quoted, expect_self (c := '"') rfl, readChars_quoted, expect_self (c := ':') rfl, hread,
      expect_of_ne (d := '}') (c := ',') rfl (by decide), expect_self (c := '}') rfl]
  | key, v, (key', w) :: ms, n + 1, r, hn => by
    have hlen : (print v).length ≤ n ∧
        (quoted key' ++ ':' :: print w ++ moreMembers ms).length ≤ n := by
      simp only [quoted, moreMembers, List.length_append, List.length_cons, List.length_nil] at hn ⊢
      omega
    have hread := readValue_print v n hlen.1 (ends_moreMembers ((key', w) :: ms) r)
    have hmore := readMembers_print key' w ms n r hlen.2
    simp only [moreMembers, quoted, List.cons_append, List.append_assoc, List.nil_append]
      at hread hmore ⊢
    rw [readMembers]
    simp [expect_self (c := '"') rfl, readChars_quoted, expect_self (c := ':') rfl, hread,
      expect_self (c := ',') rfl, hmore]

end

/-- **A document is told from a document with something behind it.** -/
theorem document_print (v : Value) {r : List Char} (hr : Ends r) :
    document (print v ++ r) = if skip r = [] then some v else none := by
  have hlen : (print v).length ≤ (print v ++ r).length + 1 := by
    rw [List.length_append]
    omega
  rw [document, readValue_print v _ hlen hr]
  rfl

end Json
