import Mathlib.Data.Char
import Mathlib.Data.List.DropRight
import Mathlib.Data.List.Lex
import Mathlib.Data.List.Sort
import Mathlib.Data.Nat.Notation
import Mathlib.Data.Prod.Lex

/-!
# Words, columns and sorted lines of a shell

Texts are lists of characters.  `words` is the field splitting of what a command prints, `read` is
the built-in of that name, with a separator that is a blank, and `sortBy` sorts lines by a key.

`read_intercalate` says which columns survive being printed with a separator and read again.
-/

namespace Shell

abbrev Text := List Char

/-! ## Field splitting -/

/-- The characters of `IFS`. -/
def isBlank (c : Char) : Bool := c == ' ' || c == '\t' || c == '\n'

def words (t : Text) : List Text := (t.splitOnP isBlank).filter fun w => !w.isEmpty

theorem words_append_cons (t u : Text) {c : Char} (hc : isBlank c = true) :
    words (t ++ c :: u) = words t ++ words u := by
  simp [words, List.splitOnP_append_cons t u hc]

/-- Lines are split one by one. -/
theorem words_lines (ts : List Text) :
    words (ts.flatMap fun t => t ++ ['\n']) = ts.flatMap words := by
  induction ts with
  | nil => rfl
  | cons t ts ih =>
    rw [List.flatMap_cons, List.append_assoc, List.singleton_append, words_append_cons _ _ rfl, ih]
    rfl

/-! ## Reading columns -/

/-- The columns of a line that starts with one; the last one is all that is left. -/
def readColumns (sep : Char) : ℕ → Text → List Text
  | 0, t => [t.rdropWhile (· == sep)]
  | n + 1, t => t.takeWhile (· != sep) ::
      readColumns sep n ((t.dropWhile (· != sep)).dropWhile (· == sep))

/-- Adjacent separators count as one, and those at the ends of the line not at all. -/
def read (sep : Char) (n : ℕ) (t : Text) : List Text := readColumns sep n (t.dropWhile (· == sep))

section Columns

variable {sep : Char} {t u : Text}

theorem forall_ne_of_not_mem (h : sep ∉ t) : ∀ c ∈ t, (c != sep) = true :=
  fun _ hc => bne_iff_ne.2 fun heq => h (heq ▸ hc)

theorem takeWhile_ne_self (h : sep ∉ t) : t.takeWhile (· != sep) = t :=
  List.takeWhile_eq_self_iff.2 (forall_ne_of_not_mem h)

theorem dropWhile_ne_self (h : sep ∉ t) : t.dropWhile (· != sep) = [] :=
  List.dropWhile_eq_nil_iff.2 (forall_ne_of_not_mem h)

theorem takeWhile_ne_append (h : sep ∉ t) (u : Text) :
    (t ++ sep :: u).takeWhile (· != sep) = t := by
  rw [List.takeWhile_append_of_pos (forall_ne_of_not_mem h)]
  simp

theorem dropWhile_ne_append (h : sep ∉ t) (u : Text) :
    (t ++ sep :: u).dropWhile (· != sep) = sep :: u := by
  rw [List.dropWhile_append_of_pos (forall_ne_of_not_mem h)]
  simp

/-- A column that can be read back: there is something in it, and no separator. -/
def IsColumn (sep : Char) (t : Text) : Prop := t ≠ [] ∧ sep ∉ t

theorem IsColumn.dropWhile_append (h : IsColumn sep t) (u : Text) :
    (t ++ u).dropWhile (· == sep) = t ++ u := by
  obtain ⟨hne, hsep⟩ := h
  cases t with
  | nil => exact absurd rfl hne
  | cons c t =>
    have hc : c ≠ sep := fun heq => hsep (heq ▸ List.mem_cons_self)
    simp [hc]

theorem IsColumn.rdropWhile (h : IsColumn sep t) : t.rdropWhile (· == sep) = t := by
  rw [List.rdropWhile_eq_self_iff]
  intro hne hlast
  exact h.2 (beq_iff_eq.1 hlast ▸ List.getLast_mem hne)

theorem intercalate_columns_ne_nil {ts : List Text} (h : ∀ t ∈ ts, IsColumn sep t) (hts : ts ≠ []) :
    ([sep].intercalate ts).dropWhile (· == sep) = [sep].intercalate ts := by
  cases ts with
  | nil => exact absurd rfl hts
  | cons t ts =>
    have ht := h t List.mem_cons_self
    cases ts with
    | nil => simpa using ht.dropWhile_append []
    | cons u us => exact ht.dropWhile_append _

/-- **What is printed in columns is read in columns.** -/
theorem read_intercalate {ts : List Text} (h : ∀ t ∈ ts, IsColumn sep t) {n : ℕ}
    (hlen : ts.length = n + 1) : read sep n ([sep].intercalate ts) = ts := by
  have hts : ts ≠ [] := by
    rintro rfl
    cases hlen
  rw [read, intercalate_columns_ne_nil h hts]
  induction n generalizing ts with
  | zero =>
    obtain ⟨t, rfl⟩ := List.length_eq_one_iff.1 hlen
    have ht := h t List.mem_cons_self
    simpa [readColumns] using ht.rdropWhile
  | succ n ih =>
    obtain ⟨t, u, us, rfl⟩ : ∃ t u us, ts = t :: u :: us := by
      match ts, hlen with
      | t :: u :: us, _ => exact ⟨t, u, us, rfl⟩
    have ht := h t List.mem_cons_self
    have hrest : ∀ v ∈ u :: us, IsColumn sep v := fun v hv => h v (List.mem_cons_of_mem _ hv)
    have hline : [sep].intercalate (t :: u :: us) = t ++ sep :: [sep].intercalate (u :: us) := by
      simp [List.intercalate, List.intersperse]
    rw [hline, readColumns, takeWhile_ne_append ht.2, dropWhile_ne_append ht.2]
    have hsep : (sep :: [sep].intercalate (u :: us)).dropWhile (· == sep) =
        [sep].intercalate (u :: us) := by
      rw [List.dropWhile_cons, beq_self_eq_true]
      exact intercalate_columns_ne_nil hrest (List.cons_ne_nil _ _)
    rw [hsep, ih hrest (by simpa using hlen) (List.cons_ne_nil _ _)]

end Columns

/-! ## Sorting lines -/

section Sorting

variable {κ : Type} [LinearOrder κ]

def sortBy (key : Text → κ) (ts : List Text) : List Text :=
  ts.insertionSort (Order.Preimage key (· ≤ ·))

/-- Sorting lines that were printed from items sorts the items. -/
theorem sortBy_map {α : Type} (key : Text → κ) (line : α → Text) (l : List α) :
    ∃ m : List α, m.Perm l ∧ m.Pairwise (fun a b => key (line a) ≤ key (line b)) ∧
      sortBy key (l.map line) = m.map line := by
  let r : α → α → Prop := Order.Preimage (fun a => key (line a)) (· ≤ ·)
  refine ⟨l.insertionSort r, List.perm_insertionSort r l, List.pairwise_insertionSort r l, ?_⟩
  exact (List.map_insertionSort r _ line l fun _ _ _ _ => Iff.rfl).symm

/-- The number that a text starts with. -/
def leadingNumber (t : Text) : ℕ := Nat.ofDigitChars 10 (t.takeWhile Char.isDigit) 0

end Sorting

end Shell
