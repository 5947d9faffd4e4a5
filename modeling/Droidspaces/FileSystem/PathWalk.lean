import Mathlib.Data.List.DropRight
import Mathlib.Data.List.Basic

/-!
# Looking up paths

How a path with `.`, `..` and symbolic links is looked up, in anything that has a root, parents and
entries.  The number of links that one lookup follows is bounded, as the kernel bounds it.

`walk` follows every link.  `entryOf` is for the calls that do not follow the last component: it
gives the directory and the name of the entry that such a call works on.
-/

namespace FileSystem

/-- What a directory has under a name. -/
inductive Entry (P : Type) where
  | missing
  | dir (p : P)
  | file (p : P)
  | link (target : List Char)

/-- What paths are looked up in; the positions `P` are those of directories and files. -/
structure Space (P : Type) where
  root : P
  parent : P → P
  look : P → List Char → Entry P

/-- Where a lookup ends. -/
inductive Found (P : Type) where
  | dir (p : P)
  | file (p : P)

/-- What holds of a directory, or of a file. -/
def Found.Sat {P : Type} (Inv InvFile : P → Prop) : Found P → Prop
  | .dir p => Inv p
  | .file p => InvFile p

/-- The components of a path, with an empty one for each slash too many. -/
def components (path : List Char) : List (List Char) := path.splitOn '/'

def isAbsolute (path : List Char) : Bool := path.head? == some '/'

/-- `MAXSYMLINKS` -/
def maxLinks : ℕ := 40

namespace Space

variable {P : Type}

/-- A lookup that hands the rest over to `follow` at the first symbolic link. -/
def walkWith (S : Space P) (follow : P → List (List Char) → Option (Found P)) :
    P → List (List Char) → Option (Found P)
  | p, [] => some (.dir p)
  | p, name :: names =>
    if name = [] ∨ name = ['.'] then S.walkWith follow p names
    else if name = ['.', '.'] then S.walkWith follow (S.parent p) names
    else
      match S.look p name with
      | .missing => none
      | .dir q => S.walkWith follow q names
      | .file q => if names.isEmpty then some (.file q) else none
      | .link target =>
        follow (if isAbsolute target then S.root else p) (components target ++ names)

/-- A lookup that follows up to `links` symbolic links. -/
def walk (S : Space P) : ℕ → P → List (List Char) → Option (Found P)
  | 0 => S.walkWith fun _ _ => none
  | links + 1 => S.walkWith (S.walk links)

/-- The directory that a path leads to. -/
def dirOf (S : Space P) (p : P) (names : List (List Char)) : Option P :=
  match S.walk maxLinks p names with
  | some (.dir q) => some q
  | _ => none

/-- The directory and the name of what the last component of a path names; nothing for `.` and
`..`. -/
def entryOf (S : Space P) (p : P) (names : List (List Char)) : Option (P × List Char) :=
  let names := names.rdropWhile (· = [])
  match names.getLast? with
  | none => none
  | some name =>
    if name = ['.'] ∨ name = ['.', '.'] then none
    else (S.dirOf p names.dropLast).map fun q => (q, name)

/-- What is at the end of a path whose last component is not followed, unless a slash says so. -/
def lstat (S : Space P) (p : P) (names : List (List Char)) : Option (Entry P) :=
  match names.getLast? with
  | none => some (.dir p)
  | some name =>
    if name = [] ∨ name = ['.'] ∨ name = ['.', '.'] then
      (S.walk maxLinks p names).map fun
        | .dir q => .dir q
        | .file q => .file q
    else (S.dirOf p names.dropLast).map fun q => S.look q name

/-! ## What a lookup keeps -/

variable {S T : Space P} {follow : P → List (List Char) → Option (Found P)} {p q r : P}
  {names : List (List Char)} {name : List Char} {links : ℕ} {Inv InvFile : P → Prop}
  {found : Found P}

theorem walkWith_of_inv (hparent : ∀ p, Inv p → Inv (S.parent p))
    (hdir : ∀ p name q, Inv p → S.look p name = .dir q → Inv q)
    (hfile : ∀ p name q, Inv p → S.look p name = .file q → InvFile q)
    (hfollow : ∀ p names found, Inv p → follow p names = some found → found.Sat Inv InvFile)
    (hroot : Inv S.root) (hp : Inv p) (h : S.walkWith follow p names = some found) :
    found.Sat Inv InvFile := by
  induction names generalizing p with
  | nil =>
    obtain rfl := Option.some.inj h
    exact hp
  | cons name names ih =>
    unfold walkWith at h
    split at h
    · exact ih hp h
    · split at h
      · exact ih (hparent p hp) h
      · split at h
        · cases h
        · next hlook => exact ih (hdir _ _ _ hp hlook) h
        · next hlook =>
          split at h
          · obtain rfl := Option.some.inj h
            exact hfile _ _ _ hp hlook
          · cases h
        · split at h
          · exact hfollow _ _ _ hroot h
          · exact hfollow _ _ _ hp h

/-- **What holds of the directories and files on the way holds where a lookup ends.** -/
theorem walk_of_inv (hparent : ∀ p, Inv p → Inv (S.parent p))
    (hdir : ∀ p name q, Inv p → S.look p name = .dir q → Inv q)
    (hfile : ∀ p name q, Inv p → S.look p name = .file q → InvFile q) (hroot : Inv S.root)
    (hp : Inv p) (h : S.walk links p names = some found) : found.Sat Inv InvFile := by
  induction links generalizing p names found with
  | zero => exact walkWith_of_inv hparent hdir hfile (fun _ _ _ _ h => by cases h) hroot hp h
  | succ links ih =>
    exact walkWith_of_inv hparent hdir hfile (fun _ _ _ hp h => ih hp h) hroot hp h

theorem dirOf_eq : S.dirOf p names = some q ↔ S.walk maxLinks p names = some (.dir q) := by
  unfold dirOf
  split
  · next r h => simp [h]
  · next h =>
    refine iff_of_false (fun hnone => by cases hnone) fun hsome => ?_
    exact h q hsome

/-- Everything that is found in `S` is found in `T`. -/
structure Within (S T : Space P) : Prop where
  root : T.root = S.root
  parent : T.parent = S.parent
  look : ∀ p name, S.look p name ≠ .missing → T.look p name = S.look p name

theorem Within.walkWith {follow' : P → List (List Char) → Option (Found P)} (hST : S.Within T)
    (hfollow : ∀ p names q, follow p names = some q → follow' p names = some q)
    (h : S.walkWith follow p names = some found) : T.walkWith follow' p names = some found := by
  induction names generalizing p with
  | nil => exact h
  | cons name names ih =>
    unfold Space.walkWith at h ⊢
    split at h
    · next hskip =>
      rw [if_pos hskip]
      exact ih h
    · next hskip =>
      rw [if_neg hskip]
      split at h
      · next hup =>
        rw [if_pos hup, hST.parent]
        exact ih h
      · next hup =>
        rw [if_neg hup]
        split at h
        · cases h
        · next hlook =>
          rw [hST.look p name (by simp [hlook]), hlook]
          exact ih h
        · next hlook =>
          rw [hST.look p name (by simp [hlook]), hlook]
          exact h
        · next hlook =>
          rw [hST.look p name (by simp [hlook]), hlook, hST.root]
          exact hfollow _ _ _ h

/-- **What was found is found again with more there.** -/
theorem Within.walk (hST : S.Within T)
    (h : S.walk links p names = some found) : T.walk links p names = some found := by
  induction links generalizing p names found with
  | zero => exact hST.walkWith (fun _ _ _ h => by cases h) h
  | succ links ih => exact hST.walkWith (fun _ _ _ h => ih h) h

theorem walkWith_append {rest : List (List Char)}
    (hrest : ∀ follow, S.walkWith follow q rest = some found)
    (hfollow : ∀ p names, follow p names = some (.dir q) → follow p (names ++ rest) = some found)
    (h : S.walkWith follow p names = some (.dir q)) :
    S.walkWith follow p (names ++ rest) = some found := by
  induction names generalizing p with
  | nil =>
    simp only [walkWith, Option.some.injEq, Found.dir.injEq] at h
    subst h
    exact hrest follow
  | cons name names ih =>
    rw [List.cons_append]
    unfold walkWith at h ⊢
    split at h
    · next hskip =>
      rw [if_pos hskip]
      exact ih h
    · next hskip =>
      rw [if_neg hskip]
      split at h
      · next hup =>
        rw [if_pos hup]
        exact ih h
      · next hup =>
        rw [if_neg hup]
        cases hlook : S.look p name with
        | missing => simp [hlook] at h
        | dir r =>
          simp only [hlook] at h ⊢
          exact ih h
        | file r =>
          simp only [hlook] at h
          split at h <;> cases h
        | link target =>
          simp only [hlook] at h ⊢
          rw [← List.append_assoc]
          exact hfollow _ _ h

/-- Going on from where a lookup ended, without a further link. -/
theorem walk_append {rest : List (List Char)}
    (hrest : ∀ follow, S.walkWith follow q rest = some found)
    (h : S.walk links p names = some (.dir q)) :
    S.walk links p (names ++ rest) = some found := by
  induction links generalizing p names with
  | zero => exact walkWith_append hrest (fun _ _ h => by cases h) h
  | succ links ih => exact walkWith_append hrest (fun _ _ h => ih h) h

theorem walkWith_cons : S.walkWith follow p (name :: names) =
    if name = [] ∨ name = ['.'] then S.walkWith follow p names
    else if name = ['.', '.'] then S.walkWith follow (S.parent p) names
    else
      match S.look p name with
      | .missing => none
      | .dir q => S.walkWith follow q names
      | .file q => if names.isEmpty then some (.file q) else none
      | .link target =>
        follow (if isAbsolute target then S.root else p) (components target ++ names) := rfl

theorem walkWith_append_inv {rest : List (List Char)}
    (hfollow : ∀ p names, follow p (names ++ rest) = some found →
      ∃ q g, follow p names = some (.dir q) ∧ S.walkWith g q rest = some found)
    (hrest : rest ≠ []) (h : S.walkWith follow p (names ++ rest) = some found) :
    ∃ q g, S.walkWith follow p names = some (.dir q) ∧ S.walkWith g q rest = some found := by
  induction names generalizing p with
  | nil => exact ⟨p, follow, rfl, h⟩
  | cons name names ih =>
    rw [List.cons_append] at h
    rw [walkWith_cons] at h
    simp only [walkWith_cons]
    split at h
    · next hskip =>
      simp only [if_pos hskip]
      exact ih h
    · next hskip =>
      simp only [if_neg hskip]
      split at h
      · next hup =>
        simp only [if_pos hup]
        exact ih h
      · next hup =>
        simp only [if_neg hup]
        cases hlook : S.look p name with
        | missing => simp [hlook] at h
        | dir r =>
          simp only [hlook] at h ⊢
          exact ih h
        | file r => simp [hlook, hrest] at h
        | link target =>
          simp only [hlook, ← List.append_assoc] at h ⊢
          exact hfollow _ _ h

/-- What comes before the end of a path is a directory. -/
theorem walk_append_inv {rest : List (List Char)} (hrest : rest ≠ [])
    (h : S.walk links p (names ++ rest) = some found) :
    ∃ q g, S.walk links p names = some (.dir q) ∧ S.walkWith g q rest = some found := by
  induction links generalizing p names with
  | zero => exact walkWith_append_inv (fun _ _ h => by cases h) hrest h
  | succ links ih => exact walkWith_append_inv (fun _ _ h => ih h) hrest h

/-! ## The last component -/

/-- A name that a directory can have something under. -/
def Proper (name : List Char) : Prop := name ≠ [] ∧ name ≠ ['.'] ∧ name ≠ ['.', '.']

theorem entryOf_snoc (hname : Proper name) (k : ℕ) :
    S.entryOf p (names ++ name :: List.replicate k []) =
      (S.dirOf p names).map fun q => (q, name) := by
  have hdrop : (names ++ name :: List.replicate k []).rdropWhile (· = []) = names ++ [name] := by
    induction k with
    | zero => simp [hname.1]
    | succ k ih =>
      rw [List.replicate_succ', ← List.cons_append, ← List.append_assoc, List.rdropWhile_concat]
      simpa using ih
  simp [entryOf, hdrop, hname.2.1, hname.2.2]

/-- Only slashes come after the last component that counts. -/
theorem entryOf_eq_some (h : S.entryOf p names = some (q, name)) : Proper name ∧
    ∃ pre k, names = pre ++ name :: List.replicate k [] ∧ S.dirOf p pre = some q := by
  unfold entryOf at h
  simp only at h
  rcases List.eq_nil_or_concat (names.rdropWhile (· = [])) with hnil | ⟨pre, last, hlast⟩
  · simp [hnil] at h
  · rw [List.concat_eq_append] at hlast
    have hslashes := List.rdropWhile_append_rtakeWhile (p := (· = [])) (l := names)
    have hempty := List.rdropWhile_last_not (· = []) names (by simp [hlast])
    simp only [hlast, List.getLast?_append, List.getLast?_singleton, Option.some_or,
      List.dropLast_concat, List.getLast_append_singleton, decide_eq_true_eq] at h hempty
    split at h
    · cases h
    · next hdots =>
      obtain ⟨r, hr, hpair⟩ := Option.map_eq_some_iff.1 h
      obtain ⟨rfl, rfl⟩ := Prod.mk.inj hpair
      refine ⟨⟨hempty, fun h => hdots (Or.inl h), fun h => hdots (Or.inr h)⟩, pre,
        (names.rtakeWhile (· = [])).length, ?_, hr⟩
      have hreplicate : names.rtakeWhile (· = []) =
          List.replicate (names.rtakeWhile (· = [])).length [] :=
        List.eq_replicate_iff.2 ⟨rfl, fun x hx => by simpa using List.mem_rtakeWhile_imp hx⟩
      rw [← hreplicate]
      simpa [hlast] using hslashes.symm

theorem walkWith_slashes (k : ℕ) :
    S.walkWith follow p (List.replicate k []) = some (.dir p) := by
  induction k with
  | zero => rfl
  | succ k ih =>
    rw [List.replicate_succ]
    unfold walkWith
    rw [if_pos (Or.inl rfl)]
    exact ih

theorem walkWith_skip (hname : name = [] ∨ name = ['.']) :
    S.walkWith follow p [name] = some (.dir p) := by
  unfold walkWith
  rw [if_pos hname]
  rfl

theorem walkWith_dir (hname : Proper name) (hlook : S.look p name = .dir q) :
    S.walkWith follow p (name :: names) = S.walkWith follow q names := by
  unfold walkWith
  rw [if_neg (by simp [hname.1, hname.2.1]), if_neg hname.2.2, hlook]
  cases names <;> rfl

/-- **A path that nothing is at the end of leads nowhere.** -/
theorem walk_of_lstat (h : S.lstat p names = none ∨ S.lstat p names = some .missing) :
    S.walk maxLinks p names = none := by
  rcases List.eq_nil_or_concat names with rfl | ⟨pre, name, rfl⟩
  · simp [lstat] at h
  · rw [List.concat_eq_append] at h ⊢
    unfold lstat at h
    simp only [List.getLast?_append, List.getLast?_singleton, Option.some_or,
      List.dropLast_concat] at h
    split at h
    · rcases h with h | h
      · exact Option.map_eq_none_iff.1 h
      · obtain ⟨found, -, hentry⟩ := Option.map_eq_some_iff.1 h
        cases found <;> cases hentry
    · next hdots =>
      have hproper : Proper name :=
        ⟨fun h => hdots (Or.inl h), fun h => hdots (Or.inr (Or.inl h)),
          fun h => hdots (Or.inr (Or.inr h))⟩
      by_contra hsome
      obtain ⟨found, hfound⟩ := Option.ne_none_iff_exists'.1 hsome
      obtain ⟨q, g, hq, hlast⟩ := walk_append_inv (by simp) hfound
      rw [dirOf_eq.2 hq] at h
      have hmissing : S.look q name = .missing := by simpa using h
      rw [walkWith_cons, hmissing] at hlast
      simp [hproper.1, hproper.2.1, hproper.2.2] at hlast

end Space

end FileSystem
