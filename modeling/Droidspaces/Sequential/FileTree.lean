import Mathlib.Data.List.Infix

/-!
# File trees

A file tree is the list of what it holds.  The operations are the ones that shell commands are
made of: putting a node at a path, making the missing directories of a path, taking away what is
at or below a path.

`Intact ps t u` says that everything that `t` holds outside the paths `ps` is still in `u`, with
its contents; it is what a sequence of commands working inside `ps` keeps.
-/

namespace Sequential

/-- The components of an absolute path. -/
abbrev Path := List String

inductive Node (β : Type) where
  | dir
  | file (content : β)
  deriving DecidableEq

/-- For each path its first entry counts. -/
structure FileTree (β : Type) where
  entries : List (Path × Node β)

namespace FileTree

variable {β : Type} {t u : FileTree β} {p q : Path} {n : Node β} {ps rs : List Path}

def find (t : FileTree β) (p : Path) : Option (Node β) := t.entries.lookup p

def put (t : FileTree β) (p : Path) (n : Node β) : FileTree β := ⟨(p, n) :: t.entries⟩

def discard (t : FileTree β) (doomed : Path → Bool) : FileTree β :=
  ⟨t.entries.filter fun e => !doomed e.1⟩

theorem find_put : (t.put p n).find q = if q = p then some n else t.find q := by
  unfold find put
  by_cases hq : q = p
  · simp [hq]
  · simp [hq, List.lookup_cons, beq_false_of_ne hq]

theorem find_discard {doomed : Path → Bool} :
    (t.discard doomed).find q = if doomed q then none else t.find q := by
  unfold find discard
  induction t.entries with
  | nil => simp
  | cons e es ih =>
    obtain ⟨p, n⟩ := e
    by_cases hqp : q = p
    · subst hqp
      cases hq : doomed q with
      | true => simpa [hq] using ih
      | false => simp [hq]
    · have hbeq : (q == p) = false := beq_false_of_ne hqp
      cases hp : doomed p with
      | true => simpa [hp, List.lookup_cons, hbeq] using ih
      | false => simpa [hp, List.lookup_cons, hbeq] using ih

/-- There is nothing at or below `p`. -/
def isFree (t : FileTree β) (p : Path) : Bool := t.entries.all fun e => !p.isPrefixOf e.1

theorem find_of_isFree (h : t.isFree p = true) (hpq : p <+: q) : t.find q = none := by
  unfold find
  rw [List.lookup_eq_none_iff]
  intro e he
  have hfree : ¬ p <+: e.1 := fun hpe => by
    have hall := List.all_eq_true.1 h e he
    simp [List.isPrefixOf_iff_prefix.2 hpe] at hall
  simpa using fun heq : q = e.1 => hfree (heq ▸ hpq)

/-- The missing directories of `p`, outermost first. -/
def mkdirs (t : FileTree β) (p : Path) : FileTree β :=
  p.inits.foldl (fun t q => if (t.find q).isNone then t.put q .dir else t) t

def isFile (t : FileTree β) (p : Path) : Bool :=
  match t.find p with
  | some (.file _) => true
  | _ => false

def isDir (t : FileTree β) (p : Path) : Bool :=
  match t.find p with
  | some .dir => true
  | _ => false

theorem isDir_iff : t.isDir p = true ↔ t.find p = some .dir := by
  unfold isDir
  split
  · next h => simp [h]
  · next h => exact iff_of_false Bool.false_ne_true h

/-- No directory can be made at `p`. -/
def fileInTheWay (t : FileTree β) (p : Path) : Bool := p.inits.any t.isFile

/-- What is at or below `p`, less what cannot be removed. -/
def rmTree (t : FileTree β) (kept : Path → Bool) (p : Path) : FileTree β :=
  t.discard fun q => p.isPrefixOf q && !kept q

/-- `p` holds nothing. -/
def isBare (t : FileTree β) (p : Path) : Bool :=
  t.entries.all fun e => !p.isPrefixOf e.1 || e.1 == p

theorem find_of_isBare (h : t.isBare p = true) (hpq : p <+: q) (hne : q ≠ p) :
    t.find q = none := by
  unfold find
  rw [List.lookup_eq_none_iff]
  intro e he
  have hall := List.all_eq_true.1 h e he
  simp only [Bool.or_eq_true, Bool.not_eq_true', beq_iff_eq] at hall
  rw [bne_iff_ne]
  rintro rfl
  rcases hall with hoff | heq
  · simp [List.isPrefixOf_iff_prefix.2 hpq] at hoff
  · exact hne heq

theorem exists_of_not_isBare (h : t.isBare p = false) :
    ∃ q n, p <+: q ∧ q ≠ p ∧ t.find q = some n := by
  obtain ⟨e, he, hbelow⟩ := List.all_eq_false.1 h
  simp only [Bool.or_eq_true, Bool.not_eq_true', beq_iff_eq, not_or, Bool.not_eq_false] at hbelow
  obtain ⟨n, hn⟩ : ∃ n, t.find e.1 = some n := by
    refine Option.isSome_iff_exists.1 (Option.isSome_iff_ne_none.2 fun hnone => ?_)
    have hne := List.lookup_eq_none_iff.1 hnone e he
    simp at hne
  exact ⟨e.1, n, List.isPrefixOf_iff_prefix.1 hbelow.1, hbelow.2, hn⟩

/-! ## Copying and renaming -/

/-- Put at `dst` what `s` holds at or below `src`, as far as `kept` lets it through. -/
def graft (t : FileTree β) (dst : Path) (s : FileTree β) (src : Path) (kept : Path → Bool) :
    FileTree β :=
  ⟨(s.entries.filterMap fun e =>
    if src.isPrefixOf e.1 && kept (e.1.drop src.length) then
      some (dst ++ e.1.drop src.length, e.2)
    else none) ++ t.entries⟩

/-- `rename(src, dst)`, with nothing at `dst` yet. -/
def rename (t : FileTree β) (src dst : Path) : FileTree β :=
  (t.discard fun q => src.isPrefixOf q).graft dst t src fun _ => true

theorem find_graft_below {s : FileTree β} {src dst : Path} {kept : Path → Bool} (rel : Path) :
    (t.graft dst s src kept).find (dst ++ rel) =
      if kept rel then (s.find (src ++ rel)).or (t.find (dst ++ rel)) else t.find (dst ++ rel) := by
  unfold find graft
  rw [List.lookup_append]
  induction s.entries with
  | nil => simp
  | cons e es ih =>
    obtain ⟨p, n⟩ := e
    by_cases hsrc : src <+: p
    · obtain ⟨r, rfl⟩ := hsrc
      by_cases hr : rel = r
      · subst hr
        cases hk : kept rel with
        | true => simp [hk]
        | false => simpa [hk] using ih
      · have hdstne : (dst ++ rel == dst ++ r) = false :=
          beq_false_of_ne fun h => hr (List.append_cancel_left h)
        have hsrcne : (src ++ rel == src ++ r) = false :=
          beq_false_of_ne fun h => hr (List.append_cancel_left h)
        cases hk : kept r with
        | true => simpa [hk, List.lookup_cons, hdstne, hsrcne] using ih
        | false => simpa [hk, List.lookup_cons, hsrcne] using ih
    · have hne : (src ++ rel == p) = false :=
        beq_false_of_ne fun h => hsrc (h ▸ List.prefix_append src rel)
      simpa [hsrc, List.lookup_cons, hne] using ih

theorem find_graft_off {s : FileTree β} {src dst : Path} {kept : Path → Bool}
    (hq : ¬ dst <+: q) : (t.graft dst s src kept).find q = t.find q := by
  unfold find graft
  rw [List.lookup_append]
  have hnone : List.lookup q (s.entries.filterMap fun e =>
      if src.isPrefixOf e.1 && kept (e.1.drop src.length) then
        some (dst ++ e.1.drop src.length, e.2)
      else none) = none := by
    rw [List.lookup_eq_none_iff]
    intro e he
    obtain ⟨e', -, he'⟩ := List.mem_filterMap.1 he
    split at he'
    · obtain rfl := Option.some.inj he'
      simpa using fun heq : q = dst ++ _ => hq (heq ▸ List.prefix_append dst _)
    · cases he'
  rw [hnone, Option.none_or]

/-- What was below `src` is below `dst`. -/
theorem find_rename_below {src dst : Path} (rel : Path) :
    (t.rename src dst).find (dst ++ rel) =
      (t.find (src ++ rel)).or (if src <+: dst ++ rel then none else t.find (dst ++ rel)) := by
  unfold rename
  rw [find_graft_below, if_pos rfl, find_discard]
  simp

theorem find_rename_off {src dst : Path} (hq : ¬ dst <+: q) (hsrc : ¬ src <+: q) :
    (t.rename src dst).find q = t.find q := by
  unfold rename
  rw [find_graft_off hq, find_discard, if_neg]
  simpa [List.isPrefixOf_iff_prefix] using hsrc

theorem find_rename_src {src dst : Path} (hq : ¬ dst <+: q) (hsrc : src <+: q) :
    (t.rename src dst).find q = none := by
  unfold rename
  rw [find_graft_off hq, find_discard, if_pos]
  simpa [List.isPrefixOf_iff_prefix] using hsrc

/-- What is below something is in a directory. -/
def WellFormed (t : FileTree β) : Prop :=
  ∀ p name n, t.find (p ++ [name]) = some n → t.find p = some .dir

/-- Where there is something, there is something on the way to it. -/
theorem WellFormed.find_above (ht : t.WellFormed) {rel : Path}
    (h : (t.find (p ++ rel)).isSome = true) : (t.find p).isSome = true := by
  induction rel using List.reverseRecOn with
  | nil => simpa using h
  | append_singleton rel name ih =>
    obtain ⟨n, hn⟩ := Option.isSome_iff_exists.1 h
    rw [← List.append_assoc] at hn
    exact ih (by rw [ht _ _ _ hn]; rfl)

/-- A listing that has the directory of each of its entries. -/
def listsParents (t : FileTree β) : Bool :=
  t.entries.all fun e => e.1.isEmpty || t.isDir e.1.dropLast

theorem wellFormed_of_listsParents (h : t.listsParents = true) : t.WellFormed := by
  intro p name n hn
  obtain ⟨l₁, l₂, hsplit, -⟩ := List.lookup_eq_some_iff.1 hn
  have hmem : (p ++ [name], n) ∈ t.entries := by simp [hsplit]
  have hparent := List.all_eq_true.1 h _ hmem
  rw [← isDir_iff]
  simpa using hparent

/-- Nothing is below what is not a directory. -/
theorem WellFormed.find_below (ht : t.WellFormed) (hp : t.find p ≠ some .dir) {rel : Path}
    (hrel : rel ≠ []) : t.find (p ++ rel) = none := by
  induction rel using List.reverseRecOn with
  | nil => exact absurd rfl hrel
  | append_singleton rel name ih =>
    rw [← List.append_assoc]
    by_contra hsome
    obtain ⟨n, hn⟩ := Option.ne_none_iff_exists'.1 hsome
    have hdir := ht _ _ _ hn
    cases rel with
    | nil => exact hp (by simpa using hdir)
    | cons r rs =>
      rw [ih (by simp)] at hdir
      cases hdir

/-! ## What is left alone -/

/-- Everything in `t` that is not at or below one of `ps` is in `u`. -/
def Intact (ps : List Path) (t u : FileTree β) : Prop :=
  ∀ q n, t.find q = some n → u.find q = some n ∨ ∃ p ∈ ps, p <+: q

theorem Intact.refl (ps : List Path) (t : FileTree β) : Intact ps t t := fun _ _ h => Or.inl h

theorem Intact.mono (h : Intact ps t u) (hsub : ∀ p ∈ ps, p ∈ rs) : Intact rs t u :=
  fun q n hq => (h q n hq).imp_right fun ⟨p, hp, hpq⟩ => ⟨p, hsub p hp, hpq⟩

/-- Writing inside `ps`. -/
theorem Intact.put (h : Intact ps t u) (hp : ∃ r ∈ ps, r <+: p) : Intact ps t (u.put p n) := by
  intro q m hq
  by_cases hqp : q = p
  · exact Or.inr (hqp ▸ hp)
  · simpa [find_put, hqp] using h q m hq

/-- Removing inside `ps`. -/
theorem Intact.discard {doomed : Path → Bool} (h : Intact ps t u)
    (hdoomed : ∀ q, doomed q = true → ∃ r ∈ ps, r <+: q) : Intact ps t (u.discard doomed) := by
  intro q m hq
  cases hd : doomed q with
  | true => exact Or.inr (hdoomed q hd)
  | false => simpa [find_discard, hd] using h q m hq

/-- Making directories leaves everything as it is. -/
theorem Intact.mkdirs (h : Intact ps t u) : Intact ps t (u.mkdirs p) := by
  unfold FileTree.mkdirs
  induction p.inits generalizing u with
  | nil => exact h
  | cons r rs ih =>
    refine ih ?_
    show Intact ps t (if (u.find r).isNone then u.put r .dir else u)
    split
    · next hr =>
      intro q m hq
      rcases h q m hq with hu | hin
      · have hqr : q ≠ r := fun heq => by
          rw [← heq, hu] at hr
          cases hr
        simp [find_put, hqr, hu]
      · exact Or.inr hin
    · exact h

end FileTree

end Sequential
