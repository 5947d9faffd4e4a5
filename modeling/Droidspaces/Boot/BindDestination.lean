import Droidspaces.Boot.CustomBinds
import Mathlib.Tactic.SplitIfs

/-!
# Destinations of bind mounts

`validate_bind_destination` goes over a destination from slash to slash.  What it accepts leads to
something below the rootfs, wherever that is, unless it is made of slashes only: the test for the
root looks at the second byte, and there it finds a slash (`isSafeguarded_iff`).
-/

namespace Droidspaces.CustomBinds

open FileSystem Space

/-! ## The code -/

theorem length_dropWhile_name_lt (c : Char) (t : Text) :
    (((c :: t).dropWhile (· == '/')).dropWhile (· != '/')).length < (c :: t).length := by
  by_cases hc : c = '/'
  · have hslash : ((c :: t).dropWhile (· == '/')) = t.dropWhile (· == '/') := by simp [hc]
    have hname := (List.dropWhile_suffix (· != '/') (l := t.dropWhile (· == '/'))).length_le
    have hrest := (List.dropWhile_suffix (· == '/') (l := t)).length_le
    rw [hslash, List.length_cons]
    omega
  · have hstart : ((c :: t).dropWhile (· == '/')) = c :: t := by simp [hc]
    have hname : (c :: t).dropWhile (· != '/') = t.dropWhile (· != '/') := by simp [hc]
    have hrest := (List.dropWhile_suffix (· != '/') (l := t)).length_le
    rw [hstart, hname, List.length_cons]
    omega

/-- The loop from `p` on: slashes are skipped, and the component behind them is looked at. -/
def validateFrom : Text → Bool
  | [] => true
  | c :: t =>
    let start := (c :: t).dropWhile (· == '/')
    let name := start.takeWhile (· != '/')
    if name.length = 0 then validateFrom (start.dropWhile (· != '/'))
    else if name = ['.'] ∨ name = ['.', '.'] then false
    else if name.any isControl then false
    else validateFrom (start.dropWhile (· != '/'))
termination_by p => p.length
decreasing_by all_goals exact length_dropWhile_name_lt c t

/-- `validate_bind_destination` -/
def validateDestination (dest : Text) : Bool :=
  if dest.head? ≠ some '/' ∨ dest.tail = [] then false
  else if pathMax ≤ dest.length then false
  else validateFrom dest

/-! ## Components -/

/-- The components of a path that name something, which slashes do not. -/
def names (path : Text) : List Text := (components path).filter (· ≠ [])

/-- The path leads to something below the directory, and stays below it on its way. -/
def LeadsBelow (dir path : Text) : Prop :=
  ∃ below ≠ [], (∀ name ∈ below, Proper name) ∧ names path = names dir ++ below

theorem components_cons_slash (t : Text) : components ('/' :: t) = [] :: components t :=
  List.splitOn_append_cons_self [] t

theorem components_of_dropWhile_eq_nil {t : Text} (h : t.dropWhile (· != '/') = []) :
    components t = [t] := by
  refine List.splitOn_eq_singleton fun hmem => ?_
  simpa using List.dropWhile_eq_nil_iff.1 h '/' hmem

/-- The first component, and those behind the slash at its end. -/
theorem components_split {t rest : Text} {c : Char} (h : t.dropWhile (· != '/') = c :: rest) :
    components t = t.takeWhile (· != '/') :: components rest ∧ c = '/' := by
  have hc : c = '/' := by
    have hhead := List.head?_dropWhile_not (· != '/') t
    rw [h] at hhead
    simpa using hhead
  have hnot : '/' ∉ t.takeWhile (· != '/') := fun hmem => by
    simpa using List.mem_takeWhile_imp hmem
  refine ⟨?_, hc⟩
  conv_lhs => rw [← List.takeWhile_append_dropWhile (p := (· != '/')) (l := t), h, hc]
  exact List.splitOn_append_cons_self_of_not_mem hnot rest

theorem names_below (dir rest : Text) : names (dir ++ '/' :: rest) = names dir ++ names rest := by
  have hsplit : components (dir ++ '/' :: rest) = components dir ++ components rest :=
    List.splitOn_append_cons_self dir rest
  rw [names, hsplit, List.filter_append, names, names]

/-! ## What the loop looks at -/

def isPlain (name : Text) : Bool :=
  name ≠ ['.'] && name ≠ ['.', '.'] && !name.any isControl

theorem all_components_dropWhile (t : Text) :
    (components (t.dropWhile (· == '/'))).all isPlain = (components t).all isPlain := by
  induction t with
  | nil => rfl
  | cons c t ih =>
    by_cases hc : c = '/'
    · have hempty : isPlain [] = true := by decide
      rw [hc, components_cons_slash, List.all_cons, hempty, Bool.true_and, ← ih]
      rfl
    · rw [List.dropWhile_cons_of_neg (by simpa using hc)]

/-- What the loop has to say of a component, and of what is left. -/
theorem all_components_name (t : Text) :
    (components t).all isPlain =
      (isPlain (t.takeWhile (· != '/')) && (components (t.dropWhile (· != '/'))).all isPlain) := by
  have hempty : isPlain [] = true := by decide
  cases hrest : t.dropWhile (· != '/') with
  | nil =>
    have hname : t.takeWhile (· != '/') = t := by
      have hsplit := List.takeWhile_append_dropWhile (p := (· != '/')) (l := t)
      rwa [hrest, List.append_nil] at hsplit
    rw [components_of_dropWhile_eq_nil hrest, hname, List.all_cons, List.all_nil, Bool.and_true,
      show components [] = [[]] from rfl, List.all_cons, hempty, List.all_nil, Bool.and_true,
      Bool.and_true]
  | cons c rest =>
    obtain ⟨hsplit, rfl⟩ := components_split hrest
    rw [hsplit, components_cons_slash, List.all_cons, List.all_cons, hempty, Bool.true_and]

/-- The loop ends, and every component is looked at if none is refused. -/
theorem validateFrom_eq (p : Text) : validateFrom p = (components p).all isPlain := by
  fun_induction validateFrom p with
  | case1 => rfl
  | case2 c t start name hlen ih =>
    have hname : isPlain name = true := by
      rw [List.length_eq_zero_iff.1 hlen]
      decide
    rw [ih, ← all_components_dropWhile (c :: t), all_components_name start, hname, Bool.true_and]
  | case3 c t start name hlen hdots =>
    have hname : isPlain name = false := by
      rcases hdots with hdots | hdots <;>
      · rw [hdots]
        decide
    rw [← all_components_dropWhile (c :: t), all_components_name start, hname, Bool.false_and]
  | case4 c t start name hlen hdots hcontrol =>
    have hname : isPlain name = false := by simp [isPlain, hcontrol]
    rw [← all_components_dropWhile (c :: t), all_components_name start, hname, Bool.false_and]
  | case5 c t start name hlen hdots hcontrol ih =>
    have hname : isPlain name = true := by
      rw [not_or] at hdots
      simp [isPlain, hdots, hcontrol]
    rw [ih, ← all_components_dropWhile (c :: t), all_components_name start, hname, Bool.true_and]

theorem validateDestination_eq_true_iff (dest : Text) :
    validateDestination dest = true ↔ isAbsolute dest = true ∧ 2 ≤ dest.length ∧
      dest.length < pathMax ∧ ∀ name ∈ components dest, isPlain name = true := by
  have htail : dest.head? = some '/' → (dest.tail = [] ↔ dest.length < 2) := by
    intro hhead
    obtain ⟨t, rfl⟩ := List.head?_eq_some_iff.1 hhead
    rw [List.tail_cons, List.length_cons, ← List.length_eq_zero_iff]
    omega
  unfold validateDestination isAbsolute
  rw [validateFrom_eq, beq_iff_eq, ← List.all_eq_true]
  split_ifs with hstart hlen
  · refine iff_of_false not_false fun h => ?_
    rcases hstart with hhead | hroot
    · exact hhead h.1
    · exact absurd ((htail h.1).1 hroot) (Nat.not_lt.2 h.2.1)
  · exact iff_of_false not_false fun h => Nat.not_le.2 h.2.2.1 hlen
  · rw [not_or, not_not] at hstart
    have hlong := mt (htail hstart.1).2 hstart.2
    simp [hstart.1, Nat.not_lt.1 hlong, Nat.not_le.1 hlen]

/-- The loop and the test of all components are the same. -/
theorem validateDestination_eq (dest : Text) :
    validateDestination dest = validateBindDestination dest := by
  rw [Bool.eq_iff_iff, validateDestination_eq_true_iff, ← List.all_eq_true]
  simp only [validateBindDestination, Bool.and_eq_true, decide_eq_true_eq, and_assoc]
  rfl

/-! ## What is accepted -/

/-- There is something to go down to, nothing to go up to or to stay with, and nothing that cannot
be printed. -/
structure IsStrict (dest : Text) : Prop where
  named : ∃ name ∈ components dest, name ≠ []
  noDots : ∀ name ∈ components dest, name ≠ ['.'] ∧ name ≠ ['.', '.']
  printable : ∀ c ∈ dest, isControl c = false

/-- What is accepted stays strictly below any rootfs, and what is absolute, not too long and stays
there is accepted. -/
def IsSafeguarded (dest : Text) : Prop :=
  (validateDestination dest = true →
    IsStrict dest ∧ ∀ rootfs, LeadsBelow rootfs (rootfs ++ dest)) ∧
  (isAbsolute dest = true → dest.length < pathMax → IsStrict dest →
    validateDestination dest = true)

/-- Two slashes or more, and nothing else. -/
def IsSlashes (dest : Text) : Prop :=
  2 ≤ dest.length ∧ dest.length < pathMax ∧ ∀ c ∈ dest, c = '/'

/-- Components are what a path has besides slashes. -/
theorem forall_components (P : Char → Prop) (path : Text) :
    (∀ name ∈ components path, ∀ c ∈ name, P c) ↔ ∀ c ∈ path, c = '/' ∨ P c := by
  induction path with
  | nil => simp [components]
  | cons c t ih =>
    rw [List.forall_mem_cons, ← ih]
    by_cases hc : c = '/'
    · rw [hc, components_cons_slash]
      simp
    · obtain ⟨name, rest, hsplit⟩ := List.exists_cons_of_ne_nil (List.splitOn_ne_nil '/' t)
      have ht : components t = name :: rest := hsplit
      have hcons : components (c :: t) = (c :: name) :: rest := by
        rw [components, List.splitOn_cons_eq_if_modifyHead, if_neg (by simpa using hc), hsplit]
        rfl
      rw [hcons, ht]
      simp [hc, and_assoc]

theorem named_iff (dest : Text) :
    (∃ name ∈ components dest, name ≠ []) ↔ ¬ ∀ c ∈ dest, c = '/' := by
  have hall := forall_components (fun _ => False) dest
  simp only [or_false] at hall
  rw [← hall]
  push Not
  refine exists_congr fun name => and_congr_right fun _ => ?_
  cases name with
  | nil => simp
  | cons c name => simp

theorem isPlain_iff (dest : Text) :
    (∀ name ∈ components dest, isPlain name = true) ↔
      (∀ name ∈ components dest, name ≠ ['.'] ∧ name ≠ ['.', '.']) ∧
        ∀ c ∈ dest, isControl c = false := by
  have hcontrol : (∀ c ∈ dest, isControl c = false) ↔
      ∀ name ∈ components dest, ∀ c ∈ name, isControl c = false := by
    rw [forall_components]
    refine forall₂_congr fun c _ => (or_iff_right_of_imp ?_).symm
    rintro rfl
    decide
  rw [hcontrol, ← forall₂_and]
  simp [isPlain, and_assoc]

theorem IsStrict.leadsBelow {dest : Text} (h : IsStrict dest) (habs : isAbsolute dest = true)
    (rootfs : Text) : LeadsBelow rootfs (rootfs ++ dest) := by
  obtain ⟨rest, rfl⟩ : ∃ rest, dest = '/' :: rest := by
    simpa [isAbsolute, List.head?_eq_some_iff] using habs
  have hnames : names ('/' :: rest) = names rest := names_below [] rest
  refine ⟨names rest, ?_, fun name hname => ?_, names_below rootfs rest⟩
  · obtain ⟨name, hmem, hne⟩ := h.named
    rw [← hnames]
    exact List.ne_nil_of_mem (List.mem_filter.2 ⟨hmem, by simpa using hne⟩)
  · rw [← hnames] at hname
    obtain ⟨hmem, hne⟩ := List.mem_filter.1 hname
    exact ⟨by simpa using hne, h.noDots name hmem⟩

/-- **Destinations are safe exactly if they are not made of slashes only.** -/
theorem isSafeguarded_iff (dest : Text) : IsSafeguarded dest ↔ ¬ IsSlashes dest := by
  have hstrict : IsStrict dest ↔ (¬ ∀ c ∈ dest, c = '/') ∧
      ∀ name ∈ components dest, isPlain name = true := by
    rw [isPlain_iff, ← named_iff]
    exact ⟨fun h => ⟨h.named, h.noDots, h.printable⟩, fun h => ⟨h.1, h.2.1, h.2.2⟩⟩
  constructor
  · rintro ⟨hsafe, -⟩ ⟨hlen, hfits, hslashes⟩
    have habs : isAbsolute dest = true := by
      obtain ⟨c, t, rfl⟩ := List.exists_cons_of_length_pos (Nat.zero_lt_two.trans_le hlen)
      rw [hslashes c List.mem_cons_self]
      rfl
    have hplain : ∀ name ∈ components dest, isPlain name = true := by
      have hempty := (named_iff dest).not.2 (not_not.2 hslashes)
      push Not at hempty
      intro name hname
      rw [hempty name hname]
      decide
    have haccepted := (validateDestination_eq_true_iff dest).2 ⟨habs, hlen, hfits, hplain⟩
    exact (hstrict.1 (hsafe haccepted).1).1 hslashes
  · refine fun hne => ⟨fun haccepted => ?_, fun habs hfits hdest => ?_⟩
    · obtain ⟨habs, hlen, hfits, hplain⟩ := (validateDestination_eq_true_iff dest).1 haccepted
      have hdest : IsStrict dest := hstrict.2 ⟨fun hall => hne ⟨hlen, hfits, hall⟩, hplain⟩
      exact ⟨hdest, hdest.leadsBelow habs⟩
    · obtain ⟨hnamed, hplain⟩ := hstrict.1 hdest
      refine (validateDestination_eq_true_iff dest).2 ⟨habs, ?_, hfits, hplain⟩
      by_contra hshort
      obtain ⟨rest, rfl⟩ : ∃ rest, dest = '/' :: rest := by
        simpa [isAbsolute, List.head?_eq_some_iff] using habs
      apply hnamed
      rw [List.length_cons] at hshort
      have hnil : rest = [] := List.length_eq_zero_iff.1 (by omega)
      simp [hnil]

/-- `//` is accepted, and is the rootfs itself. -/
theorem doubleSlash_not_isSafeguarded : ¬ IsSafeguarded "//".toList := by
  intro h
  have haccepted : validateDestination "//".toList = true := by
    rw [validateDestination_eq]
    decide
  obtain ⟨name, hname, hne⟩ := (h.1 haccepted).1.named
  have hempty : ∀ name ∈ components "//".toList, name = [] := by decide
  exact hne (hempty name hname)

end Droidspaces.CustomBinds
