import Droidspaces.Boot.BindDestination
import Mathlib.Data.List.Infix
import Mathlib.Data.List.Pairwise

/-!
# The order of bind mounts

`setup_custom_binds` mounts the destinations in the order of their bytes, so that a directory is
there before what is mounted in it.  What a mount hides is decided component by component, by the
kernel, here with no symbolic links on the way; the bytes of a path are more than its components.
`hidesNone_iff` says which lists of binds come out right: a slash too many can put the longer
destination first, which is then below the mount on the shorter one; and what is mounted on the
rootfs itself, or is mounted over, cannot be seen.
-/

namespace Droidspaces.CustomBinds

open FileSystem

/-! ## Mounts on mounts -/

/-- A directory or a file: the mount that it is seen in, the path to the root of that mount, and the
path from there. -/
structure Spot where
  mnt : ℕ
  base : List Text
  place : List Text
  deriving DecidableEq

def Spot.path (p : Spot) : List Text := p.base ++ p.place

def Spot.child (p : Spot) (name : Text) : Spot := { p with place := p.place ++ [name] }

/-- The rootfs, which is the working directory. -/
def Spot.rootfs : Spot := ⟨0, [], []⟩

/-- A mount of a bind. -/
structure Mounted where
  id : ℕ
  on : Spot
  src : Text

/-- Into the mount, on the spot that it is on. -/
def Mounted.enter (m : Mounted) (p : Spot) : Spot := if p = m.on then ⟨m.id, p.path, []⟩ else p

/-- The mounts on one another, in the order in which they were made. -/
abbrev Tree := List Mounted

namespace Tree

/-- Into what is mounted on `p`, and on that. -/
def cross (tree : Tree) (p : Spot) : Spot := tree.foldl (fun q m => m.enter q) p

/-- A lookup: the working directory is taken as it is, everything below with what is mounted on
it. -/
def walk (tree : Tree) (names : List Text) : Spot :=
  names.foldl (fun p name => tree.cross (p.child name)) Spot.rootfs

/-- What is mounted comes on top, also of what is mounted on the rootfs. -/
def target (tree : Tree) (names : List Text) : Spot :=
  if names = [] then tree.cross Spot.rootfs else tree.walk names

def mount (tree : Tree) (b : BindMount) : Tree :=
  tree ++ [⟨tree.length + 1, tree.target (names b.dest), b.src⟩]

/-- The source of the mount that a path leads into, and the path from there. -/
def shown (tree : Tree) (names : List Text) : Option (Text × List Text) :=
  (tree.find? fun m => m.id = (tree.walk names).mnt).map fun m => (m.src, (tree.walk names).place)

end Tree

/-- `setup_custom_binds`, once the binds are sorted, with every mount a success. -/
def mountAll (sorted : List BindMount) : Tree := sorted.foldl Tree.mount []

/-! ## What is promised, and when it holds -/

/-- What `qsort` may make of the binds, which is not told what to do with equal ones. -/
structure IsSorted (binds sorted : List BindMount) : Prop where
  perm : sorted.Perm binds
  order : sorted.Pairwise fun a b => a.dest ≤ b.dest

/-- The components of `a` begin those of `b`, and are fewer. -/
def IsAbove (a b : BindMount) : Prop := names a.dest <+: names b.dest ∧ names a.dest ≠ names b.dest

/-- No mount comes after one below it, and every destination shows its source. -/
structure ShowsAll (sorted : List BindMount) : Prop where
  order : sorted.Pairwise fun a b => ¬ IsAbove b a
  shown : ∀ b ∈ sorted, (mountAll sorted).shown (names b.dest) = some (b.src, [])

/-- However the binds are sorted, none of them hides another. -/
def HidesNone (binds : List BindMount) : Prop :=
  (∀ b ∈ binds, validateDestination b.dest = true) → ∀ sorted, IsSorted binds sorted →
    ShowsAll sorted

/-- Where the two spellings part, one has a slash and the other has none; `strcmp` puts the first
one first if it has ended there, or if what is there for the slash is on the right side of it. -/
def PartsWell : Text → Text → Prop
  | [], _ => True
  | _ :: _, [] => False
  | c :: a, d :: b =>
    if c = d then PartsWell a b
    else if c = '/' then '/' < d
    else c < '/'

/-- The condition on binds. -/
structure IsApart (binds : List BindMount) : Prop where
  named : ∀ b ∈ binds, names b.dest ≠ []
  spelled : ∀ a ∈ binds, ∀ b ∈ binds, IsAbove a b → PartsWell a.dest b.dest
  single : ∀ a ∈ binds, ∀ b ∈ binds, names a.dest = names b.dest → a.src = b.src

/-! ## Spellings -/

/-- What a path begins with is names that are complete, and one that may go on. -/
theorem exists_begun (p : Text) :
    ∃ done begun, '/' ∉ begun ∧ ∀ t, names (p ++ t) = done ++ names (begun ++ t) := by
  induction p using List.reverseRecOn with
  | nil => exact ⟨[], [], List.not_mem_nil, fun t => rfl⟩
  | append_singleton p c ih =>
    obtain ⟨done, begun, hbegun, hp⟩ := ih
    by_cases hc : c = '/'
    · refine ⟨done ++ names begun, [], List.not_mem_nil, fun t => ?_⟩
      rw [List.append_assoc, List.singleton_append, hp, hc, names_below, List.append_assoc,
        List.nil_append]
    · refine ⟨done, begun ++ [c], by simp [hbegun, Ne.symm hc], fun t => ?_⟩
      rw [List.append_assoc, hp, List.append_assoc]

/-- A name that has begun goes on with what comes before the next slash. -/
theorem names_begun {begun : Text} (hbegun : '/' ∉ begun) {c : Char} (hc : c ≠ '/') (t : Text) :
    ∃ rest, names (begun ++ c :: t) = (begun ++ c :: t.takeWhile (· != '/')) :: rest := by
  have hname : (begun ++ c :: t).takeWhile (· != '/') = begun ++ c :: t.takeWhile (· != '/') := by
    rw [List.takeWhile_append_of_pos fun x hx => ?_, List.takeWhile_cons_of_pos (by simpa using hc)]
    simpa using fun h : x = '/' => hbegun (h ▸ hx)
  have hsplit : ∃ rest, components (begun ++ c :: t) =
      (begun ++ c :: t.takeWhile (· != '/')) :: rest := by
    cases hrest : (begun ++ c :: t).dropWhile (· != '/') with
    | nil =>
      have hall := List.takeWhile_append_dropWhile (p := (· != '/')) (l := begun ++ c :: t)
      rw [hrest, List.append_nil] at hall
      exact ⟨[], by rw [components_of_dropWhile_eq_nil hrest, ← hname, hall]⟩
    | cons d rest => exact ⟨components rest, by rw [(components_split hrest).1, hname]⟩
  obtain ⟨rest, hsplit⟩ := hsplit
  exact ⟨rest.filter (· ≠ []), by rw [names, hsplit, List.filter_cons_of_pos (by simp)]⟩

/-- Paths with the same components part at a slash. -/
theorem not_isPrefix_of_part (p : Text) {c d : Char} (hc : c ≠ '/') (hd : d ≠ '/') (hne : c ≠ d)
    (s t : Text) : ¬ names (p ++ c :: s) <+: names (p ++ d :: t) := by
  intro hbeneath
  obtain ⟨done, begun, hbegun, hp⟩ := exists_begun p
  obtain ⟨rest, hs⟩ := names_begun hbegun hc s
  obtain ⟨rest', ht⟩ := names_begun hbegun hd t
  rw [hp, hp, List.prefix_append_right_inj, hs, ht, List.cons_prefix_cons] at hbeneath
  have hcons := List.append_cancel_left hbeneath.1
  exact hne (List.cons.inj hcons).1

theorem lt_iff_partsWell (p s t : Text) (hbeneath : names (p ++ s) <+: names (p ++ t))
    (hne : names (p ++ s) ≠ names (p ++ t)) : s < t ↔ PartsWell s t := by
  induction s generalizing p t with
  | nil =>
    cases t with
    | nil => exact absurd rfl hne
    | cons d t => exact iff_of_true (List.nil_lt_cons d t) trivial
  | cons c s ih =>
    cases t with
    | nil => exact iff_of_false (List.not_lt_nil _) not_false
    | cons d t =>
      rw [List.cons_lt_cons_iff, PartsWell]
      by_cases hcd : c = d
      · subst hcd
        rw [List.append_cons p c s, List.append_cons p c t] at hbeneath hne
        simpa using ih (p ++ [c]) t hbeneath hne
      · have hlt : (c < d ∨ c = d ∧ s < t) ↔ c < d := by simp [hcd]
        rw [hlt, if_neg hcd]
        by_cases hc : c = '/'
        · rw [if_pos hc, hc]
        · have hd : d = '/' := by
            by_contra hd
            exact not_isPrefix_of_part p hc hd hcd s t hbeneath
          rw [if_neg hc, hd]

theorem dest_lt_iff {a b : BindMount} (h : IsAbove a b) :
    a.dest < b.dest ↔ PartsWell a.dest b.dest :=
  lt_iff_partsWell [] a.dest b.dest h.1 h.2

/-! ## Lookups -/

section Lookups

variable {tree : Tree} {m : Mounted} {p : Spot} {b : BindMount}

theorem Mounted.path_enter (m : Mounted) (p : Spot) : (m.enter p).path = p.path := by
  unfold Mounted.enter
  split
  · exact List.append_nil _
  · rfl

theorem Spot.path_child (p : Spot) (name : Text) : (p.child name).path = p.path ++ [name] :=
  (List.append_assoc _ _ _).symm

namespace Tree

theorem cross_append (tree : Tree) (m : Mounted) (p : Spot) :
    cross (tree ++ [m]) p = m.enter (cross tree p) := by
  simp [cross]

theorem walk_append (tree : Tree) (names : List Text) (name : Text) :
    tree.walk (names ++ [name]) = tree.cross ((tree.walk names).child name) := by
  simp [walk]

theorem path_cross (tree : Tree) (p : Spot) : (tree.cross p).path = p.path := by
  induction tree using List.reverseRecOn with
  | nil => rfl
  | append_singleton tree m ih => rw [cross_append, Mounted.path_enter, ih]

theorem path_walk (tree : Tree) (names : List Text) : (tree.walk names).path = names := by
  induction names using List.reverseRecOn with
  | nil => rfl
  | append_singleton names name ih => rw [walk_append, path_cross, Spot.path_child, ih]

theorem path_target (tree : Tree) (names : List Text) : (tree.target names).path = names := by
  unfold target
  split
  · next h => rw [path_cross, h]; rfl
  · exact path_walk tree names

/-- The mounts are numbered from one on, and each is on the rootfs or on one that was there. -/
structure Sound (tree : Tree) : Prop where
  id_pos : ∀ m ∈ tree, 0 < m.id
  id_le : ∀ m ∈ tree, m.id ≤ tree.length
  on_lt : ∀ m ∈ tree, m.on.mnt < tree.length

theorem mnt_cross_le (h : ∀ m ∈ tree, m.id ≤ n) (hp : p.mnt ≤ n) : (tree.cross p).mnt ≤ n := by
  induction tree using List.reverseRecOn with
  | nil => exact hp
  | append_singleton tree m ih =>
    rw [cross_append, Mounted.enter]
    split
    · exact h m (by simp)
    · exact ih fun m hm => h m (by simp [hm])

theorem Sound.mnt_walk_le (h : tree.Sound) (names : List Text) :
    (tree.walk names).mnt ≤ tree.length := by
  induction names using List.reverseRecOn with
  | nil => exact Nat.zero_le _
  | append_singleton names name ih =>
    rw [walk_append]
    exact mnt_cross_le h.id_le ih

theorem Sound.mnt_target_le (h : tree.Sound) (names : List Text) :
    (tree.target names).mnt ≤ tree.length := by
  unfold target
  split
  · exact mnt_cross_le h.id_le (Nat.zero_le _)
  · exact h.mnt_walk_le names

/-- Nothing is mounted in a mount that is not there. -/
theorem cross_eq_self (h : ∀ m ∈ tree, m.on.mnt ≠ p.mnt) : tree.cross p = p := by
  induction tree using List.reverseRecOn with
  | nil => rfl
  | append_singleton tree m ih =>
    have hon : p ≠ m.on := fun heq => h m (by simp) (congrArg Spot.mnt heq.symm)
    rw [cross_append, ih fun m hm => h m (by simp [hm]), Mounted.enter, if_neg hon]

theorem Sound.mount (h : tree.Sound) (b : BindMount) : (tree.mount b).Sound := by
  unfold Tree.mount
  constructor
  · intro m hm
    rcases List.mem_append.1 hm with hm | hm
    · exact h.id_pos m hm
    · rw [List.mem_singleton.1 hm]
      exact Nat.succ_pos _
  · intro m hm
    rw [List.length_append]
    rcases List.mem_append.1 hm with hm | hm
    · exact (h.id_le m hm).trans (Nat.le_add_right _ _)
    · rw [List.mem_singleton.1 hm]
      exact Nat.le_refl _
  · intro m hm
    rw [List.length_append]
    rcases List.mem_append.1 hm with hm | hm
    · exact Nat.lt_add_right _ (h.on_lt m hm)
    · rw [List.mem_singleton.1 hm]
      exact Nat.lt_succ_of_le (h.mnt_target_le _)

/-- **A mount is seen in the lookups that its destination begins, and in no others.** -/
theorem Sound.walk_mount (h : tree.Sound) (b : BindMount) (ns : List Text) :
    (tree.mount b).walk ns =
      if names b.dest ≠ [] ∧ names b.dest <+: ns then
        ⟨tree.length + 1, names b.dest, ns.drop (names b.dest).length⟩
      else tree.walk ns := by
  induction ns using List.reverseRecOn with
  | nil => rw [if_neg fun hb => hb.1 (List.prefix_nil.1 hb.2)]; rfl
  | append_singleton ns name ih =>
    have hcross (p : Spot) : (tree.mount b).cross p =
        (⟨tree.length + 1, tree.target (names b.dest), b.src⟩ : Mounted).enter (tree.cross p) :=
      cross_append _ _ _
    rw [walk_append, ih, hcross]
    by_cases hbelow : names b.dest ≠ [] ∧ names b.dest <+: ns
    · -- below the mount there is no other one yet
      have hdrop : (ns ++ [name]).drop (names b.dest).length =
          ns.drop (names b.dest).length ++ [name] :=
        List.drop_append_of_le_length hbelow.2.length_le
      have hself : tree.cross ((⟨tree.length + 1, names b.dest,
          ns.drop (names b.dest).length⟩ : Spot).child name) = _ :=
        cross_eq_self fun m hm => Nat.ne_of_lt ((h.on_lt m hm).trans (Nat.lt_succ_self _))
      have hon : (⟨tree.length + 1, names b.dest,
          ns.drop (names b.dest).length⟩ : Spot).child name ≠
            tree.target (names b.dest) := fun heq =>
        Nat.not_succ_le_self _ ((congrArg Spot.mnt heq).le.trans (h.mnt_target_le _))
      rw [if_pos hbelow, if_pos ⟨hbelow.1, hbelow.2.trans (List.prefix_append _ _)⟩, hself,
        Mounted.enter, if_neg hon, hdrop]
      rfl
    · rw [if_neg hbelow, ← walk_append, Mounted.enter]
      by_cases hat : names b.dest = ns ++ [name]
      · have hne : names b.dest ≠ [] := by simp [hat]
        have hon : tree.walk (ns ++ [name]) = tree.target (names b.dest) := by
          rw [target, if_neg hne, hat]
        rw [if_pos hon, if_pos ⟨hne, hat ▸ List.prefix_refl _⟩, path_walk, hat, List.drop_length]
      · have hon : tree.walk (ns ++ [name]) ≠ tree.target (names b.dest) := fun heq => by
          have hpath := congrArg Spot.path heq
          rw [path_walk, path_target] at hpath
          exact hat hpath.symm
        have hnot : ¬ (names b.dest ≠ [] ∧ names b.dest <+: ns ++ [name]) := by
          rintro ⟨hne, hbeneath⟩
          rcases List.prefix_concat_iff.1 hbeneath with heq | hbeneath
          · exact hat heq
          · exact hbelow ⟨hne, hbeneath⟩
        rw [if_neg hon, if_neg hnot]

theorem Sound.shown_mount (h : tree.Sound) (b : BindMount) (ns : List Text) :
    (tree.mount b).shown ns =
      if names b.dest ≠ [] ∧ names b.dest <+: ns then
        some (b.src, ns.drop (names b.dest).length)
      else tree.shown ns := by
  unfold shown
  rw [h.walk_mount b ns, Tree.mount, List.find?_append]
  split
  · have hold : tree.find? (fun m => m.id = tree.length + 1) = none := by
      refine List.find?_eq_none.2 fun m hm => ?_
      have hle := h.id_le m hm
      simp only [decide_eq_true_eq]
      omega
    simp [hold]
  · have hnew : (tree.length + 1 : ℕ) ≠ (tree.walk ns).mnt := by
      have hle := h.mnt_walk_le ns
      omega
    simp [hnew]

theorem Sound.shown_nil (h : tree.Sound) : tree.shown [] = none := by
  rw [shown, Option.map_eq_none_iff, List.find?_eq_none]
  intro m hm
  have hpos := h.id_pos m hm
  rw [decide_eq_true_eq]
  exact hpos.ne'

theorem Sound.foldl_mount (h : tree.Sound) (binds : List BindMount) :
    (binds.foldl Tree.mount tree).Sound := by
  induction binds generalizing tree with
  | nil => exact h
  | cons b binds ih => exact ih (h.mount b)

end Tree

theorem sound_mountAll (sorted : List BindMount) : (mountAll sorted).Sound :=
  Tree.Sound.foldl_mount ⟨by simp, by simp, by simp⟩ sorted

/-- What a destination shows is left alone by the mounts that follow, if none is above it. -/
theorem shown_foldl_mount (h : tree.Sound) {src : Text} {ns : List Text} {after : List BindMount}
    (habove : ∀ c ∈ after, names c.dest <+: ns → names c.dest = ns ∧ c.src = src)
    (hshown : tree.shown ns = some (src, [])) :
    (after.foldl Tree.mount tree).shown ns = some (src, []) := by
  induction after generalizing tree with
  | nil => exact hshown
  | cons c after ih =>
    rw [List.foldl_cons]
    refine ih (h.mount c) (fun c hc => habove c (List.mem_cons_of_mem _ hc)) ?_
    rw [h.shown_mount]
    split
    · next hc =>
      obtain ⟨hnames, hsrc⟩ := habove c List.mem_cons_self hc.2
      rw [hnames, hsrc, List.drop_length]
    · exact hshown

end Lookups

/-! ## Which binds hide none -/

/-- Of two binds one comes first. -/
theorem rel_or_rel {α : Type} {r : α → α → Prop} {l : List α} (h : l.Pairwise r) {x y : α}
    (hx : x ∈ l) (hy : y ∈ l) (hne : x ≠ y) : r x y ∨ r y x :=
  have : Std.Symm fun a b => r a b ∨ r b a := ⟨fun _ _ => Or.symm⟩
  (h.imp Or.inl : l.Pairwise fun a b => r a b ∨ r b a).forall hx hy hne

theorem isSorted_sortBindMounts (binds : List BindMount) :
    IsSorted binds (sortBindMounts binds) where
  perm := List.mergeSort_perm _ _
  order := by
    have hsorted : (sortBindMounts binds).Pairwise fun a b => decide (a.dest ≤ b.dest) = true := by
      refine List.pairwise_mergeSort (fun a b c hab hbc => ?_) (fun a b => ?_) binds
      · rw [decide_eq_true_eq] at hab hbc ⊢
        exact hab.trans hbc
      · rw [Bool.or_eq_true, decide_eq_true_eq, decide_eq_true_eq]
        exact le_total a.dest b.dest
    exact hsorted.imp of_decide_eq_true

variable {binds sorted : List BindMount}

theorem IsApart.showsAll (h : IsApart binds) (hsorted : IsSorted binds sorted) :
    ShowsAll sorted where
  order := hsorted.order.imp_of_mem fun {a b} ha hb hle habove =>
    hle.not_gt ((dest_lt_iff habove).2
      (h.spelled b (hsorted.perm.mem_iff.1 hb) a (hsorted.perm.mem_iff.1 ha) habove))
  shown b hb := by
    obtain ⟨before, after, rfl⟩ := List.append_of_mem hb
    have hmem {c} (hc : c ∈ before ++ b :: after) : c ∈ binds := hsorted.perm.mem_iff.1 hc
    have hlater := (List.pairwise_cons.1 (List.pairwise_append.1 hsorted.order).2.1).1
    rw [mountAll, List.foldl_append, List.foldl_cons]
    refine shown_foldl_mount ((sound_mountAll before).mount b) (fun c hc hbeneath => ?_) ?_
    · have hcb : names c.dest = names b.dest := by
        by_contra hne
        have hlt := (dest_lt_iff ⟨hbeneath, hne⟩).2
          (h.spelled c (hmem (by simp [hc])) b (hmem hb) ⟨hbeneath, hne⟩)
        exact (hlater c hc).not_gt hlt
      exact ⟨hcb, h.single c (hmem (by simp [hc])) b (hmem hb) hcb⟩
    · rw [(sound_mountAll before).shown_mount, if_pos ⟨h.named b (hmem hb), List.prefix_refl _⟩,
        List.drop_length]

theorem ShowsAll.isApart (h : ShowsAll sorted) (hsorted : IsSorted binds sorted) :
    IsApart binds where
  named b hb hnil := by
    have hshown := h.shown b (hsorted.perm.mem_iff.2 hb)
    rw [hnil, (sound_mountAll sorted).shown_nil] at hshown
    cases hshown
  spelled a ha b hb habove := by
    refine (dest_lt_iff habove).1 (lt_of_not_ge fun hle => ?_)
    have hne : a.dest ≠ b.dest := fun heq => habove.2 (by rw [heq])
    -- whichever of the two comes first, the other one is in its place
    have hpair : sorted.Pairwise fun x y => x.dest ≤ y.dest ∧ ¬ IsAbove y x :=
      hsorted.order.and h.order
    rcases rel_or_rel hpair (hsorted.perm.mem_iff.2 ha) (hsorted.perm.mem_iff.2 hb)
      (fun heq => hne (congrArg BindMount.dest heq)) with hab | hba
    · exact hne (hab.1.antisymm hle)
    · exact hba.2 habove
  single a ha b hb hnames := by
    have hshown := h.shown a (hsorted.perm.mem_iff.2 ha)
    rw [hnames, h.shown b (hsorted.perm.mem_iff.2 hb)] at hshown
    exact (Prod.mk.inj (Option.some.inj hshown)).1.symm

/-- **No bind hides another exactly if the destinations are apart.** -/
theorem hidesNone_iff (binds : List BindMount) :
    HidesNone binds ↔ ((∀ b ∈ binds, validateDestination b.dest = true) → IsApart binds) :=
  forall_congr' fun _ =>
    ⟨fun h => (h _ (isSorted_sortBindMounts binds)).isApart (isSorted_sortBindMounts binds),
      fun h _ hsorted => h.showsAll hsorted⟩

/-- `/a` comes after `//a/b`, and hides it. -/
theorem not_hidesNone_doubleSlash : ¬ HidesNone
    [⟨"/src/inner".toList, "//a/b".toList, false⟩, ⟨"/src/outer".toList, "/a".toList, false⟩] := by
  intro h
  have haccepted : ∀ b ∈ [(⟨"/src/inner".toList, "//a/b".toList, false⟩ : BindMount),
      ⟨"/src/outer".toList, "/a".toList, false⟩], validateDestination b.dest = true := by
    intro b hb
    rw [validateDestination_eq]
    revert b
    decide +kernel
  have hsorted := h haccepted _ ⟨List.Perm.refl _, by decide +kernel⟩
  have hshown := hsorted.shown ⟨"/src/inner".toList, "//a/b".toList, false⟩ List.mem_cons_self
  exact absurd hshown (by decide +kernel)

end Droidspaces.CustomBinds
