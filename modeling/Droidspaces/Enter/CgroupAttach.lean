import Droidspaces.Config.Entries
import Droidspaces.Config.Identity
import Droidspaces.Config.Pieces

/-!
# The cgroup that a process enters

`ds_cgroup_attach` goes through the directories of `/sys/fs/cgroup` and looks in
`/proc/<pid>/cgroup` for the line of each.  It takes the first line that has the name of the
directory anywhere in its list of controllers: `cpuset` will do for `cpu`.  `attachesTo_iff` says
when that is a line of the directory, or has the path of one.
-/

namespace Droidspaces.Enter

open Config

/-! ## The code -/

/-- The controllers in a line of `/proc/<pid>/cgroup`, and the path. -/
def columns (line : Text) : Option (Text × Text) :=
  match line.dropWhile (· != ':') with
  | [] => none
  | _ :: t =>
    match t.dropWhile (· != ':') with
    | [] => none
    | _ :: path => some (t.takeWhile (· != ':'), path.takeWhile (· != '\n'))

def procsName : Text := "cgroup.procs".toList

/-- `match`: the line of the unified hierarchy, or `strstr`. -/
def isMatch (name subsys : Text) : Bool :=
  (name = procsName && subsys.isEmpty) || name <:+: subsys

/-- The path of a piece of the file that matches. -/
def matchedPath (name piece : Text) : Option Text :=
  (columns (cString piece)).bind fun c => if isMatch name c.1 then some c.2 else none

/-- `subpath` -/
def subpathOf (name cgroup : Text) : Text :=
  (((fgets 1022 cgroup 1022).findSome? (matchedPath name)).getD []).take (CustomBinds.pathMax - 1)

structure CgroupHost where
  /-- What `readdir` returns for `/sys/fs/cgroup`, and what is a directory. -/
  entries : List (Text × Bool)
  /-- `/proc/<pid>/cgroup`, if it can be opened. -/
  cgroup : Option Text
  /-- The directory is there, or `mkdir_p` makes it. -/
  made : Text → Bool

/-- `cg_root` -/
def rootOf (entry : Text × Bool) : Option Text :=
  if entry.2 then some (cgroupRoot ++ '/' :: entry.1)
  else if entry.1 = procsName then some cgroupRoot
  else none

def leafDir (root subpath : Text) (pid : ℕ) : Text :=
  root ++ subpath ++ "/ds-enter-".toList ++ decimal pid

/-- The directories that the process `pid` is put into. -/
def attachFrom (host : CgroupHost) (pid : ℕ) : List (Text × Bool) → List Text
  | [] => []
  | entry :: entries =>
    if entry.1.head? = some '.' then attachFrom host pid entries
    else
      match rootOf entry, host.cgroup with
      | some root, some cgroup =>
        let leaf := leafDir root (subpathOf entry.1 cgroup) pid
        if subpathOf entry.1 cgroup = [] ∨ host.made leaf = false then attachFrom host pid entries
        else leaf :: if entry.1 = procsName then [] else attachFrom host pid entries
      | _, _ => attachFrom host pid entries

def dsCgroupAttach (host : CgroupHost) (pid : ℕ) : List Text := attachFrom host pid host.entries

/-! ## What is meant -/

def pathOf (line : Text) : Text := ((columns line).map Prod.snd).getD []

/-- The line is one of the hierarchy that is mounted under this name. -/
def Lists (name line : Text) : Prop :=
  ∃ subsys path, columns line = some (subsys, path) ∧
    (name ∈ subsys.splitOn ',' ∨ "name=".toList ++ name ∈ subsys.splitOn ',' ∨ subsys = name)

/-- If there is a line for the directory, the path is that of such a line. -/
def AttachesTo (name cgroup : Text) : Prop :=
  (∃ line ∈ cgroup.splitOn '\n', Lists name line) →
    ∃ line ∈ cgroup.splitOn '\n', Lists name line ∧ subpathOf name cgroup = pathOf line

/-! ## The first line that matches -/

/-- The first piece of the file that has the name somewhere among its controllers. -/
def IsFirstMatch (name cgroup path : Text) : Prop :=
  ∃ before piece after, fgets 1022 cgroup 1022 = before ++ piece :: after ∧
    (∀ p ∈ before, matchedPath name p = none) ∧ matchedPath name piece = some path

/-- The path is that of a line for the directory. -/
def IsListed (name cgroup path : Text) : Prop :=
  ∃ line ∈ cgroup.splitOn '\n', Lists name line ∧ pathOf line = path

/-- No line is mistaken for one of the directory: there is none for it, or the first one that matches
has a path of one; and where none matches, there is one without a path. -/
def IsUnmistaken (name cgroup : Text) : Prop :=
  (∀ line ∈ cgroup.splitOn '\n', ¬ Lists name line) ∨
    (∃ path, IsFirstMatch name cgroup path ∧ IsListed name cgroup path) ∨
    (∀ p ∈ fgets 1022 cgroup 1022, matchedPath name p = none) ∧ IsListed name cgroup []

theorem length_of_matchedPath {name piece path : Text} (h : matchedPath name piece = some path) :
    path.length ≤ piece.length := by
  obtain ⟨⟨subsys, path'⟩, hcolumns, hpath⟩ := Option.bind_eq_some_iff.1 h
  obtain ⟨-, heq⟩ := Option.ite_none_right_eq_some.1 hpath
  obtain rfl : path' = path := Option.some.inj heq
  have hcut : (cString piece).length ≤ piece.length := (List.takeWhile_prefix _).length_le
  unfold columns at hcolumns
  split at hcolumns
  · cases hcolumns
  · next c t ht =>
    split at hcolumns
    · cases hcolumns
    · next d rest hrest =>
      obtain ⟨-, rfl⟩ := Prod.mk.inj (Option.some.inj hcolumns)
      have hdrop := (List.dropWhile_suffix (· != ':') (l := cString piece)).length_le
      have hdrop' := (List.dropWhile_suffix (· != ':') (l := t)).length_le
      have htake := (List.takeWhile_prefix (· != '\n') (l := rest)).length_le
      rw [ht, List.length_cons] at hdrop
      rw [hrest, List.length_cons] at hdrop'
      omega

section Match

variable {name cgroup path : Text}

theorem subpathOf_of_isFirstMatch (h : IsFirstMatch name cgroup path) :
    subpathOf name cgroup = path := by
  obtain ⟨before, piece, after, hpieces, hbefore, hpiece⟩ := h
  have hfound : (fgets 1022 cgroup 1022).findSome? (matchedPath name) = some path := by
    rw [hpieces, List.findSome?_append, List.findSome?_eq_none_iff.2 hbefore, Option.none_or,
      List.findSome?_cons, hpiece]
  have hmem : piece ∈ fgets 1022 cgroup 1022 := by rw [hpieces]; simp
  have hlen : piece.length ≤ 1023 := ((isPiece_of_mem_fgets 1022 cgroup).1 piece hmem).fits
  have hpath := length_of_matchedPath hpiece
  have hsize : CustomBinds.pathMax = 4096 := rfl
  rw [subpathOf, hfound, Option.getD_some, List.take_of_length_le (by omega)]

theorem subpathOf_of_forall (h : ∀ p ∈ fgets 1022 cgroup 1022, matchedPath name p = none) :
    subpathOf name cgroup = [] := by
  rw [subpathOf, List.findSome?_eq_none_iff.2 h]
  rfl

theorem isFirstMatch_or (name cgroup : Text) :
    (∃ path, IsFirstMatch name cgroup path) ∨
      ∀ p ∈ fgets 1022 cgroup 1022, matchedPath name p = none := by
  cases h : (fgets 1022 cgroup 1022).findSome? (matchedPath name) with
  | none => exact Or.inr (List.findSome?_eq_none_iff.1 h)
  | some path =>
    obtain ⟨before, piece, after, hpieces, hpiece, hbefore⟩ := List.findSome?_eq_some_iff.1 h
    exact Or.inl ⟨path, before, piece, after, hpieces, hbefore, hpiece⟩

/-- **The process enters the cgroup of each hierarchy exactly if no line is mistaken.** -/
theorem attachesTo_iff (name cgroup : Text) :
    AttachesTo name cgroup ↔ IsUnmistaken name cgroup := by
  constructor
  · intro h
    by_cases hlisted : ∃ line ∈ cgroup.splitOn '\n', Lists name line
    · obtain ⟨line, hline, hlists, hpath⟩ := h hlisted
      rcases isFirstMatch_or name cgroup with ⟨path, hfirst⟩ | hnone
      · rw [subpathOf_of_isFirstMatch hfirst] at hpath
        exact Or.inr (Or.inl ⟨path, hfirst, line, hline, hlists, hpath.symm⟩)
      · rw [subpathOf_of_forall hnone] at hpath
        exact Or.inr (Or.inr ⟨hnone, line, hline, hlists, hpath.symm⟩)
    · exact Or.inl fun line hline hlists => hlisted ⟨line, hline, hlists⟩
  · rintro (hnone | ⟨path, hfirst, line, hline, hlists, hpath⟩ |
      ⟨hnone, line, hline, hlists, hpath⟩)
    · rintro ⟨line, hline, hlists⟩
      exact absurd hlists (hnone line hline)
    · exact fun _ => ⟨line, hline, hlists, by rw [subpathOf_of_isFirstMatch hfirst, hpath]⟩
    · exact fun _ => ⟨line, hline, hlists, by rw [subpathOf_of_forall hnone, hpath]⟩

end Match

/-- `cpuset` has `cpu` in it. -/
theorem not_attachesTo_cpuset :
    ¬ AttachesTo "cpu".toList "9:cpuset:/\n4:cpu,cpuacct:/app\n".toList := by
  have hlines : "9:cpuset:/\n4:cpu,cpuacct:/app\n".toList.splitOn '\n' =
      ["9:cpuset:/".toList, "4:cpu,cpuacct:/app".toList, []] := by decide +kernel
  have hpath : subpathOf "cpu".toList "9:cpuset:/\n4:cpu,cpuacct:/app\n".toList = ['/'] := by
    decide +kernel
  rw [AttachesTo, hlines, hpath]
  intro h
  obtain ⟨line, hline, hlists, hpath⟩ := h ⟨"4:cpu,cpuacct:/app".toList, by simp,
    "cpu,cpuacct".toList, "/app".toList, by decide +kernel, Or.inl (by decide +kernel)⟩
  rcases List.mem_cons.1 hline with rfl | hline
  · obtain ⟨subsys, path, hcolumns, hname⟩ := hlists
    have hcpuset : columns "9:cpuset:/".toList = some ("cpuset".toList, ['/']) := by decide +kernel
    obtain ⟨rfl, rfl⟩ := Prod.mk.inj (Option.some.inj (hcpuset.symm.trans hcolumns))
    exact absurd hname (by decide +kernel)
  · rcases List.mem_cons.1 hline with rfl | hline
    · exact absurd hpath (by decide +kernel)
    · obtain rfl := List.mem_singleton.1 hline
      exact absurd hpath (by decide +kernel)

/-! ## Lines that fit the buffer -/

theorem dropWhile_colon_newline (t : Text) :
    (t ++ ['\n']).dropWhile (· != ':') =
      if t.dropWhile (· != ':') = [] then [] else t.dropWhile (· != ':') ++ ['\n'] := by
  rw [List.dropWhile_append]
  simp [List.isEmpty_iff]

/-- The newline at the end of a line belongs to no column. -/
theorem columns_newline {line : Text} (h : '\n' ∉ line) :
    columns (line ++ ['\n']) = columns line := by
  unfold columns
  rw [dropWhile_colon_newline]
  cases ht : line.dropWhile (· != ':') with
  | nil => simp
  | cons c t =>
    simp only [reduceCtorEq, if_false, List.cons_append]
    rw [dropWhile_colon_newline]
    cases hpath : t.dropWhile (· != ':') with
    | nil => simp
    | cons d path =>
      have hdrop : (t ++ ['\n']).takeWhile (· != ':') = t.takeWhile (· != ':') := by
        have hlen : ((t.takeWhile (· != ':'))).length ≠ t.length := by
          intro hlen
          have hsum := congrArg List.length (List.takeWhile_append_dropWhile (p := (· != ':')) (l := t))
          rw [hpath, List.length_append, List.length_cons] at hsum
          omega
        rw [List.takeWhile_append, if_neg hlen]
      have hmem : '\n' ∉ path := fun hmem => h <|
        (List.dropWhile_suffix _).subset <| ht ▸ List.mem_cons_of_mem _ <|
          (List.dropWhile_suffix _).subset <| hpath ▸ List.mem_cons_of_mem _ hmem
      have hkept : ∀ c ∈ path, (c != '\n') = true :=
        fun c hc => bne_iff_ne.2 fun heq => hmem (heq ▸ hc)
      have hpaths : (path ++ ['\n']).takeWhile (· != '\n') = path.takeWhile (· != '\n') := by
        rw [List.takeWhile_append_of_pos hkept, List.takeWhile_eq_self_iff.2 hkept]
        simp
      simp [hdrop, hpaths]

theorem matchedPath_newline (name : Text) {line : Text} (h : '\n' ∉ line) :
    matchedPath name (line ++ ['\n']) = matchedPath name line := by
  have hcolumns : columns (cString (line ++ ['\n'])) = columns (cString line) := by
    rcases cString_newline line with hsame | ⟨hend, hself⟩
    · rw [hsame]
    · rw [hend, hself, columns_newline h]
  rw [matchedPath, matchedPath, hcolumns]

theorem isMatch_of_lists {name line subsys path : Text} (h : Lists name line)
    (hcolumns : columns line = some (subsys, path)) : isMatch name subsys = true := by
  obtain ⟨subsys', path', hcolumns', hname⟩ := h
  obtain ⟨rfl, rfl⟩ := Prod.mk.inj (Option.some.inj (hcolumns.symm.trans hcolumns'))
  have hinfix : name <:+: subsys := by
    rcases hname with hname | hname | rfl
    · exact isInfix_of_mem_splitOn hname
    · exact (List.suffix_append _ _).isInfix.trans (isInfix_of_mem_splitOn hname)
    · exact List.infix_rfl
  simp [isMatch, hinfix]

theorem exists_of_lists {name line : Text} (hnul : '\x00' ∉ line) (h : Lists name line) :
    ∃ path, matchedPath name line = some path := by
  obtain ⟨subsys, path, hcolumns, -⟩ := id h
  refine ⟨path, ?_⟩
  rw [matchedPath, cString_eq_self hnul, hcolumns, Option.bind_some,
    if_pos (isMatch_of_lists h hcolumns)]

/-- Where every line that has the name anywhere among its controllers is one of the directory, the
process enters the right cgroup. -/
theorem attachesTo_of_lists {name cgroup : Text}
    (hfits : ∀ line ∈ cgroup.splitOn '\n', line.length ≤ 1023 ∧ '\x00' ∉ line)
    (hname : ∀ line ∈ cgroup.splitOn '\n', ∀ c, columns line = some c →
      isMatch name c.1 = true → Lists name line) :
    AttachesTo name cgroup := by
  have hread : (fgets 1022 cgroup 1022).findSome? (matchedPath name) =
      (cgroup.splitOn '\n').findSome? (matchedPath name) := by
    have hflat := flatMap_fgets (n := 1022) (f := fun p => (matchedPath name p).toList) rfl
      (fun line h => by rw [matchedPath_newline name h]) cgroup (fun line h => (hfits line h).1)
    have hhead := congrArg List.head? hflat
    simpa [List.head?_flatMap] using hhead
  rintro ⟨line, hline, hlists⟩
  obtain ⟨path, hpath⟩ := exists_of_lists (hfits line hline).2 hlists
  cases hfound : (cgroup.splitOn '\n').findSome? (matchedPath name) with
  | none =>
    rw [List.findSome?_eq_none_iff.1 hfound line hline] at hpath
    cases hpath
  | some found =>
    obtain ⟨before, first, after, hlines, hfirst, -⟩ := List.findSome?_eq_some_iff.1 hfound
    have hmem : first ∈ cgroup.splitOn '\n' := by rw [hlines]; simp
    obtain ⟨⟨subsys, found'⟩, hcolumns, hite⟩ := Option.bind_eq_some_iff.1 hfirst
    rw [cString_eq_self (hfits first hmem).2] at hcolumns
    obtain ⟨hmatch, hsome⟩ := Option.ite_none_right_eq_some.1 hite
    obtain rfl : found' = found := Option.some.inj hsome
    have hlen := length_of_matchedPath hfirst
    have hsize : CustomBinds.pathMax = 4096 := rfl
    have hshort := (hfits first hmem).1
    refine ⟨first, hmem, hname first hmem _ hcolumns hmatch, ?_⟩
    rw [subpathOf, hread, hfound, Option.getD_some, List.take_of_length_le (by omega), pathOf,
      hcolumns]
    rfl

/-! ## The directories of a process -/

theorem exists_of_mem_attachFrom {host : CgroupHost} {pid : ℕ} {entries : List (Text × Bool)}
    {leaf : Text} (h : leaf ∈ attachFrom host pid entries) : ∃ entry ∈ entries, ∃ root cgroup,
      rootOf entry = some root ∧ host.cgroup = some cgroup ∧
        leaf = leafDir root (subpathOf entry.1 cgroup) pid := by
  induction entries with
  | nil => cases h
  | cons entry entries ih =>
    have hrest (hmem : leaf ∈ attachFrom host pid entries) := (ih hmem).imp fun _ hentry =>
      hentry.imp_left (List.mem_cons_of_mem entry)
    rw [attachFrom] at h
    split at h
    · exact hrest h
    · split at h
      · next root cgroup hroot hcgroup =>
        dsimp only at h
        split at h
        · exact hrest h
        · rcases List.mem_cons.1 h with hleaf | hmem
          · exact ⟨entry, List.mem_cons_self, root, cgroup, hroot, hcgroup, hleaf⟩
          · split at hmem
            · cases hmem
            · exact hrest hmem
      · exact hrest h

/-- A process is put below the path of a line that lists the directory, if there is one. -/
theorem leafDir_of_attachesTo {host : CgroupHost} {pid : ℕ} {cgroup leaf : Text}
    (hcgroup : host.cgroup = some cgroup) (h : ∀ entry ∈ host.entries, AttachesTo entry.1 cgroup)
    (hleaf : leaf ∈ dsCgroupAttach host pid) : ∃ entry ∈ host.entries, ∃ root,
      rootOf entry = some root ∧ ((∃ line ∈ cgroup.splitOn '\n', Lists entry.1 line) →
        ∃ line ∈ cgroup.splitOn '\n', Lists entry.1 line ∧ leaf = leafDir root (pathOf line) pid) := by
  obtain ⟨entry, hentry, root, cgroup', hroot, hread, hdir⟩ := exists_of_mem_attachFrom hleaf
  obtain rfl : cgroup = cgroup' := Option.some.inj (hcgroup.symm.trans hread)
  refine ⟨entry, hentry, root, hroot, fun hlisted => ?_⟩
  obtain ⟨line, hline, hlists, hpath⟩ := h entry hentry hlisted
  exact ⟨line, hline, hlists, hpath ▸ hdir⟩

end Droidspaces.Enter
