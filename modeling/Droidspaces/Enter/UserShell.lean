import Droidspaces.Config.Entries
import Droidspaces.Config.Pieces

/-!
# The login shell of a user

`get_user_shell` takes the fields of a line of `/etc/passwd` with `strtok_r`, which does not see the
empty ones: the shell of a user whose gecos field is empty is taken for the home directory, and what
is taken for the shell is whatever follows, if anything does.  `isFoundIn_iff` says when the shell of
a user is found.
-/

namespace Droidspaces.Enter

open Config

/-! ## The code -/

section Strtok

variable (sep : Char → Bool)

/-- `strtok_r`, with the text that the next call goes on with. -/
def strtokR (t : Text) : Option (Text × Text) :=
  let s := t.dropWhile sep
  if s = [] then none else some (s.takeWhile (!sep ·), (s.dropWhile (!sep ·)).drop 1)

/-- What is left after a token, which is nothing if there is none. -/
def skipToken (t : Text) : Text := ((strtokR sep t).map Prod.snd).getD []

end Strtok

def isColon (c : Char) : Bool := c == ':'

def isColonOrEnd (c : Char) : Bool := c == ':' || c == '\n'

/-- The shell that is read in a line, if it is a line of the user. -/
def shellIn (user line : Text) : Option Text :=
  match strtokR isColon (cString line) with
  | none => none
  | some (name, rest) =>
    if name ≠ user then none
    else (strtokR isColonOrEnd ((skipToken isColon)^[5] rest)).map Prod.fst

/-- `get_user_shell`, with a buffer of `size` bytes for the shell. -/
def getUserShell (size : ℕ) (user passwd : Text) : Option Text :=
  if user = [] ∨ size = 0 then none
  else ((fgets 1022 passwd 1022).findSome? (shellIn user)).map fun shell => shell.take (size - 1)

/-! ## What is meant -/

/-- The fields of a line. -/
def fields (line : Text) : List Text := line.splitOn ':'

/-- The field in the seventh place, if the user is in the first, among some of the fields. -/
def seventh (user : Text) (fs : List Text) : Option Text :=
  if fs[0]? = some user then fs[6]? else none

/-- The shell of the user, if the line has one. -/
def shellOf (user line : Text) : Option Text :=
  (seventh user (fields line)).filter fun shell => shell ≠ []

/-- The shell is found that the first line of the user with a shell has, with the buffer that
`enter_rootfs` has for it. -/
def IsFoundIn (user passwd : Text) : Prop :=
  getUserShell CustomBinds.pathMax user passwd = (passwd.splitOn '\n').findSome? (shellOf user)

/-! ## Fields that are not empty -/

/-- What `strtok_r` sees of the fields of a text. -/
def seen (sep : Char → Bool) (t : Text) : List Text := (t.splitOnP sep).filter (· ≠ [])

section Seen

variable {sep : Char → Bool} {t : Text}

theorem seen_append_cons {c : Char} (hc : sep c = true) (s t : Text) :
    seen sep (s ++ c :: t) = seen sep s ++ seen sep t := by
  rw [seen, List.splitOnP_append_cons s t hc, List.filter_append, seen, seen]

theorem seen_append_of_sep {s : Text} (hs : ∀ c ∈ s, sep c = true) (t : Text) :
    seen sep (s ++ t) = seen sep t := by
  induction s with
  | nil => rfl
  | cons c s ih =>
    have hcons := seen_append_cons (hs c List.mem_cons_self) [] (s ++ t)
    rw [List.nil_append] at hcons
    rw [List.cons_append, hcons, ih fun d hd => hs d (List.mem_cons_of_mem _ hd)]
    rfl

theorem seen_of_token (hne : t ≠ []) (h : ∀ c ∈ t, sep c = false) : seen sep t = [t] := by
  rw [seen, List.splitOnP_eq_singleton h]
  simpa using hne

/-- Where a token stands. -/
theorem exists_of_strtokR {tok rest : Text} (h : strtokR sep t = some (tok, rest)) :
    ∃ front tail, t = front ++ (tok ++ tail) ∧ (∀ c ∈ front, sep c = true) ∧
      tok ≠ [] ∧ (∀ c ∈ tok, sep c = false) ∧
      (tail = [] ∧ rest = [] ∨ ∃ c, sep c = true ∧ tail = c :: rest) := by
  unfold strtokR at h
  dsimp only at h
  rw [Option.ite_none_left_eq_some] at h
  obtain ⟨hne, heq⟩ := h
  obtain ⟨rfl, rfl⟩ := Prod.mk.inj (Option.some.inj heq)
  have hhead := List.head?_dropWhile_not sep t
  refine ⟨t.takeWhile sep, (t.dropWhile sep).dropWhile (!sep ·), ?_,
    fun c hc => List.mem_takeWhile_imp hc, ?_, fun c hc => ?_, ?_⟩
  · rw [List.takeWhile_append_dropWhile, List.takeWhile_append_dropWhile]
  · obtain ⟨c, s, hs⟩ := List.exists_cons_of_ne_nil hne
    rw [hs] at hhead ⊢
    have hc : sep c = false := by simpa using hhead
    simp [hc]
  · simpa using List.mem_takeWhile_imp hc
  · cases htail : (t.dropWhile sep).dropWhile (!sep ·) with
    | nil => exact Or.inl ⟨rfl, rfl⟩
    | cons c tail =>
      have hstop := List.head?_dropWhile_not (!sep ·) (t.dropWhile sep)
      rw [htail] at hstop
      exact Or.inr ⟨c, by simpa using hstop, rfl⟩

theorem seen_of_strtokR_none (h : strtokR sep t = none) : ∀ c ∈ t, sep c = true := by
  unfold strtokR at h
  dsimp only at h
  split at h
  · next hnil => exact List.dropWhile_eq_nil_iff.1 hnil
  · cases h

/-- The first token is the first field that is seen. -/
theorem head?_seen (t : Text) : (strtokR sep t).map Prod.fst = (seen sep t).head? := by
  cases h : strtokR sep t with
  | none =>
    have hall := seen_append_of_sep (seen_of_strtokR_none h) []
    rw [List.append_nil] at hall
    rw [hall]
    rfl
  | some r =>
    obtain ⟨tok, rest⟩ := r
    obtain ⟨front, tail, rfl, hfront, hne, htok, htail⟩ := exists_of_strtokR h
    rw [seen_append_of_sep hfront]
    rcases htail with ⟨rfl, -⟩ | ⟨c, hc, rfl⟩
    · rw [List.append_nil, seen_of_token hne htok]
      rfl
    · rw [seen_append_cons hc, seen_of_token hne htok]
      rfl

end Seen

/-! ## A line that ends in its end -/

theorem isColonOrEnd_of_isColon {c : Char} (h : isColon c = true) : isColonOrEnd c = true := by
  rw [isColonOrEnd, Bool.or_eq_true]
  exact Or.inl h

section Line

variable {t : Text} (ht : '\n' ∉ t.dropLast)
include ht

/-- A token between colons is a field, and the end of the line is part of the last one only. -/
theorem seen_of_strtokR {tok rest : Text} (h : strtokR isColon t = some (tok, rest)) :
    '\n' ∉ rest.dropLast ∧
      (seen isColonOrEnd t = tok :: seen isColonOrEnd rest ∨
        (seen isColonOrEnd t).length ≤ 1 ∧ rest = []) := by
  obtain ⟨front, tail, rfl, hfront, hne, htok, htail⟩ := exists_of_strtokR h
  have hfront' : ∀ c ∈ front, isColonOrEnd c = true := fun c hc =>
    isColonOrEnd_of_isColon (hfront c hc)
  have hfield (hline : '\n' ∉ tok) : seen isColonOrEnd tok = [tok] := by
    refine seen_of_token hne fun c hc => ?_
    have hcolon : c ≠ ':' := by simpa [isColon] using htok c hc
    have hend : c ≠ '\n' := fun heq => hline (heq ▸ hc)
    simp [isColonOrEnd, hcolon, hend]
  rw [seen_append_of_sep hfront']
  rcases htail with ⟨rfl, rfl⟩ | ⟨c, hc, rfl⟩
  · rw [List.append_nil] at ht ⊢
    rw [List.dropLast_append_of_ne_nil hne, List.mem_append, not_or] at ht
    refine ⟨List.not_mem_nil, ?_⟩
    by_cases hline : '\n' ∈ tok
    · have hlast : tok = tok.dropLast ++ '\n' :: [] := by
        rw [← List.dropLast_append_getLast hne, List.mem_append, List.mem_singleton] at hline
        rw [hline.resolve_left ht.2, List.dropLast_append_getLast]
      refine Or.inr ⟨?_, rfl⟩
      rw [hlast, seen_append_cons rfl]
      by_cases hnil : tok.dropLast = []
      · rw [hnil]
        decide
      · have hsingle : seen isColonOrEnd tok.dropLast = [tok.dropLast] := by
          refine seen_of_token hnil fun c hc => ?_
          have hcolon : c ≠ ':' := by
            simpa [isColon] using htok c (List.dropLast_subset tok hc)
          have hend : c ≠ '\n' := fun heq => ht.2 (heq ▸ hc)
          simp [isColonOrEnd, hcolon, hend]
        rw [hsingle]
        rfl
    · exact Or.inl (hfield hline)
  · have hlong : tok ++ c :: rest ≠ [] := by simp
    rw [List.dropLast_append_of_ne_nil hlong,
      List.dropLast_append_of_ne_nil (List.cons_ne_nil c rest)] at ht
    simp only [List.mem_append, not_or] at ht
    refine ⟨fun hmem => ht.2.2 ?_, Or.inl ?_⟩
    · cases rest with
      | nil => exact hmem
      | cons d rest =>
        rw [List.dropLast_cons_cons]
        exact List.mem_cons_of_mem _ hmem
    · rw [seen_append_cons (isColonOrEnd_of_isColon hc), hfield ht.2.1]
      rfl

theorem seen_skipToken : '\n' ∉ (skipToken isColon t).dropLast ∧
    seen isColonOrEnd (skipToken isColon t) = (seen isColonOrEnd t).drop 1 := by
  unfold skipToken
  cases h : strtokR isColon t with
  | none =>
    have hall : ∀ c ∈ t, isColonOrEnd c = true := fun c hc =>
      isColonOrEnd_of_isColon (seen_of_strtokR_none h c hc)
    have hseen := seen_append_of_sep hall []
    rw [List.append_nil] at hseen
    rw [hseen]
    exact ⟨List.not_mem_nil, rfl⟩
  | some r =>
    obtain ⟨tok, rest⟩ := r
    obtain ⟨hrest, hseen | ⟨hseen, rfl⟩⟩ := seen_of_strtokR ht h
    · exact ⟨hrest, by rw [hseen]; rfl⟩
    · exact ⟨hrest, by rw [List.drop_eq_nil_of_le hseen]; rfl⟩

theorem seen_skipTokens (k : ℕ) : '\n' ∉ ((skipToken isColon)^[k] t).dropLast ∧
    seen isColonOrEnd ((skipToken isColon)^[k] t) = (seen isColonOrEnd t).drop k := by
  induction k with
  | zero => exact ⟨ht, rfl⟩
  | succ k ih =>
    obtain ⟨hline, hseen⟩ := seen_skipToken ih.1
    rw [Function.iterate_succ_apply']
    exact ⟨hline, by rw [hseen, ih.2, List.drop_drop]⟩

end Line

/-- What is found in a line is what is in the seventh place among the fields that are seen. -/
theorem shellIn_eq {user line : Text} (hline : '\n' ∉ (cString line).dropLast) :
    shellIn user line = seventh user (seen isColonOrEnd (cString line)) := by
  unfold shellIn seventh
  cases h : strtokR isColon (cString line) with
  | none =>
    have hall : ∀ c ∈ cString line, isColonOrEnd c = true := fun c hc =>
      isColonOrEnd_of_isColon (seen_of_strtokR_none h c hc)
    have hseen := seen_append_of_sep hall []
    rw [List.append_nil] at hseen
    rw [hseen]
    rfl
  | some r =>
    obtain ⟨name, rest⟩ := r
    obtain ⟨hrest, hseen | ⟨hseen, rfl⟩⟩ := seen_of_strtokR hline h
    · dsimp only
      rw [head?_seen, (seen_skipTokens hrest 5).2, hseen, List.head?_drop]
      by_cases hname : name = user
      · simp [hname]
      · simp [hname]
    · have hsix : (seen isColonOrEnd (cString line))[6]? = none :=
        List.getElem?_eq_none_iff.2 (by omega)
      have hskip : (skipToken isColon)^[5] [] = [] := rfl
      dsimp only
      rw [hsix, hskip, ite_self]
      split
      · rfl
      · rfl

/-- What the code goes by: the line up to a NUL, and the fields in it that are not empty. -/
def packed (line : Text) : List Text := (fields (cString line)).filter (· ≠ [])

theorem seen_eq_packed {line : Text} (h : '\n' ∉ line) :
    seen isColonOrEnd (cString line) = packed line := by
  have hcut : ∀ c ∈ cString line, isColonOrEnd c = isColon c := by
    intro c hc
    have hne : c ≠ '\n' := fun heq => h (heq ▸ (List.takeWhile_subset _ hc))
    simp [isColonOrEnd, isColon, hne]
  have hsplit : ∀ t : Text, (∀ c ∈ t, isColonOrEnd c = isColon c) →
      t.splitOnP isColonOrEnd = t.splitOnP isColon := by
    intro t
    induction t with
    | nil => exact fun _ => rfl
    | cons c t ih =>
      intro ht
      rw [List.splitOnP_cons_eq_if_modifyHead, List.splitOnP_cons_eq_if_modifyHead,
        ht c List.mem_cons_self, ih fun d hd => ht d (List.mem_cons_of_mem _ hd)]
  rw [seen, hsplit _ hcut, packed, fields, List.splitOn_eq_splitOnP]
  rfl

/-- The end of a line makes no difference. -/
theorem seen_line {line : Text} (h : '\n' ∉ line) :
    '\n' ∉ (cString (line ++ ['\n'])).dropLast ∧
      seen isColonOrEnd (cString (line ++ ['\n'])) = packed line := by
  rw [← seen_eq_packed h]
  rcases cString_newline line with hsame | ⟨hend, hself⟩
  · rw [hsame]
    refine ⟨fun hmem => h ?_, rfl⟩
    exact (List.takeWhile_prefix _).subset (List.dropLast_subset _ hmem)
  · rw [hend, hself, List.dropLast_concat, seen_append_cons rfl]
    exact ⟨h, List.append_nil _⟩

/-! ## The first line with a shell -/

theorem length_of_seventh {user line shell : Text} (h : seventh user (packed line) = some shell) :
    shell.length ≤ line.length := by
  unfold seventh at h
  split at h
  · have hmem := (List.mem_filter.1 (List.mem_of_getElem? h)).1
    exact (isInfix_of_mem_splitOn hmem).length_le.trans (List.takeWhile_prefix _).length_le
  · cases h

section File

variable {user passwd : Text} (hshort : ∀ line ∈ passwd.splitOn '\n', line.length < 1024)
include hshort

theorem findSome?_shellIn :
    (fgets 1022 passwd 1022).findSome? (shellIn user) =
      (passwd.splitOn '\n').findSome? fun line => seventh user (packed line) := by
  have hline (line : Text) (h : '\n' ∉ line) :
      shellIn user line = seventh user (packed line) ∧
        shellIn user (line ++ ['\n']) = seventh user (packed line) := by
    have hcut : '\n' ∉ (cString line).dropLast := fun hmem =>
      h (List.takeWhile_subset _ (List.dropLast_subset _ hmem))
    obtain ⟨hend, hseen⟩ := seen_line h
    exact ⟨by rw [shellIn_eq hcut, seen_eq_packed h], by rw [shellIn_eq hend, hseen]⟩
  have hempty : seventh user (packed []) = none := by
    unfold seventh
    split
    · rfl
    · rfl
  have hread := @flatMap_fgets Text 1022 (fun line => (shellIn user line).toList)
    (by rw [show ['\n'] = [] ++ ['\n'] from rfl, (hline [] List.not_mem_nil).2, hempty]; rfl)
    (fun line h => by rw [(hline line h).1, (hline line h).2]) passwd
    (fun line hmem => Nat.le_of_lt_succ (hshort line hmem))
  rw [← List.filterMap_eq_flatMap_toList, ← List.filterMap_eq_flatMap_toList] at hread
  rw [← List.head?_filterMap, hread, ← List.head?_filterMap]
  exact congrArg List.head? (List.filterMap_congr fun line hmem =>
    (hline line (not_mem_of_mem_splitOn hmem)).1)

end File

/-- The first line in which a shell is found, among all fields or among those that are not empty, has
the same one both times; or what finds none there finds that shell in a line behind it. -/
def IsInStep (user : Text) : List Text → Prop
  | [] => True
  | line :: lines =>
    match shellOf user line, seventh user (packed line) with
    | none, none => IsInStep user lines
    | some shell, some shell' => shell' = shell
    | some shell, none => lines.findSome? (fun line => seventh user (packed line)) = some shell
    | none, some shell => lines.findSome? (shellOf user) = some shell

theorem isInStep_iff (user : Text) (lines : List Text) :
    IsInStep user lines ↔
      lines.findSome? (fun line => seventh user (packed line)) = lines.findSome? (shellOf user) := by
  induction lines with
  | nil => exact iff_of_true trivial rfl
  | cons line lines ih =>
    rw [IsInStep, List.findSome?_cons, List.findSome?_cons]
    cases shellOf user line with
    | none =>
      cases seventh user (packed line) with
      | none => exact ih
      | some shell => exact eq_comm
    | some shell =>
      cases seventh user (packed line) with
      | none => exact Iff.rfl
      | some shell' => exact (Option.some_inj).symm

/-- A line without empty fields is read as it stands. -/
theorem seventh_packed {line : Text} (hnul : '\x00' ∉ line) (h : ∀ f ∈ fields line, f ≠ [])
    (user : Text) : seventh user (packed line) = shellOf user line := by
  have hpacked : packed line = fields line := by
    rw [packed, cString_eq_self hnul, List.filter_eq_self]
    exact fun f hf => by simpa using h f hf
  rw [shellOf, hpacked]
  cases hshell : seventh user (fields line) with
  | none => rfl
  | some shell =>
    have hne : shell ≠ [] := by
      unfold seventh at hshell
      split at hshell
      · exact h shell (List.mem_of_getElem? hshell)
      · cases hshell
    simp [Option.filter, hne]

theorem isInStep_of_forall {user : Text} {lines : List Text}
    (h : ∀ line ∈ lines, line ≠ [] → '\x00' ∉ line ∧ ∀ f ∈ fields line, f ≠ []) :
    IsInStep user lines := by
  rw [isInStep_iff, ← List.head?_filterMap, ← List.head?_filterMap]
  refine congrArg List.head? (List.filterMap_congr fun line hline => ?_)
  by_cases hne : line = []
  · have hempty : (fields [])[6]? = none := rfl
    rw [hne, shellOf, seventh, seventh, hempty, ite_self]
    exact ite_self none
  · exact seventh_packed (h line hline hne).1 (h line hline hne).2 user

/-- **The shell of a user is found exactly if the empty fields make no difference**, and for an empty
name if there is no shell to be found. -/
theorem isFoundIn_iff {user passwd : Text} (h : ∀ line ∈ passwd.splitOn '\n', line.length < 1024) :
    IsFoundIn user passwd ↔
      (user = [] → ∀ line ∈ passwd.splitOn '\n', shellOf [] line = none) ∧
        (user ≠ [] → IsInStep user (passwd.splitOn '\n')) := by
  unfold IsFoundIn getUserShell
  by_cases huser : user = []
  · subst huser
    rw [if_pos (Or.inl rfl), eq_comm, List.findSome?_eq_none_iff]
    simp
  · have hsize : ¬ (user = [] ∨ CustomBinds.pathMax = 0) := by
      rintro (hnil | hzero)
      · exact huser hnil
      · cases hzero
    have hwhole : ((passwd.splitOn '\n').findSome? fun line => seventh user (packed line)).map
        (fun shell => shell.take (CustomBinds.pathMax - 1)) =
          (passwd.splitOn '\n').findSome? fun line => seventh user (packed line) := by
      cases hfound : (passwd.splitOn '\n').findSome? fun line => seventh user (packed line) with
      | none => rfl
      | some shell =>
        obtain ⟨line, hline, hshell⟩ := List.exists_of_findSome?_eq_some hfound
        have hlen := (length_of_seventh hshell).trans_lt (h line hline)
        have hsize : CustomBinds.pathMax = 4096 := rfl
        rw [Option.map_some, List.take_of_length_le (by omega)]
    rw [if_neg hsize, findSome?_shellIn h, hwhole, ← isInStep_iff]
    simp [huser]

def withoutGecos : Text := "root:x:0:0::/root:/bin/sh\n".toList

/-- Without a gecos field there is no shell. -/
theorem not_isFoundIn_withoutGecos : ¬ IsFoundIn "root".toList withoutGecos := by
  have hcode : getUserShell CustomBinds.pathMax "root".toList withoutGecos = none := by
    decide +kernel
  have hshell : (withoutGecos.splitOn '\n').findSome? (shellOf "root".toList) =
      some "/bin/sh".toList := by
    decide +kernel
  rw [IsFoundIn, hcode, hshell]
  exact (Option.some_ne_none _).symm

def withGecos : Text := "root:x:0:0:root:/root:/bin/sh\n".toList

theorem isFoundIn_withGecos : IsFoundIn "root".toList withGecos :=
  (isFoundIn_iff (by decide +kernel)).2
    ⟨fun h => absurd h (by decide), fun _ => isInStep_of_forall (by decide +kernel)⟩

end Droidspaces.Enter
