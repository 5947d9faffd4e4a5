import Droidspaces.Config.Pieces
import Droidspaces.Config.RoundTrip
import Mathlib.Algebra.Order.BigOperators.Group.List
import Mathlib.Algebra.Order.Group.Nat

/-!
# The group of the graphics devices

`setup_gpu_groups` rewrites `/etc/group`, so that there is an entry with the GID that the graphics
devices have and root is among its users.  It goes through the file in the pieces that `fgets`
returns, and what it decides of a piece it decides as if the piece were a line.

What is written is made piece by piece (`setupGpuGroups_eq`), and is read piece by piece again
(`fileLines_written`).
-/

namespace Droidspaces.GpuGroups

open Config

/-! ## The code -/

/-- `DS_GPU_GROUP_NAME` -/
def gpuGroupName : Text := "droidspaces-gpu".toList

/-- `DS_GPU_UNIFIED_GID` -/
def gpuUnifiedGid : ℕ := 786

def rootName : Text := "root".toList

/-- An entry `name:password:GID:user_list`. -/
structure GroupEntry where
  /-- What comes before the third colon. -/
  head : Text
  gid : Text
  users : Text

/-- A text up to its first colon, and behind it. -/
def cutColon (text : Text) : Option (Text × Text) :=
  match text.dropWhile (· != ':') with
  | [] => none
  | _ :: rest => some (text.takeWhile (· != ':'), rest)

/-- `gid_str` and `users_ptr`, if there are three colons. -/
def parseGroup (line : Text) : Option GroupEntry :=
  match cutColon line with
  | none => none
  | some (name, rest) =>
    match cutColon rest with
    | none => none
    | some (password, rest) =>
      match cutColon rest with
      | none => none
      | some (gid, users) => some ⟨name ++ ':' :: (password ++ ':' :: gid), gid, users⟩

/-- `has_user`, from some place of the list on; `before` is the character before it. -/
def hasUserFrom (username : Text) : Option Char → Text → Bool
  | _, [] => false
  | before, c :: rest =>
    let next := ((c :: rest).drop username.length).head?
    (username.isPrefixOf (c :: rest) && (before == none || before == some ',') &&
        (next == some ',' || next == none)) ||
      hasUserFrom username (some c) rest

/-- `has_user` -/
def hasUser (users username : Text) : Bool := hasUserFrom username none users

/-- `line_copy`: `fgets` leaves no newline but at the end. -/
def lineCopy (line : Text) : Text := (cString line).takeWhile (· != '\n')

/-- `new_members`, a buffer of 2048 bytes. -/
def newMembers (users : Text) : Text :=
  if users = [] then rootName else users ++ (",root".toList.take (2047 - users.length))

/-- The state of the loop. -/
structure Rewriting where
  /-- What is in the temporary file. -/
  written : Text
  unifiedGroupFound : Bool
  modifiedCount : ℕ

def rewriteLine (r : Rewriting) (line : Text) : Rewriting :=
  match parseGroup (lineCopy line) with
  | none => { r with written := r.written ++ cString line }
  | some g =>
    if wrap (atoi g.gid) = gpuUnifiedGid then
      if hasUser g.users rootName then
        { r with written := r.written ++ cString line, unifiedGroupFound := true }
      else
        { written := r.written ++ (g.head ++ ':' :: newMembers g.users ++ ['\n'])
          unifiedGroupFound := true
          modifiedCount := r.modifiedCount + 1 }
    else { r with written := r.written ++ cString line }

/-- The entry that is added when there is none. -/
def newEntry : Text := gpuGroupName ++ ":x:".toList ++ decimal gpuUnifiedGid ++ ":root".toList

/-- `setup_gpu_groups`, on the content of `/etc/group`.  Without that file, or if a call fails,
everything stays as it is. -/
def setupGpuGroups (content : Text) : Text :=
  let r := (fileLines content).foldl rewriteLine ⟨[], false, 0⟩
  let r :=
    if r.unifiedGroupFound then r
    else
      { r with
        written := r.written ++ (newEntry ++ ['\n'])
        modifiedCount := r.modifiedCount + 1 }
  if 0 < r.modifiedCount then r.written else content

/-! ## What is decided of a piece -/

/-- The piece looks like an entry with the GID of the graphics devices. -/
def isUnified (piece : Text) : Bool :=
  (parseGroup (lineCopy piece)).any fun g => wrap (atoi g.gid) == gpuUnifiedGid

/-- Root is written into the piece. -/
def lacksRoot (piece : Text) : Bool :=
  (parseGroup (lineCopy piece)).any fun g =>
    wrap (atoi g.gid) == gpuUnifiedGid && !hasUser g.users rootName

/-- What the users of a line are, as far as it has any. -/
def usersOf (line : Text) : Text := ((parseGroup (lineCopy line)).map GroupEntry.users).getD []

/-- The line that becomes of a piece into which root is written. -/
def withRoot (piece : Text) : Text :=
  match parseGroup (lineCopy piece) with
  | none => []
  | some g => g.head ++ ':' :: newMembers g.users

def writePiece (piece : Text) : Text :=
  if lacksRoot piece then withRoot piece ++ ['\n'] else cString piece

/-- What is written before the last entry is. -/
def written (content : Text) : Text := (fileLines content).flatMap writePiece

theorem rewriteLine_eq (r : Rewriting) (line : Text) :
    rewriteLine r line =
      ⟨r.written ++ writePiece line, r.unifiedGroupFound || isUnified line,
        r.modifiedCount + if lacksRoot line then 1 else 0⟩ := by
  unfold rewriteLine writePiece isUnified lacksRoot withRoot
  cases parseGroup (lineCopy line) with
  | none => simp
  | some g =>
    by_cases hgid : wrap (atoi g.gid) = gpuUnifiedGid
    · cases huser : hasUser g.users rootName <;> simp [hgid, huser]
    · simp [hgid]

theorem foldl_rewriteLine (lines : List Text) (r : Rewriting) :
    lines.foldl rewriteLine r =
      ⟨r.written ++ lines.flatMap writePiece, r.unifiedGroupFound || lines.any isUnified,
        r.modifiedCount + lines.countP lacksRoot⟩ := by
  induction lines generalizing r with
  | nil => simp
  | cons line lines ih =>
    rw [List.foldl_cons, ih, rewriteLine_eq, List.countP_cons]
    simp only [List.flatMap_cons, List.any_cons, List.append_assoc, Bool.or_assoc]
    congr 1
    omega

/-- There is such an entry, and root is in it. -/
def IsSettled (content : Text) : Prop :=
  (∃ piece ∈ fileLines content, isUnified piece = true) ∧
    ∀ piece ∈ fileLines content, lacksRoot piece = false

theorem setupGpuGroups_of_settled {content : Text} (h : IsSettled content) :
    setupGpuGroups content = content := by
  have hfound : (fileLines content).any isUnified = true := List.any_eq_true.2 h.1
  have hcount : (fileLines content).countP lacksRoot = 0 :=
    List.countP_eq_zero.2 fun piece hpiece => Bool.eq_false_iff.1 (h.2 piece hpiece)
  unfold setupGpuGroups
  rw [foldl_rewriteLine]
  simp [hfound, hcount]

/-- **What `setup_gpu_groups` writes, if it writes anything.** -/
theorem setupGpuGroups_of_not {content : Text} (h : ¬ IsSettled content) :
    setupGpuGroups content =
      written content ++
        if (fileLines content).any isUnified then [] else newEntry ++ ['\n'] := by
  unfold setupGpuGroups
  rw [foldl_rewriteLine]
  by_cases hfound : (fileLines content).any isUnified = true
  · have hcount : (fileLines content).countP lacksRoot ≠ 0 := fun hzero =>
      h ⟨List.any_eq_true.1 hfound, fun piece hpiece =>
        Bool.eq_false_iff.2 (List.countP_eq_zero.1 hzero piece hpiece)⟩
    simp [hfound, written, Nat.pos_iff_ne_zero, hcount]
  · simp [hfound, written]

/-! ## Entries -/

theorem cutColon_eq_some {text before rest : Text} (h : cutColon text = some (before, rest)) :
    text = before ++ ':' :: rest ∧ ':' ∉ before := by
  have hsplit := List.takeWhile_append_dropWhile (p := (· != ':')) (l := text)
  unfold cutColon at h
  split at h
  · cases h
  · next c tail htail =>
    obtain ⟨rfl, rfl⟩ := Prod.mk.inj (Option.some.inj h)
    have hc := List.head?_dropWhile_not (· != ':') text
    rw [htail] at hc hsplit
    have hcolon : c = ':' := by simpa using hc
    rw [hcolon] at hsplit
    exact ⟨hsplit.symm, fun hmem => by simpa using List.mem_takeWhile_imp hmem⟩

theorem cutColon_append {before : Text} (h : ':' ∉ before) (rest : Text) :
    cutColon (before ++ ':' :: rest) = some (before, rest) := by
  have hpos : ∀ c ∈ before, (c != ':') = true := fun c hc => bne_iff_ne.2 fun heq => h (heq ▸ hc)
  rw [cutColon, List.dropWhile_append_of_pos hpos, List.takeWhile_append_of_pos hpos]
  simp

theorem parseGroup_eq_some_iff {line : Text} {g : GroupEntry} :
    parseGroup line = some g ↔ ∃ name password, ':' ∉ name ∧ ':' ∉ password ∧ ':' ∉ g.gid ∧
      g.head = name ++ ':' :: (password ++ ':' :: g.gid) ∧ line = g.head ++ ':' :: g.users := by
  constructor
  · intro h
    unfold parseGroup at h
    split at h
    · cases h
    · next name rest hname =>
      obtain ⟨hline, hname⟩ := cutColon_eq_some hname
      split at h
      · cases h
      · next password rest' hpassword =>
        obtain ⟨hrest, hpassword⟩ := cutColon_eq_some hpassword
        split at h
        · cases h
        · next gid users hgid =>
          obtain ⟨hrest', hgid⟩ := cutColon_eq_some hgid
          rw [Option.some.injEq] at h
          subst h
          exact ⟨name, password, hname, hpassword, hgid, rfl, by
            rw [hline, hrest, hrest']; simp⟩
  · rintro ⟨name, password, hname, hpassword, hgid, hhead, rfl⟩
    obtain ⟨head, gid, users⟩ := g
    simp only at hhead hgid
    subst hhead
    simp only [parseGroup, List.append_assoc, List.cons_append, cutColon_append hname,
      cutColon_append hpassword, cutColon_append hgid]

theorem parseGroup_append {line : Text} {g : GroupEntry} (h : parseGroup line = some g)
    (more : Text) : parseGroup (line ++ more) = some { g with users := g.users ++ more } := by
  obtain ⟨name, password, hname, hpassword, hgid, hhead, rfl⟩ := parseGroup_eq_some_iff.1 h
  exact parseGroup_eq_some_iff.2 ⟨name, password, hname, hpassword, hgid, hhead, by simp⟩

theorem leadingDigits_le {ds : Text} (h : ds.length ≤ 1) : leadingDigits ds ≤ 9 := by
  unfold leadingDigits
  cases ds with
  | nil => simp
  | cons c ds =>
    obtain rfl : ds = [] := List.length_eq_zero_iff.1 (by rw [List.length_cons] at h; omega)
    cases hc : c.isDigit with
    | false => simp [hc]
    | true =>
      have hle : c.toNat ≤ 57 := by
        simp only [Char.isDigit, Bool.and_eq_true, decide_eq_true_eq] at hc
        exact hc.2
      rw [List.takeWhile_cons_of_pos hc, List.takeWhile_nil, Nat.ofDigitChars_cons,
        Nat.ofDigitChars_nil]
      have hzero : '0'.toNat = 48 := by decide
      omega

/-- A GID of one digit is another one. -/
theorem two_le_length_of_gid {gid : Text} (h : wrap (atoi gid) = gpuUnifiedGid) :
    2 ≤ gid.length := by
  by_contra hlen
  have hdrop : (gid.dropWhile isSpace).length ≤ 1 := by
    have hle := (List.dropWhile_suffix isSpace (l := gid)).length_le
    omega
  have hsmall : -9 ≤ atoi gid ∧ atoi gid ≤ 9 := by
    unfold atoi
    split
    · next ds heq =>
      rw [heq, List.length_cons] at hdrop
      have hle : leadingDigits ds ≤ 9 := leadingDigits_le (by omega)
      omega
    · next ds heq =>
      rw [heq, List.length_cons] at hdrop
      have hle : leadingDigits ds ≤ 9 := leadingDigits_le (by omega)
      omega
    · have hle := leadingDigits_le hdrop
      omega
  rw [wrap, Int.bmod_eq_of_le (by omega) (by omega), gpuUnifiedGid] at h
  omega

theorem length_users {line : Text} {g : GroupEntry} (h : parseGroup line = some g)
    (hgid : wrap (atoi g.gid) = gpuUnifiedGid) : g.users.length + 5 ≤ line.length := by
  obtain ⟨name, password, -, -, -, hhead, rfl⟩ := parseGroup_eq_some_iff.1 h
  have htwo := two_le_length_of_gid hgid
  rw [hhead]
  simp only [List.length_append, List.length_cons]
  omega

/-! ## Users -/

/-- A place of the list counts if the name stands there and has an end there. -/
theorem hasUserFrom_step (username : Text) (before : Option Char) (c : Char) (rest : Text) :
    hasUserFrom username before (c :: rest) = true ↔
      (before = none ∨ before = some ',') ∧
          (username = c :: rest ∨ ∃ rest', c :: rest = username ++ ',' :: rest') ∨
        hasUserFrom username (some c) rest = true := by
  have hword (t : Text) :
      (username <+: t ∧ ((t.drop username.length).head? = some ',' ∨
        (t.drop username.length).head? = none)) ↔
        username = t ∨ ∃ rest', t = username ++ ',' :: rest' := by
    constructor
    · rintro ⟨⟨more, rfl⟩, hnext⟩
      rw [List.drop_left] at hnext
      cases more with
      | nil => exact Or.inl (List.append_nil _).symm
      | cons d more =>
        have hd : d = ',' := by simpa using hnext
        exact Or.inr ⟨more, by rw [hd]⟩
    · rintro (rfl | ⟨rest', rfl⟩)
      · simp
      · simp
  rw [← hword, hasUserFrom]
  simp only [Bool.or_eq_true, Bool.and_eq_true, List.isPrefixOf_iff_prefix, beq_iff_eq]
  tauto

section Users

variable {username : Text} (hne : username ≠ [])
include hne

theorem hasUserFrom_last {field : Text} (hfield : ',' ∉ field) (before : Option Char) :
    hasUserFrom username before field = true ↔
      (before = none ∨ before = some ',') ∧ username = field := by
  induction field generalizing before with
  | nil => simp [hasUserFrom, hne]
  | cons c field ih =>
    rw [List.mem_cons, not_or] at hfield
    have hafter : ¬ ((some c = none ∨ some c = some ',') ∧ username = field) := by
      simp [Ne.symm hfield.1]
    rw [hasUserFrom_step, ih hfield.2, or_iff_left hafter]
    refine and_congr_right fun _ => or_iff_left ?_
    rintro ⟨rest, hrest⟩
    have hmem : ',' ∈ c :: field := hrest ▸ List.mem_append_right _ List.mem_cons_self
    exact (List.mem_cons.1 hmem).elim hfield.1 hfield.2

variable (hcomma : ',' ∉ username)
include hcomma

theorem hasUserFrom_cons {field : Text} (hfield : ',' ∉ field) (before : Option Char)
    (rest : Text) :
    hasUserFrom username before (field ++ ',' :: rest) = true ↔
      (before = none ∨ before = some ',') ∧ username = field ∨
        hasUserFrom username (some ',') rest = true := by
  induction field generalizing before with
  | nil =>
    rw [List.nil_append, hasUserFrom_step]
    refine or_congr_left (and_congr_right fun _ => ?_)
    obtain ⟨c, username, rfl⟩ := List.exists_cons_of_ne_nil hne
    have hc : c ≠ ',' := fun heq => hcomma (heq ▸ List.mem_cons_self)
    simp [hc, hc.symm]
  | cons c field ih =>
    have hc : c ≠ ',' := fun heq => hfield (heq ▸ List.mem_cons_self)
    rw [List.cons_append, hasUserFrom_step, ih fun h => hfield (List.mem_cons_of_mem _ h)]
    have hafter : ¬ ((some c = none ∨ some c = some ',') ∧ username = field) := by simp [hc]
    rw [or_iff_right hafter]
    refine or_congr_left (and_congr_right fun _ => ⟨?_, ?_⟩)
    · rintro (heq | ⟨rest', heq⟩)
      · exact absurd (heq ▸ by simp) hcomma
      · exact (append_cons_inj hfield hcomma heq).1.symm
    · rintro rfl
      exact Or.inr ⟨rest, rfl⟩

/-- `has_user` looks for a name in the list. -/
theorem hasUser_iff (users : Text) :
    hasUser users username = true ↔ username ∈ users.splitOn ',' := by
  have hfrom : ∀ before : Option Char, before = none ∨ before = some ',' →
      (hasUserFrom username before users = true ↔ username ∈ users.splitOn ',') := by
    induction users using lineInduction ',' with
    | last field hfield =>
      intro before hbefore
      rw [hasUserFrom_last hne hfield, List.splitOn_eq_singleton hfield,
        List.mem_singleton, and_iff_right hbefore]
    | cons field rest hfield ih =>
      intro before hbefore
      rw [hasUserFrom_cons hne hcomma hfield, and_iff_right hbefore, ih _ (Or.inr rfl),
        List.splitOn_append_cons_self_of_not_mem hfield, List.mem_cons]
  exact hfrom none (Or.inl rfl)

end Users

theorem rootName_hasUser_iff (users : Text) :
    hasUser users rootName = true ↔ rootName ∈ users.splitOn ',' :=
  hasUser_iff (by decide) (by decide) users

/-- What is written behind the users. -/
def rootSuffix (users : Text) : Text := if users = [] then rootName else ',' :: rootName

theorem length_rootSuffix (users : Text) : 4 ≤ (rootSuffix users).length := by
  unfold rootSuffix
  split <;> decide

theorem not_mem_rootSuffix (users : Text) {c : Char} (hc : c = '\n' ∨ c = '\x00') :
    c ∉ rootSuffix users := by
  unfold rootSuffix
  rcases hc with rfl | rfl
  · split <;> decide
  · split <;> decide

theorem newMembers_eq {users : Text} (h : users.length + 5 ≤ 2047) :
    newMembers users = users ++ rootSuffix users := by
  unfold newMembers rootSuffix
  split
  · next hnil => rw [hnil, List.nil_append]
  · rw [List.take_of_length_le]
    · rfl
    · have hlen : ",root".toList.length = 5 := rfl
      omega

theorem hasUser_rootSuffix (users : Text) :
    hasUser (users ++ rootSuffix users) rootName = true := by
  rw [rootName_hasUser_iff, rootSuffix]
  split
  · next hnil =>
    rw [hnil]
    decide
  · rw [List.splitOn_append_cons_self]
    exact List.mem_append_right _ (by decide)

/-- A part of the name is not the name. -/
theorem rootName_not_mem_take {k : ℕ} (hk : k < 4) :
    rootName ∉ (rootName.take k).splitOn ',' := by
  have hcomma : ',' ∉ rootName.take k := fun hmem =>
    absurd (List.mem_of_mem_take hmem) (by decide)
  rw [List.splitOn_eq_singleton hcomma, List.mem_singleton]
  intro heq
  have hlen := congrArg List.length heq
  rw [List.length_take, show rootName.length = 4 from rfl] at hlen
  omega

theorem hasUser_take {users : Text} (h : hasUser users rootName = false) {k : ℕ}
    (hk : k < (rootSuffix users).length) :
    hasUser (users ++ (rootSuffix users).take k) rootName = false := by
  rw [Bool.eq_false_iff, ne_eq, rootName_hasUser_iff] at h ⊢
  unfold rootSuffix at hk ⊢
  split
  · next hnil =>
    rw [if_pos hnil] at hk
    rw [hnil, List.nil_append]
    exact rootName_not_mem_take hk
  · next hnil =>
    rw [if_neg hnil] at hk
    cases k with
    | zero => rwa [List.take_zero, List.append_nil]
    | succ k =>
      rw [List.take_succ_cons, List.splitOn_append_cons_self, List.mem_append, not_or]
      rw [List.length_cons] at hk
      exact ⟨h, rootName_not_mem_take (Nat.lt_of_succ_lt_succ hk)⟩

/-! ## Lines and pieces -/

theorem lineCopy_eq_self {line : Text} (hnul : '\x00' ∉ line) (hline : '\n' ∉ line) :
    lineCopy line = line := by
  rw [lineCopy, cString_eq_self hnul]
  exact List.takeWhile_eq_self_iff.2 fun c hc => bne_iff_ne.2 fun heq => hline (heq ▸ hc)

theorem lineCopy_newline {line : Text} (h : '\n' ∉ line) :
    lineCopy (line ++ ['\n']) = lineCopy line := by
  unfold lineCopy
  rcases cString_newline line with heq | ⟨heq, hself⟩
  · rw [heq]
  · have hpos : ∀ c ∈ line, (c != '\n') = true :=
      fun c hc => bne_iff_ne.2 fun heq => h (heq ▸ hc)
    rw [heq, hself, List.takeWhile_append_of_pos hpos]
    simp [List.takeWhile_eq_self_iff.2 hpos]

/-- Nothing is decided by how a line ends. -/
theorem decided_newline {line : Text} (h : '\n' ∉ line) :
    isUnified (line ++ ['\n']) = isUnified line ∧ lacksRoot (line ++ ['\n']) = lacksRoot line ∧
      withRoot (line ++ ['\n']) = withRoot line := by
  unfold isUnified lacksRoot withRoot
  rw [lineCopy_newline h]
  exact ⟨rfl, rfl, rfl⟩

theorem not_mem_lineCopy (piece : Text) : '\x00' ∉ lineCopy piece ∧ '\n' ∉ lineCopy piece := by
  constructor
  · intro hmem
    have hmem := List.takeWhile_subset _ hmem
    simpa [cString] using List.mem_takeWhile_imp hmem
  · intro hmem
    simpa using List.mem_takeWhile_imp hmem

theorem isUnified_of_lacksRoot {piece : Text} (h : lacksRoot piece = true) :
    isUnified piece = true := by
  unfold lacksRoot at h
  unfold isUnified
  rw [Option.any_eq_true] at h ⊢
  obtain ⟨g, hg, hlacks⟩ := h
  rw [Bool.and_eq_true] at hlacks
  exact ⟨g, hg, hlacks.1⟩

theorem length_lineCopy (piece : Text) : (lineCopy piece).length ≤ piece.length :=
  ((List.takeWhile_prefix _).length_le).trans (List.takeWhile_prefix _).length_le

theorem exists_entry_of_lacksRoot {piece : Text} (h : lacksRoot piece = true) :
    ∃ g, parseGroup (lineCopy piece) = some g ∧ wrap (atoi g.gid) = gpuUnifiedGid ∧
      hasUser g.users rootName = false := by
  unfold lacksRoot at h
  obtain ⟨g, hg, hlacks⟩ := (Option.any_eq_true _ _).1 h
  rw [Bool.and_eq_true, beq_iff_eq, Bool.not_eq_true'] at hlacks
  exact ⟨g, hg, hlacks⟩

/-- The buffer for the users is large enough. -/
theorem withRoot_eq {piece : Text} (hlen : piece.length ≤ 2047) (h : lacksRoot piece = true) :
    withRoot piece = lineCopy piece ++ rootSuffix (usersOf piece) := by
  obtain ⟨g, hg, hgid, -⟩ := exists_entry_of_lacksRoot h
  have husers := length_users hg hgid
  have hcopy := length_lineCopy piece
  rw [withRoot, usersOf, hg]
  simp only [Option.map_some, Option.getD_some]
  rw [newMembers_eq (by omega)]
  obtain ⟨-, -, -, -, -, -, hline⟩ := parseGroup_eq_some_iff.1 hg
  rw [hline, List.append_assoc, List.cons_append]

/-- What comes behind the users of a line is read as more of them. -/
theorem decided_append {piece : Text} {g : GroupEntry} (hg : parseGroup (lineCopy piece) = some g)
    (hgid : wrap (atoi g.gid) = gpuUnifiedGid) {more : Text}
    (hmore : more ⊆ rootSuffix g.users) :
    isUnified (lineCopy piece ++ more) = true ∧
      lacksRoot (lineCopy piece ++ more) = !hasUser (g.users ++ more) rootName := by
  obtain ⟨hnul, hline⟩ := not_mem_lineCopy piece
  have hcopy : lineCopy (lineCopy piece ++ more) = lineCopy piece ++ more := by
    refine lineCopy_eq_self ?_ ?_
    · rw [List.mem_append, not_or]
      exact ⟨hnul, fun hmem => not_mem_rootSuffix _ (Or.inr rfl) (hmore hmem)⟩
    · rw [List.mem_append, not_or]
      exact ⟨hline, fun hmem => not_mem_rootSuffix _ (Or.inl rfl) (hmore hmem)⟩
  unfold isUnified lacksRoot
  rw [hcopy, parseGroup_append hg]
  simp [hgid]

/-! ## What is written is read -/

theorem fileLines_fits {line : Text} (hne : line ≠ []) (hline : '\n' ∉ line)
    (hlen : line.length ≤ 2047) :
    fileLines (line ++ ['\n']) = [line ++ ['\n']] ∨
      fileLines (line ++ ['\n']) = [line, ['\n']] := by
  have hread := fgets_eq_singleton hne hline hlen
  rcases fgets_newline 2046 hline with ⟨-, heq⟩ | ⟨-, pieces, last, hpieces, heq⟩
  · exact Or.inr (heq.trans (by rw [hread]; rfl))
  · rw [hread] at hpieces
    cases pieces with
    | nil =>
      obtain rfl := (List.singleton_inj.1 hpieces)
      exact Or.inl heq
    | cons piece pieces => simp at hpieces

theorem fileLines_overfull {line : Text} (hline : '\n' ∉ line) (hlen : 2047 < line.length) :
    line.take 2047 ∈ fileLines (line ++ ['\n']) := by
  have htake : (line.take 2047).length = 2047 := List.length_take_of_le hlen.le
  have hpiece : IsPiece 2046 (line.take 2047) :=
    ⟨List.ne_nil_of_length_pos (by omega),
      fun hmem => hline (List.mem_of_mem_take (List.dropLast_subset _ hmem)), htake.le⟩
  have hread := @IsPiece.fgets_append 2046 _ _ hpiece (line.drop 2047 ++ ['\n'])
    (Or.inr (Or.inr htake))
  rw [← List.append_assoc, List.take_append_drop] at hread
  rw [fileLines, hread]
  exact List.mem_cons_self

theorem writePiece_of_not {piece : Text} (hnul : '\x00' ∉ piece) (h : lacksRoot piece = false) :
    writePiece piece = piece := by
  rw [writePiece, if_neg (by simp [h]), cString_eq_self hnul]

section Pieces

variable {piece : Text} (hpiece : IsPiece 2046 piece) (hnul : '\x00' ∉ piece)
include hpiece

theorem fileLines_piece : fileLines piece = [piece] := by
  have hread := @IsPiece.fgets_append 2046 _ _ hpiece [] (Or.inl rfl)
  rwa [List.append_nil, show fgets 2046 [] 2046 = [] by rw [fgets]] at hread

theorem not_mem_withRoot (h : lacksRoot piece = true) :
    '\x00' ∉ withRoot piece ∧ '\n' ∉ withRoot piece := by
  rw [withRoot_eq hpiece.fits h, List.mem_append, List.mem_append, not_or, not_or]
  have hcopy := not_mem_lineCopy piece
  exact ⟨⟨hcopy.1, not_mem_rootSuffix _ (Or.inr rfl)⟩, hcopy.2, not_mem_rootSuffix _ (Or.inl rfl)⟩

theorem withRoot_ne_nil (h : lacksRoot piece = true) : withRoot piece ≠ [] := by
  have hpos := length_rootSuffix (usersOf piece)
  refine List.ne_nil_of_length_pos ?_
  rw [withRoot_eq hpiece.fits h, List.length_append]
  omega

theorem decided_withRoot (h : lacksRoot piece = true) :
    isUnified (withRoot piece) = true ∧ lacksRoot (withRoot piece) = false := by
  obtain ⟨g, hg, hgid, -⟩ := exists_entry_of_lacksRoot h
  have husers : usersOf piece = g.users := by rw [usersOf, hg]; rfl
  have hread := decided_append hg hgid (List.Subset.refl _)
  rw [hasUser_rootSuffix] at hread
  rw [withRoot_eq hpiece.fits h, husers]
  exact hread

include hnul

/-- A piece is what is looked at, but for the newline. -/
theorem piece_eq : piece = lineCopy piece ∨ piece = lineCopy piece ++ ['\n'] := by
  obtain ⟨front, last, rfl⟩ := (List.eq_nil_or_concat piece).resolve_left hpiece.ne_nil
  rw [List.concat_eq_append] at *
  have hfront : '\n' ∉ front := by simpa using hpiece.oneLine
  rw [List.mem_append, not_or] at hnul
  by_cases hlast : last = '\n'
  · right
    rw [hlast, lineCopy_newline hfront, lineCopy_eq_self hnul.1 hfront]
  · left
    refine (lineCopy_eq_self (by simpa using hnul) ?_).symm
    simpa [hfront] using Ne.symm hlast

theorem length_writePiece : piece.length ≤ (writePiece piece).length ∧
    (lacksRoot piece = true → piece.length < (writePiece piece).length) := by
  cases h : lacksRoot piece with
  | false => simp [writePiece_of_not hnul h]
  | true =>
    have hlen := length_rootSuffix (usersOf piece)
    have hlong : piece.length ≤ (lineCopy piece).length + 1 := by
      have heq := (piece_eq hpiece hnul).imp (congrArg List.length) (congrArg List.length)
      rw [List.length_append, List.length_singleton] at heq
      omega
    rw [writePiece, if_pos h, withRoot_eq hpiece.fits h]
    simp only [List.length_append, List.length_singleton]
    omega

/-- **An entry has root in it after it was rewritten, unless it is too long then.** -/
theorem lacksRoot_again :
    (∃ q ∈ fileLines (writePiece piece), lacksRoot q = true) ↔
      lacksRoot piece = true ∧ 2047 < (withRoot piece).length := by
  cases h : lacksRoot piece with
  | false => simp [writePiece_of_not hnul h, fileLines_piece hpiece, h]
  | true =>
    obtain ⟨g, hg, hgid, hlacks⟩ := exists_entry_of_lacksRoot h
    have hline := (not_mem_withRoot hpiece h).2
    have hroot := withRoot_eq hpiece.fits h
    have husers : usersOf piece = g.users := by rw [usersOf, hg]; rfl
    rw [husers] at hroot
    rw [writePiece, if_pos h, and_iff_right rfl]
    constructor
    · rintro ⟨q, hq, hqlacks⟩
      by_contra hlen
      have hgiven := (decided_withRoot hpiece h).2
      have hend : lacksRoot ['\n'] = false := by decide
      have hcases : q = withRoot piece ++ ['\n'] ∨ q = withRoot piece ∨ q = ['\n'] := by
        rcases fileLines_fits (withRoot_ne_nil hpiece h) hline
          (Nat.le_of_not_lt hlen) with heq | heq
        · rw [heq, List.mem_singleton] at hq
          exact Or.inl hq
        · rw [heq, List.mem_pair] at hq
          exact Or.inr hq
      rcases hcases with rfl | rfl | rfl
      · rw [(decided_newline hline).2.1, hgiven] at hqlacks
        cases hqlacks
      · rw [hgiven] at hqlacks
        cases hqlacks
      · rw [hend] at hqlacks
        cases hqlacks
    · intro hlen
      refine ⟨_, fileLines_overfull hline hlen, ?_⟩
      have hcopy := length_lineCopy piece
      have hfits : piece.length ≤ 2047 := hpiece.fits
      have hk : 2047 - (lineCopy piece).length < (rootSuffix g.users).length := by
        rw [hroot, List.length_append] at hlen
        omega
      rw [hroot, List.take_append, List.take_of_length_le (hcopy.trans hfits),
        (decided_append hg hgid (List.take_subset _ _)).2, hasUser_take hlacks hk]
      rfl

theorem isUnified_again (h : isUnified piece = true) :
    ∃ q ∈ fileLines (writePiece piece), isUnified q = true := by
  cases hlacks : lacksRoot piece with
  | false =>
    rw [writePiece_of_not hnul hlacks, fileLines_piece hpiece]
    exact ⟨piece, List.mem_singleton_self _, h⟩
  | true =>
    by_cases hlen : 2047 < (withRoot piece).length
    · obtain ⟨q, hq, hqlacks⟩ := (lacksRoot_again hpiece hnul).2 ⟨hlacks, hlen⟩
      exact ⟨q, hq, isUnified_of_lacksRoot hqlacks⟩
    · have hline := (not_mem_withRoot hpiece hlacks).2
      have hgiven := (decided_withRoot hpiece hlacks).1
      rw [writePiece, if_pos hlacks]
      rcases fileLines_fits (withRoot_ne_nil hpiece hlacks) hline (Nat.le_of_not_lt hlen) with
        heq | heq
      · rw [heq]
        exact ⟨_, List.mem_singleton_self _, (decided_newline hline).1.trans hgiven⟩
      · rw [heq]
        exact ⟨_, List.mem_cons_self, hgiven⟩

end Pieces

/-- What is written for each of the pieces is read on its own. -/
theorem fileLines_flatMap_writePiece {pieces : List Text} (hpiece : ∀ p ∈ pieces, IsPiece 2046 p)
    (hfull : pieces.Pairwise fun p _ => IsFull 2046 p) (hnul : ∀ p ∈ pieces, '\x00' ∉ p) :
    fileLines (pieces.flatMap writePiece) =
      pieces.flatMap fun piece => fileLines (writePiece piece) := by
  induction pieces with
  | nil => rw [List.flatMap_nil, List.flatMap_nil, fileLines, fgets]
  | cons p pieces ih =>
    rw [List.forall_mem_cons] at hpiece hnul
    obtain ⟨hp, hfull⟩ := List.pairwise_cons.1 hfull
    rw [List.flatMap_cons, List.flatMap_cons, ← ih hpiece.2 hfull hnul.2]
    cases h : lacksRoot p with
    | true =>
      rw [writePiece, if_pos h, List.append_assoc, List.singleton_append]
      exact fgets_append 2046 _ _ 2046
    | false =>
      rw [writePiece_of_not hnul.1 h, fileLines_piece hpiece.1]
      refine hpiece.1.fgets_append 2046 ?_
      cases pieces with
      | nil => exact Or.inl rfl
      | cons q pieces => exact Or.inr (hp q List.mem_cons_self)

/-! ## The second run -/

section Content

variable {content : Text} (hnul : '\x00' ∉ content)
include hnul

theorem not_nul_mem_fileLines {piece : Text} (hpiece : piece ∈ fileLines content) :
    '\x00' ∉ piece := fun hmem => hnul (subset_of_mem_fgets hpiece hmem)

/-- **The pieces of what is written.** -/
theorem fileLines_written :
    fileLines (written content) =
      (fileLines content).flatMap fun piece => fileLines (writePiece piece) := by
  obtain ⟨hpiece, hfull⟩ := isPiece_of_mem_fgets 2046 content
  exact fileLines_flatMap_writePiece hpiece hfull fun p hp => not_nul_mem_fileLines hnul hp

theorem lacksRoot_written_iff :
    (∃ q ∈ fileLines (written content), lacksRoot q = true) ↔
      ∃ p ∈ fileLines content, lacksRoot p = true ∧ 2047 < (withRoot p).length := by
  have hpiece := (isPiece_of_mem_fgets 2046 content).1
  rw [fileLines_written hnul]
  constructor
  · rintro ⟨q, hq, hlacks⟩
    obtain ⟨p, hp, hq⟩ := List.mem_flatMap.1 hq
    exact ⟨p, hp, (lacksRoot_again (hpiece p hp) (not_nul_mem_fileLines hnul hp)).1 ⟨q, hq, hlacks⟩⟩
  · rintro ⟨p, hp, hlong⟩
    obtain ⟨q, hq, hlacks⟩ :=
      (lacksRoot_again (hpiece p hp) (not_nul_mem_fileLines hnul hp)).2 hlong
    exact ⟨q, List.mem_flatMap.2 ⟨p, hp, hq⟩, hlacks⟩

theorem isUnified_written (h : ∃ p ∈ fileLines content, isUnified p = true) :
    ∃ q ∈ fileLines (written content), isUnified q = true := by
  obtain ⟨p, hp, hunified⟩ := h
  obtain ⟨q, hq, hunified⟩ := isUnified_again ((isPiece_of_mem_fgets 2046 content).1 p hp)
    (not_nul_mem_fileLines hnul hp) hunified
  rw [fileLines_written hnul]
  exact ⟨q, List.mem_flatMap.2 ⟨p, hp, hq⟩, hunified⟩

theorem length_written : content.length ≤ (written content).length ∧
    ((∃ p ∈ fileLines content, lacksRoot p = true) →
      content.length < (written content).length) := by
  have hpiece := (isPiece_of_mem_fgets 2046 content).1
  have hlen : content.length = ((fileLines content).map List.length).sum := by
    rw [← List.length_flatten]
    exact congrArg List.length (flatten_fgets 2046 content 2046).symm
  rw [hlen, written, List.length_flatMap]
  have hle : ∀ p ∈ fileLines content, p.length ≤ (writePiece p).length := fun p hp =>
    (length_writePiece (hpiece p hp) (not_nul_mem_fileLines hnul hp)).1
  refine ⟨List.sum_le_sum hle, fun ⟨p, hp, hlacks⟩ => List.sum_lt_sum _ _ hle ⟨p, hp, ?_⟩⟩
  exact (length_writePiece (hpiece p hp) (not_nul_mem_fileLines hnul hp)).2 hlacks

/-- A run that is not over makes the file longer. -/
theorem length_setupGpuGroups (h : ¬ IsSettled content) :
    content.length < (setupGpuGroups content).length := by
  have hlen := length_written hnul
  rw [setupGpuGroups_of_not h, List.length_append]
  split
  · next hfound =>
    have hlacks : ∃ p ∈ fileLines content, lacksRoot p = true := by
      by_contra hnone
      exact h ⟨List.any_eq_true.1 hfound, fun p hp =>
        Bool.eq_false_iff.2 fun hlacks => hnone ⟨p, hp, hlacks⟩⟩
    exact Nat.lt_add_right _ (hlen.2 hlacks)
  · have hpos : 0 < (newEntry ++ ['\n']).length := by simp
    omega

theorem setupGpuGroups_eq_self_iff : setupGpuGroups content = content ↔ IsSettled content := by
  refine ⟨fun heq => ?_, setupGpuGroups_of_settled⟩
  by_contra h
  have hlen := length_setupGpuGroups hnul h
  rw [heq] at hlen
  exact lt_irrefl _ hlen

end Content

end Droidspaces.GpuGroups
