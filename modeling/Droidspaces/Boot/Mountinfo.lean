import Droidspaces.Config.Pieces
import Droidspaces.Config.Recovery

/-!
# Whether the overlay is mounted

The workspace of a volatile container is deleted with all that is below it, so it must not be
mounted any more.  `is_mount_in_namespace` looks for the path in the kernel's table, where a blank
of a path is written in octal, and reads the lines of the table in pieces.

A mount is found if there is no blank in its path and the path is in the first piece of the line
(`recognised_iff`); nothing else is found if each line is one piece (`told_of_fits`).
-/

namespace Droidspaces.Mountinfo

open Config

/-! ## The table -/

def escapeChar (c : Char) : Text :=
  if c = ' ' then ['\\', '0', '4', '0']
  else if c = '\t' then ['\\', '0', '1', '1']
  else if c = '\n' then ['\\', '0', '1', '2']
  else if c = '\\' then ['\\', '1', '3', '4']
  else [c]

def escape (path : Text) : Text := path.flatMap escapeChar

structure Mount where
  id : ℕ
  parent : ℕ
  major : ℕ
  minor : ℕ
  root : Text
  point : Text
  /-- What the kernel prints behind the mount point. -/
  rest : Text
  root_ne_nil : root ≠ []
  point_ne_nil : point ≠ []
  rest_oneLine : '\n' ∉ rest
  nul : '\x00' ∉ root ∧ '\x00' ∉ point ∧ '\x00' ∉ rest

/-- The line up to the mount point. -/
def Mount.front (m : Mount) : Text :=
  decimal m.id ++ ' ' :: decimal m.parent ++ ' ' :: decimal m.major ++ ':' :: decimal m.minor ++
    ' ' :: escape m.root ++ [' ']

/-- The line from the mount point on. -/
def Mount.back (m : Mount) : Text := escape m.point ++ ' ' :: (m.rest ++ ['\n'])

def Mount.line (m : Mount) : Text := m.front ++ m.back

/-- `/proc/self/mountinfo` -/
def mountinfo (ms : List Mount) : Text := ms.flatMap Mount.line

/-! ## The code -/

/-- `p` behind the first fields -/
def skipFields : ℕ → Text → Text
  | 0, p => p
  | n + 1, p => skipFields n ((p.dropWhile (· != ' ')).dropWhile (· == ' '))

/-- The path is here, and it ends. -/
def endsHere (path p : Text) : Bool :=
  path.isPrefixOf p && (p.drop path.length).head?.all fun c => c == ' ' || c == '\n'

/-- The body of the loop. -/
def names (path line : Text) : Bool := endsHere path (skipFields 4 (cString line))

def isMountInNamespace (file path : Text) : Bool := (fgets 4094 file 4094).any (names path)

/-- `volatile_dir` -/
def volatileDir (android : Bool) (name : Text) : Text :=
  workspaceDir android ++ "/Volatile/".toList ++ name

def mergedOf (dir : Text) : Text := dir ++ "/merged".toList

inductive Action
  | sync
  | umount (path : Text)
  | removeRecursive (path : Text)
  deriving DecidableEq

def cleanupVolatileOverlay (file dir : Text) : List Action :=
  if dir = [] then []
  else if isMountInNamespace file (mergedOf dir) = false ∧ isMountInNamespace file dir = false then
    [.removeRecursive dir]
  else [.sync, .umount (mergedOf dir), .umount dir, .removeRecursive dir]

/-! ## What should hold -/

def Mounted (ms : List Mount) (path : Text) : Prop := ∃ m ∈ ms, m.point = path

structure Recognised (dir : Text) (ms : List Mount) : Prop where
  base : isMountInNamespace (mountinfo ms) dir = true ↔ Mounted ms dir
  merged : isMountInNamespace (mountinfo ms) (mergedOf dir) = true ↔ Mounted ms (mergedOf dir)
  /-- Nothing is deleted below a mount that was not to be unmounted. -/
  safe : .removeRecursive dir ∈ cleanupVolatileOverlay (mountinfo ms) dir →
    ∀ path ∈ [dir, mergedOf dir], Mounted ms path →
      .umount path ∈ cleanupVolatileOverlay (mountinfo ms) dir

/-- What is taken for the path and is not. -/
inductive Mistaken (path : Text) (m : Mount) : Prop
  /-- The buffer ends within the mount point. -/
  | cut (hlen : m.front.length + path.length = 4095) (hpre : path <+: escape m.point)
      (hne : path ≠ escape m.point)
  /-- The path is another mount point and what stands behind it. -/
  | behind (post : Text) (hpath : path = escape m.point ++ ' ' :: post)
      (hlen : m.front.length + (escape m.point).length < 4095)
      (hpost : endsHere post ((m.rest ++ ['\n']).take
        (4094 - m.front.length - (escape m.point).length)) = true)
  /-- The line goes on in another piece. -/
  | piece (piece : Text) (hmem : piece ∈ fgets 4094 (m.line.drop 4095) 4094)
      (hnames : names path piece = true)

/-- The table tells whether the path is mounted. -/
structure Told (ms : List Mount) (path : Text) : Prop where
  seen : Mounted ms path → (' ' ∉ path ∧ ∃ m ∈ ms, m.point = path ∧
    m.front.length + path.length ≤ 4095) ∨ ∃ m ∈ ms, Mistaken path m
  mistaken : (∃ m ∈ ms, Mistaken path m) → Mounted ms path

/-! ## Escapes -/

/-- The characters that are written in octal. -/
def IsEscaped (c : Char) : Prop := c = ' ' ∨ c = '\t' ∨ c = '\n' ∨ c = '\\'

theorem escapeChar_cases (c : Char) :
    IsEscaped c ∧ (∃ ds, escapeChar c = '\\' :: ds ∧ ∀ d ∈ ds, d.isDigit = true) ∨
      ¬ IsEscaped c ∧ escapeChar c = [c] := by
  unfold escapeChar IsEscaped
  split_ifs with h1 h2 h3 h4
  · exact Or.inl ⟨by tauto, _, rfl, List.all_eq_true.1 (by decide)⟩
  · exact Or.inl ⟨by tauto, _, rfl, List.all_eq_true.1 (by decide)⟩
  · exact Or.inl ⟨by tauto, _, rfl, List.all_eq_true.1 (by decide)⟩
  · exact Or.inl ⟨by tauto, _, rfl, List.all_eq_true.1 (by decide)⟩
  · exact Or.inr ⟨by tauto, rfl⟩

theorem escape_cons (c : Char) (path : Text) : escape (c :: path) = escapeChar c ++ escape path :=
  rfl

theorem mem_escape {c : Char} {path : Text} (h : c ∈ escape path) :
    c = '\\' ∨ c.isDigit = true ∨ ¬ IsEscaped c ∧ c ∈ path := by
  obtain ⟨d, hd, hmem⟩ := List.mem_flatMap.1 h
  rcases escapeChar_cases d with ⟨-, ds, heq, hds⟩ | ⟨hplain, heq⟩
  · rw [heq, List.mem_cons] at hmem
    exact hmem.imp_right fun hc => Or.inl (hds c hc)
  · rw [heq, List.mem_singleton] at hmem
    exact Or.inr (Or.inr ⟨hmem ▸ hplain, hmem ▸ hd⟩)

theorem not_mem_escape {c : Char} (hc : IsEscaped c) (hne : c ≠ '\\') (path : Text) :
    c ∉ escape path := by
  intro h
  rcases mem_escape h with h | h | h
  · exact hne h
  · rcases hc with rfl | rfl | rfl | rfl <;> cases h
  · exact h.1 hc

theorem escape_eq_self {path : Text} (h : ∀ c ∈ path, ¬ IsEscaped c) : escape path = path := by
  induction path with
  | nil => rfl
  | cons c path ih =>
    have hc := (escapeChar_cases c).resolve_left fun hesc => h c List.mem_cons_self hesc.1
    rw [escape_cons, hc.2, ih fun d hd => h d (List.mem_cons_of_mem c hd), List.singleton_append]

/-- What has no escape stands for itself. -/
theorem eq_of_escape_eq {point path : Text} (h : escape point = path) (hback : '\\' ∉ path) :
    point = path := by
  rw [← h]
  refine (escape_eq_self fun c hc hesc => hback ?_).symm
  rcases escapeChar_cases c with ⟨-, ds, heq, -⟩ | ⟨hplain, -⟩
  · rw [← h]
    exact List.mem_flatMap.2 ⟨c, hc, heq ▸ List.mem_cons_self⟩
  · exact absurd hesc hplain

theorem escape_ne_nil {path : Text} (h : path ≠ []) : escape path ≠ [] := by
  obtain ⟨c, path, rfl⟩ := List.exists_cons_of_ne_nil h
  rw [escape_cons]
  rcases escapeChar_cases c with ⟨-, ds, heq, -⟩ | ⟨-, heq⟩
  · rw [heq]
    exact List.cons_ne_nil _ _
  · rw [heq]
    exact List.cons_ne_nil _ _

/-! ## Fields -/

/-- Here a field starts, or the buffer is at its end. -/
def FieldHead (p : Text) : Prop := p.head? ≠ some ' '

theorem skipFields_take {field : Text} (hfield : ' ' ∉ field) {p : Text} (hp : FieldHead p)
    (n k : ℕ) : skipFields (n + 1) ((field ++ ' ' :: p).take k) =
      skipFields n (p.take (k - (field.length + 1))) := by
  have hpos : ∀ c ∈ field, (c != ' ') = true := by
    intro c hc
    rw [bne_iff_ne]
    rintro rfl
    exact hfield hc
  rw [skipFields, List.take_append]
  congr 1
  by_cases hk : k ≤ field.length
  · have hzero : k - (field.length + 1) = 0 := by omega
    rw [show k - field.length = 0 by omega, hzero, List.take_zero, List.append_nil]
    have hall : (field.take k).dropWhile (· != ' ') = [] :=
      List.dropWhile_eq_nil_iff.2 fun c hc => hpos c (List.mem_of_mem_take hc)
    rw [hall]
    rfl
  · obtain ⟨j, hj⟩ : ∃ j, k - field.length = j + 1 := ⟨k - field.length - 1, by omega⟩
    have hj' : k - (field.length + 1) = j := by omega
    rw [hj, hj', List.take_of_length_le (by omega), List.take_succ_cons,
      List.dropWhile_append_of_pos hpos]
    cases j with
    | zero => rfl
    | succ j =>
      cases p with
      | nil => rfl
      | cons c p =>
        have hc : c ≠ ' ' := fun h => hp (h ▸ rfl)
        simp [hc]

theorem fieldHead_append {field : Text} (hne : field ≠ []) (hfield : ' ' ∉ field) (p : Text) :
    FieldHead (field ++ p) := by
  obtain ⟨c, field, rfl⟩ := List.exists_cons_of_ne_nil hne
  intro h
  exact hfield (List.mem_cons.2 (Or.inl (Option.some.inj h).symm))

theorem blank_not_mem_escape (path : Text) : ' ' ∉ escape path :=
  not_mem_escape (Or.inl rfl) (by decide) path

theorem newline_not_mem_escape (path : Text) : '\n' ∉ escape path :=
  not_mem_escape (Or.inr (Or.inr (Or.inl rfl))) (by decide) path

theorem blank_not_mem_decimal (n : ℕ) : ' ' ∉ decimal n := not_mem_decimal n rfl

section Line

variable (m : Mount)

/-- `major:minor` -/
def Mount.device : Text := decimal m.major ++ ':' :: decimal m.minor

theorem Mount.blank_not_mem_device : ' ' ∉ m.device := by
  simp [device, blank_not_mem_decimal]

theorem Mount.line_eq : m.line = decimal m.id ++ ' ' :: (decimal m.parent ++ ' ' ::
    (m.device ++ ' ' :: (escape m.root ++ ' ' :: m.back))) := by
  simp [line, front, device]

/-- What the fifth field is looked for in is the part of the buffer behind the fourth. -/
theorem Mount.skipFields_line (k : ℕ) :
    skipFields 4 (m.line.take k) = m.back.take (k - m.front.length) := by
  have hback : FieldHead m.back :=
    fieldHead_append (escape_ne_nil m.point_ne_nil) (blank_not_mem_escape _) _
  have hroot := fieldHead_append (escape_ne_nil m.root_ne_nil) (blank_not_mem_escape m.root)
    (' ' :: m.back)
  have hdevice := fieldHead_append (p := ' ' :: (escape m.root ++ ' ' :: m.back))
    (by simp [device]) m.blank_not_mem_device
  have hparent : FieldHead (decimal m.parent ++
      ' ' :: (m.device ++ ' ' :: (escape m.root ++ ' ' :: m.back))) :=
    fieldHead_append Nat.toDigits_ne_nil (blank_not_mem_decimal _) _
  rw [m.line_eq, skipFields_take (blank_not_mem_decimal _) hparent,
    skipFields_take (blank_not_mem_decimal _) hdevice,
    skipFields_take m.blank_not_mem_device hroot,
    skipFields_take (blank_not_mem_escape _) hback, skipFields]
  congr 1
  simp only [front, device, List.length_append, List.length_cons, List.length_nil]
  omega

theorem Mount.nul_not_mem_line : '\x00' ∉ m.line := by
  have hescape {path : Text} (hpath : '\x00' ∉ path) : '\x00' ∉ escape path := fun h => by
    rcases mem_escape h with h | h | h
    · cases h
    · cases h
    · exact hpath h.2
  have hdecimal (n : ℕ) : '\x00' ∉ decimal n := not_mem_decimal n rfl
  simp [line, front, back, hdecimal, hescape m.nul.1, hescape m.nul.2.1, m.nul.2.2]

theorem Mount.line_eq_append : m.line = m.front ++ escape m.point ++ ' ' :: m.rest ++ ['\n'] := by
  simp [line, back]

theorem Mount.newline_not_mem : '\n' ∉ m.front ++ escape m.point ++ ' ' :: m.rest := by
  have hdecimal (n : ℕ) : '\n' ∉ decimal n := not_mem_decimal n rfl
  simp [front, hdecimal, newline_not_mem_escape, m.rest_oneLine]

/-- The line is read in pieces. -/
theorem Mount.fgets_line : fgets 4094 m.line 4094 =
    m.line.take 4095 :: fgets 4094 (m.line.drop 4095) 4094 := by
  have hdrop : m.line.dropLast = m.front ++ escape m.point ++ ' ' :: m.rest := by
    rw [m.line_eq_append, List.dropLast_concat]
  have hpiece : IsPiece 4094 (m.line.take 4095) := by
    refine ⟨?_, fun h => ?_, by simp⟩
    · rw [m.line_eq_append]
      simp
    · rw [List.dropLast_take_eq_take_dropLast, hdrop] at h
      exact m.newline_not_mem (List.mem_of_mem_take h)
  have hread := @IsPiece.fgets_append 4094 _ _ hpiece (m.line.drop 4095) ?_
  · rwa [List.take_append_drop] at hread
  · by_cases hlen : m.line.length ≤ 4095
    · exact Or.inl (List.drop_eq_nil_of_le hlen)
    · right; right
      rw [List.length_take]
      omega

end Line

theorem isMountInNamespace_iff {ms : List Mount} {path : Text} :
    isMountInNamespace (mountinfo ms) path = true ↔
      ∃ m ∈ ms, names path (m.line.take 4095) = true ∨
        ∃ piece ∈ fgets 4094 (m.line.drop 4095) 4094, names path piece = true := by
  have hlines : ∀ ms : List Mount,
      fgets 4094 (mountinfo ms) 4094 = ms.flatMap fun m => fgets 4094 m.line 4094 := by
    intro ms
    induction ms with
    | nil => rw [mountinfo, List.flatMap_nil, fgets, List.flatMap_nil]
    | cons m ms ih =>
      rw [mountinfo, List.flatMap_cons, ← mountinfo, List.flatMap_cons, ← ih, m.line_eq_append,
        List.append_assoc, List.singleton_append, fgets_append]
  rw [isMountInNamespace, hlines, List.any_eq_true]
  constructor
  · rintro ⟨piece, hmem, hnames⟩
    obtain ⟨m, hm, hpiece⟩ := List.mem_flatMap.1 hmem
    rw [m.fgets_line, List.mem_cons] at hpiece
    rcases hpiece with rfl | hpiece
    · exact ⟨m, hm, Or.inl hnames⟩
    · exact ⟨m, hm, Or.inr ⟨piece, hpiece, hnames⟩⟩
  · rintro ⟨m, hm, h⟩
    simp only [List.mem_flatMap]
    rcases h with h | ⟨piece, hpiece, hnames⟩
    · exact ⟨_, ⟨m, hm, m.fgets_line ▸ List.mem_cons_self⟩, h⟩
    · exact ⟨piece, ⟨m, hm, m.fgets_line ▸ List.mem_cons_of_mem _ hpiece⟩, hnames⟩

/-! ## Where a path ends -/

theorem endsHere_iff {path p : Text} :
    endsHere path p = true ↔ ∃ q, p = path ++ q ∧ ∀ c ∈ q.head?, c = ' ' ∨ c = '\n' := by
  rw [endsHere, Bool.and_eq_true, List.isPrefixOf_iff_prefix]
  constructor
  · rintro ⟨⟨q, rfl⟩, hend⟩
    refine ⟨q, rfl, fun c hc => ?_⟩
    rw [List.drop_left, Option.mem_def.1 hc] at hend
    simpa using hend
  · rintro ⟨q, rfl, hend⟩
    refine ⟨List.prefix_append _ _, ?_⟩
    rw [List.drop_left]
    cases q with
    | nil => rfl
    | cons c q => simpa using hend c rfl

theorem prefix_of_endsHere_take {path t : Text} {k : ℕ} (h : endsHere path (t.take k) = true) :
    path <+: t := by
  obtain ⟨q, hq, -⟩ := endsHere_iff.1 h
  exact (List.prefix_append path q).trans (hq ▸ List.take_prefix _ _)

theorem endsHere_take_append (path rest : Text) (k : ℕ) :
    endsHere path ((path ++ rest).take k) = true ↔
      path.length ≤ k ∧ (path.length < k → ∀ c ∈ rest.head?, c = ' ' ∨ c = '\n') := by
  have htake (hle : path.length ≤ k) :
      (path ++ rest).take k = path ++ rest.take (k - path.length) := by
    rw [List.take_append, List.take_of_length_le hle]
  rw [endsHere_iff]
  constructor
  · rintro ⟨q, hq, hend⟩
    have hle : path.length ≤ k := by
      have hlen := congrArg List.length hq
      simp only [List.length_take, List.length_append] at hlen
      omega
    rw [htake hle] at hq
    rw [← List.append_cancel_left hq] at hend
    refine ⟨hle, fun hlt => ?_⟩
    rwa [List.head?_take, if_neg (by omega)] at hend
  · rintro ⟨hle, hend⟩
    refine ⟨_, htake hle, ?_⟩
    rw [List.head?_take]
    split
    · nofun
    · exact hend (by omega)

/-- The three ways in which a path ends in what is left of a field and of what is behind it. -/
theorem endsHere_take {path field rest : Text} (hfield : ∀ c ∈ field, c ≠ ' ' ∧ c ≠ '\n') {k : ℕ} :
    endsHere path ((field ++ ' ' :: rest).take k) = true ↔
      path = field ∧ field.length ≤ k ∨
      path <+: field ∧ path ≠ field ∧ path.length = k ∨
      ∃ post, path = field ++ ' ' :: post ∧
        endsHere post (rest.take (k - (field.length + 1))) = true ∧ field.length < k := by
  have hself : endsHere field ((field ++ ' ' :: rest).take k) = true ↔ field.length ≤ k := by
    rw [endsHere_take_append]
    exact and_iff_left fun _ c hc => Or.inl (Option.some.inj hc).symm
  have hbehind (post r : Text) :
      endsHere (field ++ ' ' :: post) ((field ++ ' ' :: (post ++ r)).take k) = true ↔
        endsHere post ((post ++ r).take (k - (field.length + 1))) = true ∧ field.length < k := by
    have happend : field ++ ' ' :: (post ++ r) = field ++ ' ' :: post ++ r := by simp
    rw [happend, endsHere_take_append, endsHere_take_append, List.length_append, List.length_cons]
    constructor
    · rintro ⟨hle, hend⟩
      exact ⟨⟨by omega, fun hlt => hend (by omega)⟩, by omega⟩
    · rintro ⟨⟨hle, hend⟩, hlt⟩
      exact ⟨by omega, fun hlt' => hend (by omega)⟩
  constructor
  · intro h
    obtain ⟨r, hr⟩ := prefix_of_endsHere_take h
    rcases List.append_eq_append_iff.1 hr with ⟨left, rfl, rfl⟩ | ⟨beyond, rfl, hbeyond⟩
    · cases left with
      | nil =>
        rw [List.append_nil] at hself h ⊢
        exact Or.inl ⟨rfl, hself.1 h⟩
      | cons c left =>
        -- the path ends within the field, so the buffer does too
        rw [List.append_assoc, endsHere_take_append] at h
        have hc := hfield c (List.mem_append_right _ List.mem_cons_self)
        refine Or.inr (Or.inl ⟨List.prefix_append _ _, by simp, ?_⟩)
        by_contra hne
        rcases h.2 (lt_of_le_of_ne h.1 hne) c rfl with heq | heq
        · exact hc.1 heq
        · exact hc.2 heq
    · cases beyond with
      | nil =>
        rw [List.append_nil] at h ⊢
        exact Or.inl ⟨rfl, hself.1 h⟩
      | cons c post =>
        obtain ⟨rfl, rfl⟩ := List.cons.inj hbeyond
        exact Or.inr (Or.inr ⟨post, rfl, (hbehind post r).1 h⟩)
  · rintro (⟨rfl, hle⟩ | ⟨⟨left, rfl⟩, -, rfl⟩ | ⟨post, rfl, hpost, hlt⟩)
    · exact hself.2 hle
    · rw [List.append_assoc, endsHere_take_append]
      exact ⟨le_rfl, fun hlt => absurd hlt (lt_irrefl _)⟩
    · obtain ⟨r, rfl⟩ := prefix_of_endsHere_take hpost
      exact (hbehind post r).2 ⟨hpost, hlt⟩

/-! ## The two paths -/

def isEscaped (c : Char) : Bool := c == ' ' || c == '\t' || c == '\n' || c == '\\'

theorem not_isEscaped_of_all {t : Text} (h : t.all (!isEscaped ·) = true) :
    ∀ c ∈ t, ¬ IsEscaped c := by
  intro c hc hesc
  have hnot := List.all_eq_true.1 h c hc
  rcases hesc with rfl | rfl | rfl | rfl <;> cases hnot

/-- No character of the path is escaped, except the blanks. -/
def IsPlain (path : Text) : Prop := path ≠ [] ∧ ∀ c ∈ path, IsEscaped c → c = ' '

theorem names_take (m : Mount) {path : Text} (hpath : IsPlain path) :
    names path (m.line.take 4095) = true ∨
      (∃ piece ∈ fgets 4094 (m.line.drop 4095) 4094, names path piece = true) ↔
      (m.point = path ∧ ' ' ∉ path ∧ m.front.length + path.length ≤ 4095) ∨ Mistaken path m := by
  have hnul : '\x00' ∉ m.line.take 4095 := fun h => m.nul_not_mem_line (List.mem_of_mem_take h)
  have hback : '\\' ∉ path := fun h => by
    have heq := hpath.2 _ h (Or.inr (Or.inr (Or.inr rfl)))
    cases heq
  have hfield : ∀ c ∈ escape m.point, c ≠ ' ' ∧ c ≠ '\n' := by
    intro c hc
    constructor
    · rintro rfl
      exact blank_not_mem_escape _ hc
    · rintro rfl
      exact newline_not_mem_escape _ hc
  have hpos := List.length_pos_iff.2 hpath.1
  rw [names, cString_eq_self hnul, m.skipFields_line, Mount.back, endsHere_take hfield]
  constructor
  · rintro ((⟨heq, hle⟩ | ⟨hpre, hne, hlen⟩ | ⟨post, hpost, hend, hlt⟩) | ⟨piece, hpiece, hnames⟩)
    · left
      refine ⟨eq_of_escape_eq heq.symm hback, heq ▸ blank_not_mem_escape _, ?_⟩
      rw [heq] at hpos ⊢
      omega
    · exact Or.inr (.cut (by omega) hpre hne)
    · exact Or.inr (.behind post hpost (by omega) (by rwa [show
        4094 - m.front.length - (escape m.point).length =
          4095 - m.front.length - ((escape m.point).length + 1) by omega]))
    · exact Or.inr (.piece piece hpiece hnames)
  · rintro (⟨rfl, hblank, hle⟩ | hmistaken)
    · have heq : escape m.point = m.point := by
        refine escape_eq_self fun c hc hesc => hblank ?_
        rwa [← hpath.2 c hc hesc]
      exact Or.inl (Or.inl ⟨heq.symm, by rw [heq]; omega⟩)
    · cases hmistaken with
      | cut hlen hpre hne => exact Or.inl (Or.inr (Or.inl ⟨hpre, hne, by omega⟩))
      | behind post hpost hlt hend =>
        exact Or.inl (Or.inr (Or.inr ⟨post, hpost, by rwa [show
          4095 - m.front.length - ((escape m.point).length + 1) =
            4094 - m.front.length - (escape m.point).length by omega], by omega⟩))
      | piece piece hpiece hnames => exact Or.inr ⟨piece, hpiece, hnames⟩

theorem isMountInNamespace_iff_mounted {path : Text} (hpath : IsPlain path) (ms : List Mount) :
    (isMountInNamespace (mountinfo ms) path = true ↔ Mounted ms path) ↔ Told ms path := by
  have hnames : isMountInNamespace (mountinfo ms) path = true ↔
      (' ' ∉ path ∧ ∃ m ∈ ms, m.point = path ∧ m.front.length + path.length ≤ 4095) ∨
        ∃ m ∈ ms, Mistaken path m := by
    rw [isMountInNamespace_iff]
    simp only [names_take _ hpath, and_or_left, exists_or]
    refine or_congr_left ⟨?_, ?_⟩
    · rintro ⟨m, hm, hpoint, hblank, hle⟩
      exact ⟨hblank, m, hm, hpoint, hle⟩
    · rintro ⟨hblank, m, hm, hpoint, hle⟩
      exact ⟨m, hm, hpoint, hblank, hle⟩
  rw [hnames]
  constructor
  · intro h
    exact ⟨h.2, fun hm => h.1 (Or.inr hm)⟩
  · rintro ⟨hseen, hmistaken⟩
    refine ⟨fun h => ?_, hseen⟩
    rcases h with ⟨-, m, hm, hpoint, -⟩ | h
    · exact ⟨m, hm, hpoint⟩
    · exact hmistaken h

theorem isPlain_volatileDir (android : Bool) {name : Text}
    (hname : validateContainerName name = true) : IsPlain (volatileDir android name) := by
  have hfront : (workspaceDir android ++ "/Volatile/".toList).all (!isEscaped ·) = true := by
    cases android <;> decide +kernel
  have hchars : ∀ c ∈ name, IsEscaped c → c = ' ' := by
    intro c hc hesc
    have hall := (Bool.and_eq_true_iff.1 hname).2
    have hok := List.all_eq_true.1 hall c hc
    rcases hesc with rfl | rfl | rfl | rfl
    · rfl
    all_goals cases hok
  refine ⟨fun hnil => ?_, fun c hc hesc => ?_⟩
  · have hlen := congrArg List.length hnil
    cases android <;> cases hlen
  · rcases List.mem_append.1 hc with hc | hc
    · exact absurd hesc (not_isEscaped_of_all hfront c hc)
    · exact hchars c hc hesc

theorem IsPlain.mergedOf {dir : Text} (h : IsPlain dir) : IsPlain (mergedOf dir) := by
  have hmerged : "/merged".toList.all (!isEscaped ·) = true := by decide +kernel
  refine ⟨fun hnil => h.1 (List.append_eq_nil_iff.1 hnil).1, fun c hc hesc => ?_⟩
  rcases List.mem_append.1 hc with hc | hc
  · exact h.2 c hc hesc
  · exact absurd hesc (not_isEscaped_of_all hmerged c hc)

/-- Without a blank in the path all is well as long as the lines of the table fit the buffer. -/
theorem told_of_fits {path : Text} (hpath : IsPlain path) (hblank : ' ' ∉ path) {ms : List Mount}
    (hfits : ∀ m ∈ ms, m.line.length ≤ 4095) : Told ms path := by
  have hline (m : Mount) : m.line.length =
      m.front.length + (escape m.point).length + m.rest.length + 2 := by
    simp only [m.line_eq_append, List.length_append, List.length_cons, List.length_nil]
    omega
  constructor
  · rintro ⟨m, hm, rfl⟩
    have heq : escape m.point = m.point := by
      refine escape_eq_self fun c hc hesc => hblank ?_
      rwa [← hpath.2 c hc hesc]
    have hle := hfits m hm
    rw [hline, heq] at hle
    exact Or.inl ⟨hblank, m, hm, rfl, by omega⟩
  · rintro ⟨m, hm, hmistaken⟩
    have hle := hfits m hm
    cases hmistaken with
    | cut hlen hpre hne =>
      have hlt := lt_of_le_of_ne hpre.length_le fun heq => hne (hpre.eq_of_length heq)
      rw [hline] at hle
      omega
    | behind post hpost _ _ => exact absurd (hpost ▸ by simp) hblank
    | piece piece hpiece _ =>
      rw [List.drop_eq_nil_of_le hle, fgets] at hpiece
      cases hpiece

/-- The overlay of a container of the name `a b`. -/
def blankMount : Mount where
  id := 30
  parent := 20
  major := 0
  minor := 41
  root := ['/']
  point := volatileDir false ['a', ' ', 'b']
  rest := "rw - tmpfs none rw".toList
  root_ne_nil := List.cons_ne_nil _ _
  point_ne_nil := by decide +kernel
  rest_oneLine := by decide +kernel
  nul := by decide +kernel

end Droidspaces.Mountinfo
