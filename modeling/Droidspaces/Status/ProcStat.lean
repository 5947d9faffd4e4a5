import Droidspaces.Config.Entries
import Droidspaces.Status.Scanf
import Mathlib.Algebra.BigOperators.Group.List.Basic

/-!
# The readers of `/proc/<pid>/stat`

Four functions read the line that the kernel prints about a process.  The daemon looks for the last
parenthesis, the others skip the name of the command as if it were one word.

They agree as long as it is one (`agree_iff`).
-/

namespace Droidspaces.ProcStat

open Config Scanf

/-! ## The readers -/

/-- What `strtok_r(…, " \t\r\n", …)` finds one after the other. -/
def words (t : Text) : List Text :=
  (t.splitOnP fun c => c == ' ' || c == '\t' || c == '\r' || c == '\n').filter (!·.isEmpty)

/-- What is behind the last parenthesis, as `strrchr` finds it. -/
def behindParen (t : Text) : Option Text :=
  if ')' ∈ t then some (t.rtakeWhile (· ≠ ')')) else none

/-- `strtoull`, of a token that is one number. -/
def strtoull (t : Text) : Option ℕ :=
  match scanInt t with
  | some (v, []) => if ullongMax < v.natAbs then none else some (toULongLong v)
  | _ => none

/-- `socketd_read_proc_start_ticks`, of what is in the file -/
def socketdReadProcStartTicks (file : Text) : Option ℕ :=
  match behindParen (cString (file.take 4095)) with
  | some (' ' :: cursor) => (words cursor)[19]?.bind strtoull
  | _ => none

/-- `start_ticks` of `ds_get_container_uptime` -/
def dsGetContainerUptime (file : Text) : Option ℕ :=
  let startTicks :=
    match scanInt (skipWords 21 file) with
    | none => 0
    | some (v, _) => toULongLong v
  if startTicks = 0 then none else some startTicks

/-- `starttime` of `container_start_time_secs` -/
def containerStartTimeSecs (file : Text) : Option ℕ :=
  let r := do
    let (_, t) ← scanInt file
    let (_, t) ← scanWord t
    let (_, t) ← scanChar t
    let t ← skipInts 18 t
    scanInt t
  match r with
  | none => none
  | some (v, _) => if toULongLong v = 0 then none else some (toULongLong v)

/-- `proc_cpu_ticks` -/
def procCpuTicks (file : Text) : ℤ :=
  let r := do
    let (utime, t) ← scanInt (skipWords 13 file)
    let (stime, _) ← scanInt t
    pure (utime, stime)
  match r with
  | none => 0
  | some (utime, stime) => (toLongLong utime + toLongLong stime).bmod (2 ^ 64)

/-! ## What the kernel prints -/

structure Stat where
  pid : ℕ
  /-- The name of the command as it stands between the parentheses, where a newline and a backslash
  of the name are two characters each. -/
  comm : Text
  state : Char
  /-- The fields from `ppid` to `cmajflt`. -/
  before : List ℤ
  utime : ℕ
  stime : ℕ
  /-- The fields from `cutime` to `itrealvalue`. -/
  between : List ℤ
  starttime : ℕ
  after : List ℤ
  comm_length : comm.length ≤ 30
  comm_nul : '\x00' ∉ comm
  state_isAlpha : state.isAlpha = true
  before_length : before.length = 10
  between_length : between.length = 6
  pid_lt : pid < 2 ^ 64
  before_lt : ∀ v ∈ before, v.natAbs < 2 ^ 64
  utime_lt : utime < 2 ^ 64
  stime_lt : stime < 2 ^ 64
  between_lt : ∀ v ∈ between, v.natAbs < 2 ^ 64
  starttime_lt : starttime < 2 ^ 64

def fields (vs : List ℤ) : Text := vs.flatMap fun v => ' ' :: intText v

/-- The fields before the start time. -/
def Stat.beforeStart (s : Stat) : List ℤ :=
  s.before ++ [(s.utime : ℤ), (s.stime : ℤ)] ++ s.between

def Stat.line (s : Stat) : Text :=
  decimal s.pid ++ ' ' :: '(' :: s.comm ++ ')' :: ' ' :: s.state ::
    fields (s.beforeStart ++ (s.starttime : ℤ) :: s.after) ++ ['\n']

structure Agree (s : Stat) : Prop where
  socketd : socketdReadProcStartTicks s.line = some s.starttime
  uptime : dsGetContainerUptime s.line = some s.starttime
  start : containerStartTimeSecs s.line = some s.starttime
  cpu : procCpuTicks s.line = s.utime + s.stime

/-! ## Fields -/

theorem fields_nil : fields [] = [] := rfl

theorem fields_append (vs ws : List ℤ) : fields (vs ++ ws) = fields vs ++ fields ws :=
  List.flatMap_append

theorem fields_cons (v : ℤ) (vs : List ℤ) : fields (v :: vs) = ' ' :: intText v ++ fields vs := rfl

theorem spaceHead_fields (vs : List ℤ) : SpaceHead (fields vs ++ ['\n']) := by
  cases vs with
  | nil => exact spaceHead_cons rfl _
  | cons v vs => exact spaceHead_cons rfl _

theorem le_toNat_of_isAlpha {c : Char} (hc : c.isAlpha = true) : 65 ≤ c.toNat := by
  have hletter := toNat_of_isAlpha hc
  omega

theorem isDigit_of_isAlpha {c : Char} (hc : c.isAlpha = true) : c.isDigit = false := by
  have hnum := le_toNat_of_isAlpha hc
  by_contra hdigit
  rw [Bool.not_eq_false] at hdigit
  simp only [Char.isDigit, Bool.and_eq_true, decide_eq_true_eq, UInt32.le_iff_toNat_le] at hdigit
  exact absurd (hnum.trans hdigit.2) (by decide)

theorem isSpace_of_isAlpha {c : Char} (hc : c.isAlpha = true) : isSpace c = false := by
  have hnum := le_toNat_of_isAlpha hc
  have hne : c ≠ ' ' := by
    rintro rfl
    cases hc
  simp only [isSpace, Bool.or_eq_false_iff, beq_eq_false_iff_ne, ne_eq, hne, not_false_eq_true,
    true_and, Bool.and_eq_false_iff, decide_eq_false_iff_not]
  omega

theorem scanInt_fields (v : ℤ) (vs : List ℤ) :
    scanInt (fields (v :: vs) ++ ['\n']) = some (v, fields vs ++ ['\n']) := by
  rw [fields_cons, List.cons_append, List.cons_append, scanInt_space, List.append_assoc]
  exact scanInt_intText v (spaceHead_fields vs).noDigitHead

theorem scanWord_fields (v : ℤ) (vs : List ℤ) :
    scanWord (fields (v :: vs) ++ ['\n']) = some (intText v, fields vs ++ ['\n']) := by
  rw [fields_cons, List.cons_append, List.cons_append, scanWord_space, List.append_assoc]
  exact scanWord_append (intText_ne_nil v) (fun c => isSpace_of_mem_intText) (spaceHead_fields vs)

theorem skipWords_fields (vs ws : List ℤ) :
    skipWords vs.length (fields (vs ++ ws) ++ ['\n']) = fields ws ++ ['\n'] := by
  induction vs with
  | nil => rfl
  | cons v vs ih =>
    rw [List.length_cons, List.cons_append, skipWords, scanWord_fields]
    exact ih

theorem skipInts_fields (vs ws : List ℤ) :
    skipInts vs.length (fields (vs ++ ws) ++ ['\n']) = some (fields ws ++ ['\n']) := by
  induction vs with
  | nil => rfl
  | cons v vs ih =>
    rw [List.length_cons, List.cons_append, skipInts, scanInt_fields, Option.bind_some, ih]

theorem length_intText {v : ℤ} (hv : v.natAbs < 2 ^ 64) : (intText v).length ≤ 21 := by
  have hdigits : (decimal v.natAbs).length ≤ 20 :=
    (Nat.length_toDigits_le_iff (by decide) (by decide)).2 (hv.trans (by decide))
  unfold intText
  split
  · exact Nat.succ_le_succ hdigits
  · exact Nat.le_succ_of_le hdigits

theorem length_fields {vs : List ℤ} (h : ∀ v ∈ vs, v.natAbs < 2 ^ 64) :
    (fields vs).length ≤ 22 * vs.length := by
  induction vs with
  | nil => rfl
  | cons v vs ih =>
    have hrest := ih fun w hw => h w (List.mem_cons_of_mem v hw)
    have hv := length_intText (h v List.mem_cons_self)
    rw [fields_cons, List.length_append, List.length_cons, List.length_cons]
    omega

theorem mem_fields {vs : List ℤ} {c : Char} (hc : c ∈ fields vs) :
    c = ' ' ∨ c = '-' ∨ c.isDigit = true := by
  obtain ⟨v, -, hc⟩ := List.mem_flatMap.1 hc
  exact (List.mem_cons.1 hc).imp_right mem_intText

theorem toULongLong_natCast {n : ℕ} (hn : n < 2 ^ 64) : toULongLong n = n := by
  have hle : ¬ ullongMax < (n : ℤ).natAbs := by
    simp only [ullongMax, Int.natAbs_natCast]
    omega
  rw [toULongLong, if_neg hle]
  omega

/-! ## Behind the last parenthesis -/

theorem words_nil : words [] = [] := rfl

theorem words_append {c : Char} (hc : c = ' ' ∨ c = '\n') (a b : Text) :
    words (a ++ c :: b) = words a ++ words b := by
  unfold words
  rw [List.splitOnP_append_cons a b (by rcases hc with rfl | rfl <;> rfl), List.filter_append]

theorem words_eq_singleton {w : Text} (hne : w ≠ []) (hw : ∀ c ∈ w, isSpace c = false) :
    words w = [w] := by
  rw [words, List.splitOnP_eq_singleton]
  · simp [hne]
  · intro c hc
    by_contra h
    rw [Bool.not_eq_false] at h
    have hspace : isSpace c = true := by
      simp only [Bool.or_eq_true, beq_iff_eq] at h
      rcases h with ((rfl | rfl) | rfl) | rfl <;> rfl
    rw [hw c hc] at hspace
    cases hspace

/-- The tokens of a word, of fields and of what is left of the line. -/
theorem words_fields {w : Text} (hne : w ≠ []) (hw : ∀ c ∈ w, isSpace c = false) (vs : List ℤ)
    {t : Text} (ht : ∀ c ∈ t.head?, c = ' ' ∨ c = '\n') :
    words (w ++ fields vs ++ t) = w :: vs.map intText ++ words t := by
  induction vs generalizing w with
  | nil =>
    cases t with
    | nil => simpa [fields, words_nil] using words_eq_singleton hne hw
    | cons c t =>
      have hc := ht c rfl
      have hblank : words (c :: t) = words t := words_append hc [] t
      rw [hblank]
      simpa [fields, words_eq_singleton hne hw] using words_append hc w t
  | cons v vs ih =>
    have hrest := ih (intText_ne_nil v) (fun c => isSpace_of_mem_intText)
    have hsplit : w ++ fields (v :: vs) ++ t = w ++ ' ' :: (intText v ++ fields vs ++ t) := by
      simp [fields_cons]
    rw [hsplit, words_append (Or.inl rfl), words_eq_singleton hne hw, hrest]
    rfl

theorem strtoull_intText {n : ℕ} (hn : n < 2 ^ 64) : strtoull (intText n) = some n := by
  have hread : scanInt (intText n) = some ((n : ℤ), []) := by
    simpa using scanInt_intText (n : ℤ) (t := []) (fun c hc => nomatch hc)
  have hle : ¬ ullongMax < (n : ℤ).natAbs := by
    simp only [ullongMax, Int.natAbs_natCast]
    omega
  rw [strtoull, hread]
  simp only [if_neg hle, toULongLong_natCast hn]

/-! ## The line -/

variable (s : Stat)

theorem Stat.beforeStart_length : s.beforeStart.length = 18 := by
  simp [beforeStart, s.before_length, s.between_length]

theorem Stat.beforeStart_lt : ∀ v ∈ s.beforeStart, v.natAbs < 2 ^ 64 := by
  intro v hv
  simp only [beforeStart, List.mem_append, List.mem_cons, List.not_mem_nil, or_false] at hv
  rcases hv with (hv | rfl | rfl) | hv
  · exact s.before_lt v hv
  · exact s.utime_lt
  · exact s.stime_lt
  · exact s.between_lt v hv

/-- What is behind the last parenthesis, up to the start time. -/
def Stat.upToStart : Text := s.state :: fields (s.beforeStart ++ [(s.starttime : ℤ)])

theorem Stat.line_eq : s.line = decimal s.pid ++ ' ' :: '(' :: s.comm ++ ')' :: ' ' ::
    (s.upToStart ++ (fields s.after ++ ['\n'])) := by
  simp [line, upToStart, fields_append, fields_cons, fields_nil]

theorem Stat.length_upToStart : s.upToStart.length ≤ 419 := by
  have hlen := @length_fields (s.beforeStart ++ [(s.starttime : ℤ)]) (by
    intro v hv
    rcases List.mem_append.1 hv with hv | hv
    · exact s.beforeStart_lt v hv
    · rw [List.mem_singleton.1 hv]
      exact s.starttime_lt)
  rw [List.length_append, s.beforeStart_length] at hlen
  exact Nat.succ_le_succ hlen

theorem Stat.length_head : (decimal s.pid ++ ' ' :: '(' :: s.comm).length ≤ 52 := by
  have hpid : (decimal s.pid).length ≤ 20 :=
    (Nat.length_toDigits_le_iff (by decide) (by decide)).2 (s.pid_lt.trans (by decide))
  have hcomm := s.comm_length
  simp only [List.length_append, List.length_cons]
  omega

theorem Stat.isSpace_of_mem_state {c : Char} (hc : c ∈ [s.state]) : isSpace c = false := by
  rw [List.mem_singleton.1 hc]
  exact isSpace_of_isAlpha s.state_isAlpha

/-- What is behind the name is letters, digits and blanks. -/
theorem Stat.not_mem_rest {d : Char} (hd : d = ')' ∨ d = '\x00') :
    d ∉ s.upToStart ++ (fields s.after ++ ['\n']) := by
  have hfields (vs : List ℤ) : d ∉ fields vs := fun h => by
    rcases hd with rfl | rfl <;> rcases mem_fields h with h | h | h <;> cases h
  have hstate : d ≠ s.state := by
    have halpha := s.state_isAlpha
    rintro rfl
    rcases hd with hd | hd <;> rw [hd] at halpha <;> cases halpha
  have hnewline : d ≠ '\n' := by rcases hd with rfl | rfl <;> decide
  simp only [upToStart, List.cons_append, List.mem_cons, List.mem_append, List.not_mem_nil,
    or_false, not_or]
  exact ⟨hstate, hfields _, hfields _, hnewline⟩

theorem Stat.nul_not_mem_line : '\x00' ∉ s.line := by
  have hrest := s.not_mem_rest (Or.inr rfl)
  have hpid : '\x00' ∉ decimal s.pid := not_mem_decimal _ rfl
  rw [s.line_eq, List.mem_append, List.mem_append, List.mem_cons, List.mem_cons, List.mem_cons,
    List.mem_cons]
  simp [hrest, hpid, s.comm_nul]

/-- The buffer ends behind the start time. -/
theorem Stat.take_line : ∃ k, s.line.take 4095 = decimal s.pid ++ ' ' :: '(' :: s.comm ++
    ')' :: ' ' :: (s.upToStart ++ (fields s.after ++ ['\n']).take k) := by
  have hlen :
      (decimal s.pid ++ ' ' :: '(' :: s.comm ++ ')' :: ' ' :: s.upToStart).length ≤ 4095 := by
    have hhead := s.length_head
    have hstart := s.length_upToStart
    rw [List.length_append, List.length_cons, List.length_cons]
    omega
  have hline : s.line = (decimal s.pid ++ ' ' :: '(' :: s.comm ++ ')' :: ' ' :: s.upToStart) ++
      (fields s.after ++ ['\n']) := by
    rw [s.line_eq]
    simp
  rw [hline, List.take_append, List.take_of_length_le hlen]
  exact ⟨_, by rw [List.append_assoc, List.cons_append, List.cons_append]⟩

theorem behindParen_append (a : Text) {b : Text} (hb : ')' ∉ b) :
    behindParen (a ++ ')' :: b) = some b := by
  have hall : ∀ c ∈ b.reverse, decide (c ≠ ')') = true := by
    intro c hc
    rw [decide_eq_true_eq]
    rintro rfl
    exact hb (List.mem_reverse.1 hc)
  rw [behindParen, if_pos (by simp), List.rtakeWhile, List.reverse_append, List.reverse_cons,
    List.append_assoc, List.takeWhile_append_of_pos hall]
  simp

/-- **The daemon reads the start time of every line.** -/
theorem socketdReadProcStartTicks_line : socketdReadProcStartTicks s.line = some s.starttime := by
  obtain ⟨k, hbuf⟩ := s.take_line
  have hnul : '\x00' ∉ s.line.take 4095 := fun h => s.nul_not_mem_line (List.mem_of_mem_take h)
  have hparen : ')' ∉ ' ' :: (s.upToStart ++ (fields s.after ++ ['\n']).take k) := by
    intro h
    apply s.not_mem_rest (Or.inl rfl)
    rcases List.mem_append.1 ((List.mem_cons.1 h).resolve_left (by decide)) with h | h
    · exact List.mem_append_left _ h
    · exact List.mem_append_right _ (List.mem_of_mem_take h)
  have htail : ∀ c ∈ ((fields s.after ++ ['\n']).take k).head?, c = ' ' ∨ c = '\n' := by
    cases k with
    | zero => nofun
    | succ k =>
      cases s.after with
      | nil => simp [fields_nil]
      | cons v vs => simp [fields_cons]
  rw [socketdReadProcStartTicks, cString_eq_self hnul, hbuf, behindParen_append _ hparen]
  have hwords := words_fields (List.cons_ne_nil s.state []) (fun c => s.isSpace_of_mem_state)
    (s.beforeStart ++ [(s.starttime : ℤ)]) htail
  show (words ([s.state] ++ fields (s.beforeStart ++ [(s.starttime : ℤ)]) ++
    (fields s.after ++ ['\n']).take k))[19]?.bind strtoull = some s.starttime
  have hfield : ([s.state] :: s.beforeStart.map intText).length = 19 := by
    rw [List.length_cons, List.length_map, s.beforeStart_length]
  rw [hwords, List.map_append, ← List.cons_append, List.append_assoc,
    List.getElem?_append_right hfield.le, hfield]
  exact strtoull_intText s.starttime_lt

/-! ## When the name is one word -/

/-- What is behind the state. -/
def Stat.numbers : Text := fields (s.beforeStart ++ (s.starttime : ℤ) :: s.after) ++ ['\n']

theorem Stat.line_words : s.line =
    decimal s.pid ++ (' ' :: ('(' :: s.comm ++ [')'] ++ (' ' :: ([s.state] ++ s.numbers)))) := by
  simp [line, numbers]

theorem Stat.isSpace_of_mem_pid {c : Char} (hc : c ∈ decimal s.pid) : isSpace c = false :=
  isSpace_of_isDigit (isDigit_of_mem_decimal hc)

/-- A state is no number. -/
theorem Stat.scanInt_state : scanInt (' ' :: ([s.state] ++ s.numbers)) = none := by
  have halpha := s.state_isAlpha
  have hdigit := isDigit_of_isAlpha halpha
  rw [scanInt_space, scanInt, List.singleton_append, List.dropWhile_cons_of_neg]
  · have hnone : scanDigits (s.state :: s.numbers) = none := by
      rw [scanDigits, (noDigitHead_cons hdigit s.numbers).takeWhile]
      rfl
    split
    · next heq =>
      rw [(List.cons.inj heq).1] at halpha
      cases halpha
    · next heq =>
      rw [(List.cons.inj heq).1] at halpha
      cases halpha
    · rw [hnone, Option.map_none]
  · rw [isSpace_of_isAlpha halpha]
    exact Bool.false_ne_true

variable {s}

theorem scanWord_comm (h : ∀ c ∈ s.comm, isSpace c = false) (t : Text) :
    scanWord (' ' :: ('(' :: s.comm ++ [')'] ++ (' ' :: t))) =
      some ('(' :: s.comm ++ [')'], ' ' :: t) := by
  rw [scanWord_space]
  apply scanWord_append (by simp) _ (spaceHead_cons rfl t)
  intro c hc
  simp only [List.cons_append, List.mem_cons, List.mem_append, List.not_mem_nil, or_false] at hc
  rcases hc with rfl | hc | rfl
  · rfl
  · exact h c hc
  · rfl

theorem skipWords_line (h : ∀ c ∈ s.comm, isSpace c = false) (n : ℕ) :
    skipWords (n + 3) s.line = skipWords n s.numbers := by
  have hpid := scanWord_append (Nat.toDigits_ne_nil (n := s.pid) (b := 10))
    (fun c => s.isSpace_of_mem_pid)
    (spaceHead_cons (c := ' ') rfl
      ('(' :: s.comm ++ [')'] ++ (' ' :: ([s.state] ++ s.numbers))))
  have hstate : scanWord (' ' :: ([s.state] ++ s.numbers)) = some ([s.state], s.numbers) :=
    scanWord_append (List.cons_ne_nil _ _) (fun c => s.isSpace_of_mem_state) (spaceHead_fields _)
  rw [s.line_words, skipWords, decimal, hpid]
  show skipWords (n + 2) _ = _
  rw [skipWords, scanWord_comm h]
  show skipWords (n + 1) _ = _
  rw [skipWords, hstate]

theorem dsGetContainerUptime_line (h : ∀ c ∈ s.comm, isSpace c = false) :
    dsGetContainerUptime s.line = if s.starttime = 0 then none else some s.starttime := by
  have hskip : skipWords 21 s.line = fields ((s.starttime : ℤ) :: s.after) ++ ['\n'] := by
    rw [skipWords_line h 18, ← s.beforeStart_length]
    exact skipWords_fields _ _
  rw [dsGetContainerUptime, hskip, scanInt_fields]
  simp only [toULongLong_natCast s.starttime_lt]

theorem containerStartTimeSecs_line (h : ∀ c ∈ s.comm, isSpace c = false) :
    containerStartTimeSecs s.line = if s.starttime = 0 then none else some s.starttime := by
  have hpid : scanInt s.line = some ((s.pid : ℤ),
      ' ' :: ('(' :: s.comm ++ [')'] ++ (' ' :: ([s.state] ++ s.numbers)))) := by
    rw [s.line_words]
    exact scanInt_intText s.pid (noDigitHead_cons rfl _)
  have hstate : scanChar (' ' :: ([s.state] ++ s.numbers)) = some (s.state, s.numbers) := by
    show scanChar ([s.state] ++ s.numbers) = _
    rw [scanChar, List.singleton_append, List.dropWhile_cons_of_neg]
    rw [isSpace_of_isAlpha s.state_isAlpha]
    exact Bool.false_ne_true
  have hskip : skipInts 18 s.numbers = some (fields ((s.starttime : ℤ) :: s.after) ++ ['\n']) := by
    rw [← s.beforeStart_length]
    exact skipInts_fields _ _
  rw [containerStartTimeSecs]
  simp only [hpid, scanWord_comm h, hstate, hskip, scanInt_fields, Option.bind_eq_bind,
    Option.bind_some, toULongLong_natCast s.starttime_lt]

theorem procCpuTicks_line (h : ∀ c ∈ s.comm, isSpace c = false) :
    procCpuTicks s.line = (toLongLong s.utime + toLongLong s.stime).bmod (2 ^ 64) := by
  have hskip : skipWords 13 s.line =
      fields ((s.utime : ℤ) :: (s.stime : ℤ) :: (s.between ++ (s.starttime : ℤ) :: s.after)) ++
        ['\n'] := by
    rw [skipWords_line h 10, ← s.before_length, Stat.numbers, Stat.beforeStart, List.append_assoc,
      List.append_assoc]
    exact skipWords_fields _ _
  rw [procCpuTicks, hskip]
  simp only [scanInt_fields, Option.bind_eq_bind, Option.bind_some, Option.pure_def]

/-! ## When the name is several words

The numbers would have to be read from the name, which is too short for as many. -/

theorem scanDigits_paren {x R : Text} {r : ℕ × Text} (h : scanDigits (x ++ ')' :: R) = some r) :
    ∃ x', r.2 = x' ++ ')' :: R ∧ NoDigitHead x' ∧ x'.length < x.length ∧ ¬ NoDigitHead x := by
  have hparen : NoDigitHead (')' :: R) := noDigitHead_cons rfl R
  have htake : (x ++ ')' :: R).takeWhile Char.isDigit = x.takeWhile Char.isDigit := by
    rw [List.takeWhile_append]
    split
    · next hlen =>
      rw [hparen.takeWhile, List.append_nil, (List.takeWhile_prefix _).eq_of_length hlen]
    · rfl
  have hdrop : (x ++ ')' :: R).dropWhile Char.isDigit = x.dropWhile Char.isDigit ++ ')' :: R := by
    rw [List.dropWhile_append]
    split
    · next hempty => rw [hparen.dropWhile, List.isEmpty_iff.1 hempty, List.nil_append]
    · rfl
  rw [scanDigits, htake, hdrop] at h
  split at h
  · cases h
  · next hne =>
    cases h
    refine ⟨_, rfl, noDigitHead_dropWhile x, ?_, fun hx => hne (by rw [hx.takeWhile]; rfl)⟩
    have hpos : 0 < (x.takeWhile Char.isDigit).length :=
      List.length_pos_iff.2 fun hnil => hne (by rw [hnil]; rfl)
    have hsplit := congrArg List.length
      (List.takeWhile_append_dropWhile (p := Char.isDigit) (l := x))
    rw [List.length_append] at hsplit
    omega

theorem dropWhile_paren (x R : Text) :
    (x ++ ')' :: R).dropWhile isSpace = x.dropWhile isSpace ++ ')' :: R := by
  rw [List.dropWhile_append]
  split
  · next hempty =>
    rw [List.isEmpty_iff.1 hempty]
    rfl
  · rfl

theorem scanInt_paren {x R : Text} {r : ℤ × Text} (h : scanInt (x ++ ')' :: R) = some r) :
    ∃ x', r.2 = x' ++ ')' :: R ∧ NoDigitHead x' ∧ x'.length < x.length ∧
      (NoDigitHead x → x'.length + 2 ≤ x.length) := by
  have hle : (x.dropWhile isSpace).length ≤ x.length := (List.dropWhile_suffix isSpace).length_le
  rw [scanInt, dropWhile_paren] at h
  cases hy : x.dropWhile isSpace with
  | nil =>
    rw [hy] at h
    cases h
  | cons c y =>
    rw [hy] at h hle
    rw [List.length_cons] at hle
    by_cases hsign : c = '-' ∨ c = '+'
    · have hdigits : ∃ r', scanDigits (y ++ ')' :: R) = some r' ∧ r'.2 = r.2 := by
        rcases hsign with rfl | rfl
        all_goals
          obtain ⟨r', hr', rfl⟩ := Option.map_eq_some_iff.1 h
          exact ⟨r', hr', rfl⟩
      obtain ⟨r', hr', hr⟩ := hdigits
      obtain ⟨x', hx', hhead, hlt, -⟩ := scanDigits_paren hr'
      exact ⟨x', hr ▸ hx', hhead, by omega, fun _ => by omega⟩
    · rw [not_or] at hsign
      have hdigits : ∃ r', scanDigits (c :: y ++ ')' :: R) = some r' ∧ r'.2 = r.2 := by
        split at h
        · next heq => exact absurd (List.cons.inj heq).1 hsign.1
        · next heq => exact absurd (List.cons.inj heq).1 hsign.2
        · obtain ⟨r', hr', rfl⟩ := Option.map_eq_some_iff.1 h
          exact ⟨r', hr', rfl⟩
      obtain ⟨r', hr', hr⟩ := hdigits
      obtain ⟨x', hx', hhead, hlt, hdigit⟩ := scanDigits_paren hr'
      rw [List.length_cons] at hlt
      refine ⟨x', hr ▸ hx', hhead, by omega, fun hx => ?_⟩
      -- what a number starts with is behind a blank
      have hne : (c :: y).length ≠ x.length := fun hlen => by
        have heq : c :: y = x := hy ▸ (List.dropWhile_suffix isSpace).eq_of_length (hy ▸ hlen)
        exact hdigit (heq ▸ hx)
      rw [List.length_cons] at hne
      omega

theorem skipInts_paren {n : ℕ} {x R r : Text} (hx : NoDigitHead x)
    (h : skipInts n (x ++ ')' :: R) = some r) :
    ∃ x', r = x' ++ ')' :: R ∧ NoDigitHead x' ∧ x'.length + 2 * n ≤ x.length := by
  induction n generalizing x with
  | zero =>
    cases h
    exact ⟨x, rfl, hx, le_rfl⟩
  | succ n ih =>
    obtain ⟨⟨v, t⟩, hscan, hrest⟩ := Option.bind_eq_some_iff.1 h
    obtain ⟨x', rfl, hx', -, hlen⟩ := scanInt_paren hscan
    obtain ⟨x'', hr, hx'', hlen'⟩ := ih hx' hrest
    exact ⟨x'', hr, hx'', by have := hlen hx; omega⟩

theorem exists_blank {t : Text} {c : Char} (hc : c ∈ t) (hspace : isSpace c = true) :
    ∃ w d v, t = w ++ d :: v ∧ (∀ c ∈ w, isSpace c = false) ∧ isSpace d = true := by
  have hne : t.dropWhile (!isSpace ·) ≠ [] := by
    intro hnil
    have hall := List.dropWhile_eq_nil_iff.1 hnil c hc
    rw [hspace] at hall
    cases hall
  obtain ⟨d, v, hdv⟩ := List.exists_cons_of_ne_nil hne
  have hhead := List.head_dropWhile_not (!isSpace ·) hne
  simp only [hdv, List.head_cons, Bool.not_eq_false'] at hhead
  refine ⟨t.takeWhile (!isSpace ·), d, v, ?_, fun c hc => ?_, hhead⟩
  · rw [← hdv, List.takeWhile_append_dropWhile]
  · simpa using List.mem_takeWhile_imp hc

theorem skipInts_bind_eq_none {x R : Text} (hx : x.length ≤ 28) :
    (skipInts 18 (x ++ ')' :: R)).bind scanInt = none := by
  rw [Option.eq_none_iff_forall_ne_some]
  intro r h
  obtain ⟨t, hskip, -⟩ := Option.bind_eq_some_iff.1 h
  obtain ⟨r₁, hfirst, hskip⟩ := Option.bind_eq_some_iff.1 hskip
  obtain ⟨x₁, hx₁, hhead, hlen, -⟩ := scanInt_paren hfirst
  rw [hx₁] at hskip
  obtain ⟨x₂, rfl, hhead, hlen₂⟩ := skipInts_paren (n := 17) hhead hskip
  omega

theorem containerStartTimeSecs_eq_none {c : Char} (hc : c ∈ s.comm) (hspace : isSpace c = true) :
    containerStartTimeSecs s.line = none := by
  have hpid : scanInt s.line = some ((s.pid : ℤ),
      ' ' :: ('(' :: s.comm ++ ')' :: (' ' :: ([s.state] ++ s.numbers)))) := by
    rw [s.line_words, List.append_assoc]
    exact scanInt_intText s.pid (noDigitHead_cons rfl _)
  obtain ⟨w, d, v, hcomm, hw, hd⟩ := exists_blank hc hspace
  have hlen : w.length + (v.length + 1) ≤ 30 := by
    have hcomm_length := s.comm_length
    rwa [hcomm, List.length_append, List.length_cons] at hcomm_length
  have hword : scanWord (' ' :: ('(' :: s.comm ++ ')' :: (' ' :: ([s.state] ++ s.numbers)))) =
      some ('(' :: w, d :: v ++ ')' :: (' ' :: ([s.state] ++ s.numbers))) := by
    rw [hcomm, scanWord_space, ← List.cons_append, List.append_assoc]
    apply scanWord_append (List.cons_ne_nil _ _) _ (spaceHead_cons hd _)
    intro c hc
    rcases List.mem_cons.1 hc with rfl | hc
    · rfl
    · exact hw c hc
  rw [containerStartTimeSecs]
  simp only [hpid, hword, Option.bind_eq_bind, Option.bind_some]
  have hdrop : (d :: v ++ ')' :: (' ' :: ([s.state] ++ s.numbers))).dropWhile isSpace =
      v.dropWhile isSpace ++ ')' :: (' ' :: ([s.state] ++ s.numbers)) := by
    rw [dropWhile_paren, List.dropWhile_cons_of_pos hd]
  rw [scanChar, hdrop]
  cases hv : v.dropWhile isSpace with
  | nil =>
    have hfirst : scanInt (' ' :: ([s.state] ++ s.numbers)) = none := s.scanInt_state
    simp only [List.nil_append, Option.bind_some, skipInts, hfirst, Option.bind_none]
  | cons b x =>
    have hx : x.length ≤ 28 := by
      have hle := (List.dropWhile_suffix isSpace (l := v)).length_le
      rw [hv, List.length_cons] at hle
      omega
    simp only [List.cons_append, Option.bind_some, skipInts_bind_eq_none hx]

/-! ## The readers together -/

theorem bmod_toLongLong {a b : ℕ} (ha : a < 2 ^ 64) (hb : b < 2 ^ 64) :
    (toLongLong a + toLongLong b).bmod (2 ^ 64) = (a + b : ℤ) ↔ a + b < 2 ^ 63 := by
  unfold toLongLong
  constructor
  · intro h
    have hlt := Int.bmod_lt (x := max (-2 ^ 63) (min (a : ℤ) (2 ^ 63 - 1)) +
      max (-2 ^ 63) (min (b : ℤ) (2 ^ 63 - 1))) (m := 2 ^ 64) (by decide)
    rw [h] at hlt
    omega
  · intro h
    have ha' : max (-2 ^ 63) (min (a : ℤ) (2 ^ 63 - 1)) = a := by omega
    have hb' : max (-2 ^ 63) (min (b : ℤ) (2 ^ 63 - 1)) = b := by omega
    rw [ha', hb']
    apply Int.bmod_eq_of_le <;> omega

variable (s) in
/-- **The readers agree exactly if the name of the command is one word,** the start time is not the
0 that stands for none, and the ticks fit a `long long`. -/
theorem agree_iff :
    Agree s ↔ (∀ c ∈ s.comm, isSpace c = false) ∧ s.starttime ≠ 0 ∧
      s.utime + s.stime < 2 ^ 63 := by
  constructor
  · intro h
    have hcomm : ∀ c ∈ s.comm, isSpace c = false := by
      intro c hc
      by_contra hspace
      rw [Bool.not_eq_false] at hspace
      have hstart := h.start
      rw [containerStartTimeSecs_eq_none hc hspace] at hstart
      cases hstart
    refine ⟨hcomm, fun hzero => ?_, ?_⟩
    · have hstart := h.start
      rw [containerStartTimeSecs_line hcomm, if_pos hzero] at hstart
      cases hstart
    · have hcpu := h.cpu
      rw [procCpuTicks_line hcomm] at hcpu
      exact (bmod_toLongLong s.utime_lt s.stime_lt).1 hcpu
  · rintro ⟨hcomm, hzero, hticks⟩
    refine ⟨socketdReadProcStartTicks_line s, ?_, ?_, ?_⟩
    · rw [dsGetContainerUptime_line hcomm, if_neg hzero]
    · rw [containerStartTimeSecs_line hcomm, if_neg hzero]
    · rw [procCpuTicks_line hcomm]
      exact (bmod_toLongLong s.utime_lt s.stime_lt).2 hticks

/-- A process of the name `a b`. -/
def twoWords : Stat where
  pid := 7
  comm := ['a', ' ', 'b']
  state := 'S'
  before := List.replicate 10 1
  utime := 2
  stime := 3
  between := List.replicate 6 0
  starttime := 100
  after := []
  comm_length := by decide
  comm_nul := by decide
  state_isAlpha := by decide
  before_length := rfl
  between_length := rfl
  pid_lt := by decide
  before_lt := by decide
  utime_lt := by decide
  stime_lt := by decide
  between_lt := by decide
  starttime_lt := by decide

theorem not_agree_twoWords : ¬ ∀ s, Agree s := by
  intro h
  have hstart := (h twoWords).start
  rw [@containerStartTimeSecs_eq_none twoWords ' ' (by decide) rfl] at hstart
  cases hstart

end Droidspaces.ProcStat
