import Droidspaces.Config.Pieces
import Droidspaces.Status.ProcStat

/-!
# The virtual `cpuinfo` and `stat`

A container with a CPU limit sees the host's `/proc/cpuinfo` up to the first processor whose number
is too high, and the host's `/proc/stat` without the lines of such processors.  The line in front
of these is added up anew.  What a reader finds in the two files is said here for any host and any
number of CPUs: `processorIds_genCpuinfo`, `cpuRows_genStat` and `totals_genStat`.
-/

namespace Droidspaces.CpuViews

open Config Scanf
open ProcStat (words fields strtoull length_intText)

/-! ## The code -/

def cpuName : Text := ['c', 'p', 'u']

def processorName : Text := ['p', 'r', 'o', 'c', 'e', 's', 's', 'o', 'r']

/-- `sscanf(line, "processor : %d", &id)` -/
def scanProcessor (line : Text) : Option ℤ :=
  if processorName.isPrefixOf line then
    match (line.drop 9).dropWhile isSpace with
    | ':' :: t => (scanInt t).map fun r => wrap (toLongLong r.1)
    | _ => none
  else none

/-- The loop of `gen_cpuinfo`. -/
def cpuinfoLoop (maxCpus : ℤ) : ℤ → List Text → Text
  | _, [] => []
  | curCpu, line :: rest =>
    let curCpu := (scanProcessor line).getD curCpu
    if maxCpus ≤ curCpu then [] else line ++ cpuinfoLoop maxCpus curCpu rest

def genCpuinfo (maxCpus : ℤ) (file : Text) : Text :=
  cpuinfoLoop maxCpus (-1) ((fgets 4094 file 4094).map cString)

/-- `sscanf(line, "cpu%d", &id)` -/
def scanCpu (line : Text) : Option ℤ :=
  if cpuName.isPrefixOf line then (scanInt (line.drop 3)).map fun r => wrap (toLongLong r.1)
  else none

/-- `u`, `n`, `s`, `i`, `io`, `ir`, `sf`, `st`, `gu` and `gn`. -/
abbrev Columns := Fin 10 → UInt64

/-- `%llu`, over and over until there is none. -/
def scanNumbers : ℕ → Text → List ℕ
  | 0, _ => []
  | k + 1, t =>
    match scanInt t with
    | none => []
    | some (v, rest) => toULongLong v :: scanNumbers k rest

/-- `sscanf(line, "cpu%*d %llu …", …)`; what is not read stays 0. -/
def scanColumns (line : Text) : Columns :=
  match scanInt (line.drop 3) with
  | none => fun _ => 0
  | some (_, rest) => fun j => UInt64.ofNat ((scanNumbers 10 rest).getD j 0)

/-- The first pass of `gen_stat`, a line. -/
def addLine (maxCpus : ℤ) (sums : Columns) (line : Text) : Columns :=
  match scanCpu line with
  | none => sums
  | some id => if id < maxCpus then fun j => sums j + scanColumns line j else sums

def numbers (c : Columns) : List ℕ := List.ofFn fun j => (c j).toNat

def ints (c : Columns) : List ℤ := (numbers c).map fun n : ℕ => (n : ℤ)

/-- `snprintf(…, "cpu  %llu …\n", …)` -/
def totalLine (c : Columns) : Text := cpuName ++ ' ' :: fields (ints c) ++ ['\n']

/-- The second pass. -/
def statLoop (maxCpus : ℤ) (total : Text) : Bool → List Text → Text
  | _, [] => []
  | aggDone, line :: rest =>
    if (cpuName ++ [' ']).isPrefixOf line then
      (if aggDone then [] else total) ++ statLoop maxCpus total true rest
    else
      match scanCpu line with
      | none => line ++ statLoop maxCpus total aggDone rest
      | some id =>
        if maxCpus ≤ id then statLoop maxCpus total aggDone rest
        else line ++ statLoop maxCpus total aggDone rest

/-- The file is read twice: `first` is what it was before the `rewind`. -/
def genStat (maxCpus : ℤ) (first second : Text) : Text :=
  let sums := ((fgets 2046 first 2046).map cString).foldl (addLine maxCpus) fun _ => 0
  statLoop maxCpus (totalLine sums) false ((fgets 2046 second 2046).map cString)

/-! ## The format -/

/-- Neither a line of the text nor what is read of one at a time starts with the name. -/
structure IsQuiet (name : Text) (room : ℕ) (text : Text) : Prop where
  nul : '\x00' ∉ text
  lines : ∀ line ∈ text.splitOn '\n', ¬name <+: line
  pieces : ∀ piece ∈ fgets room text room, ¬name <+: piece

def processorLine (id : ℕ) : Text := processorName ++ '\t' :: ':' :: ' ' :: decimal id

/-- What `/proc/cpuinfo` says about each processor, and after the last. -/
structure CpuInfo where
  details : ℕ → Text
  tail : Text
  details_quiet : ∀ id, IsQuiet processorName 4094 (details id ++ ['\n'])
  tail_quiet : IsQuiet processorName 4094 tail

def CpuInfo.block (info : CpuInfo) (id : ℕ) : Text :=
  processorLine id ++ '\n' :: (info.details id ++ ['\n'])

def CpuInfo.text (info : CpuInfo) (online : List ℕ) : Text :=
  online.flatMap info.block ++ info.tail

def cpuLine (id : ℕ) (c : Columns) : Text := cpuName ++ decimal id ++ fields (ints c) ++ ['\n']

/-- `/proc/stat` at one time. -/
structure Snapshot where
  total : Columns
  ticks : ℕ → Columns
  rest : Text
  rest_quiet : IsQuiet cpuName 2046 rest

def Snapshot.text (s : Snapshot) (online : List ℕ) : Text :=
  totalLine s.total ++ (online.flatMap fun id => cpuLine id (s.ticks id)) ++ s.rest

/-! ## What a reader finds -/

def readLines {α : Type} (read : Text → Option α) (file : Text) : List α :=
  (file.splitOn '\n').filterMap read

def readProcessor (line : Text) : Option ℕ :=
  if (processorName ++ ['\t', ':', ' ']).isPrefixOf line then
    (scanDigits (line.drop 12)).map Prod.fst
  else none

def processorIds (file : Text) : List ℕ := readLines readProcessor file

/-- A line that starts with `cpu` and a number. -/
def readCpu (line : Text) : Option (ℕ × List ℕ) :=
  if cpuName.isPrefixOf line then
    match words line with
    | [] => none
    | name :: cols => (scanDigits (name.drop 3)).map fun r => (r.1, cols.filterMap strtoull)
  else none

def cpuRows (file : Text) : List (ℕ × List ℕ) := readLines readCpu file

def readTotal (line : Text) : Option (List ℕ) :=
  if (cpuName ++ [' ']).isPrefixOf line then
    some ((words (line.drop 4)).filterMap strtoull)
  else none

/-- The columns of the `cpu ` lines. -/
def totals (file : Text) : List (List ℕ) := readLines readTotal file

/-! ## Files line by line -/

theorem map_cString_fgets {n : ℕ} {text : Text} (h : '\x00' ∉ text) :
    (fgets n text n).map cString = fgets n text n :=
  map_cString_eq_self fun _ hpiece hmem => h (subset_of_mem_fgets hpiece hmem)

section Lines

variable {α : Type} {read : Text → Option α}

theorem readLines_append (s t : Text) :
    readLines read (s ++ '\n' :: t) = readLines read s ++ readLines read t := by
  rw [readLines, List.splitOn_append_cons_self, List.filterMap_append]
  rfl

theorem readLines_line {line : Text} (hline : '\n' ∉ line) :
    readLines read line = (read line).toList := by
  rw [readLines, List.splitOn_eq_singleton hline]
  cases h : read line <;> simp [h]

theorem readLines_flatMap {β : Type} {bs : List β} {body : β → Text} {item : β → α}
    (h : ∀ b, readLines read (body b) = [item b]) (t : Text) :
    readLines read ((bs.flatMap fun b => body b ++ ['\n']) ++ t) =
      bs.map item ++ readLines read t := by
  induction bs with
  | nil => rfl
  | cons b bs ih =>
    rw [List.flatMap_cons, List.append_assoc, List.append_assoc, List.singleton_append,
      readLines_append, h, ih]
    rfl

theorem readLines_eq_nil {text : Text} (h : ∀ line ∈ text.splitOn '\n', read line = none) :
    readLines read text = [] := List.filterMap_eq_nil_iff.2 h

end Lines

/-! ## The virtual `cpuinfo` -/

theorem wrap_toLongLong {id : ℕ} (h : id < 2 ^ 31) : wrap (toLongLong id) = id := by
  have hlong : toLongLong id = id := by
    unfold toLongLong
    omega
  rw [hlong, wrap]
  exact Int.bmod_eq_of_le (by omega) (by omega)

theorem scanProcessor_quiet {line : Text} (h : ¬processorName <+: line) :
    scanProcessor line = none := by
  rw [scanProcessor, if_neg (by rwa [List.isPrefixOf_iff_prefix])]

theorem scanProcessor_line {id : ℕ} (h : id < 2 ^ 31) :
    scanProcessor (processorLine id ++ ['\n']) = some (id : ℤ) := by
  have hpre : processorName.isPrefixOf (processorLine id ++ ['\n']) = true := by
    rw [List.isPrefixOf_iff_prefix, processorLine, List.append_assoc]
    exact List.prefix_append _ _
  have hdrop : ((processorLine id ++ ['\n']).drop 9).dropWhile isSpace =
      ':' :: ' ' :: (decimal id ++ ['\n']) := rfl
  have hscan := scanInt_intText (id : ℤ) (t := ['\n']) (noDigitHead_cons rfl _)
  rw [intText_natCast] at hscan
  rw [scanProcessor, if_pos hpre, hdrop]
  simp only [scanInt_space, hscan, Option.map_some, wrap_toLongLong h]

theorem cpuinfoLoop_quiet {maxCpus curCpu : ℤ} (h : curCpu < maxCpus) {lines : List Text}
    (hquiet : ∀ line ∈ lines, ¬processorName <+: line) (more : List Text) :
    cpuinfoLoop maxCpus curCpu (lines ++ more) =
      lines.flatten ++ cpuinfoLoop maxCpus curCpu more := by
  induction lines with
  | nil => rfl
  | cons line lines ih =>
    obtain ⟨hline, hlines⟩ := List.forall_mem_cons.1 hquiet
    rw [List.cons_append, cpuinfoLoop, scanProcessor_quiet hline]
    simp only [Option.getD_none, if_neg (not_le.2 h)]
    rw [ih hlines, List.flatten_cons, List.append_assoc]

theorem newline_not_mem_processorLine (id : ℕ) : '\n' ∉ processorLine id := by
  have hdigits : '\n' ∉ decimal id := not_mem_decimal id rfl
  simp [processorLine, processorName, hdigits]

section Cpuinfo

variable (info : CpuInfo) {maxCpus : ℤ}

theorem CpuInfo.nul_not_mem_text (online : List ℕ) : '\x00' ∉ info.text online := by
  have hblock : ∀ id, '\x00' ∉ info.block id := by
    intro id
    have hdigits : '\x00' ∉ decimal id := not_mem_decimal id rfl
    have hdetails := (info.details_quiet id).nul
    simp only [block, processorLine, processorName, List.mem_append, List.mem_cons, not_or]
    simp_all
  simp only [text, List.mem_append, List.mem_flatMap, not_or, not_exists, not_and]
  exact ⟨fun id _ => hblock id, info.tail_quiet.nul⟩

/-- A block is read line by line. -/
theorem CpuInfo.fgets_block {id : ℕ} (hid : id < 2 ^ 31) (t : Text) :
    fgets 4094 (info.block id ++ t) 4094 = (processorLine id ++ ['\n']) ::
      fgets 4094 (info.details id ++ ['\n']) 4094 ++ fgets 4094 t 4094 := by
  have hlen : (processorLine id).length ≤ 4094 := by
    have hdigits := length_intText (v := id) (by rw [Int.natAbs_natCast]; omega)
    rw [intText_natCast] at hdigits
    simp only [processorLine, processorName, List.length_append, List.length_cons,
      List.length_nil]
    omega
  have hsplit : info.block id ++ t =
      processorLine id ++ '\n' :: (info.details id ++ '\n' :: t) := by
    simp [block]
  rw [hsplit, fgets_append, fgets_line 4094 (newline_not_mem_processorLine id) hlen, fgets_append]
  simp

/-- The loop stops at the first processor whose number is too high. -/
theorem CpuInfo.cpuinfoLoop_text {online : List ℕ} (hids : ∀ id ∈ online, id < 2 ^ 31) {curCpu : ℤ}
    (hcur : curCpu < maxCpus) : ∃ tail, (tail = [] ∨ tail = info.tail) ∧
      cpuinfoLoop maxCpus curCpu (fgets 4094 (info.text online) 4094) =
        (online.takeWhile fun id : ℕ => decide ((id : ℤ) < maxCpus)).flatMap info.block ++
          tail := by
  induction online generalizing curCpu with
  | nil =>
    have hquiet := cpuinfoLoop_quiet hcur info.tail_quiet.pieces []
    rw [List.append_nil, flatten_fgets] at hquiet
    exact ⟨info.tail, Or.inr rfl, by simpa [text, cpuinfoLoop] using hquiet⟩
  | cons id online ih =>
    obtain ⟨hid, hids⟩ := List.forall_mem_cons.1 hids
    rw [text, List.flatMap_cons, List.append_assoc, ← text, info.fgets_block hid, List.cons_append,
      cpuinfoLoop, scanProcessor_line hid, List.takeWhile_cons]
    simp only [Option.getD_some, decide_eq_true_eq]
    by_cases hlt : (id : ℤ) < maxCpus
    · obtain ⟨tail, htail, hloop⟩ := ih hids hlt
      refine ⟨tail, htail, ?_⟩
      rw [if_neg (not_le.2 hlt), if_pos hlt, cpuinfoLoop_quiet hlt (info.details_quiet id).pieces,
        hloop, flatten_fgets]
      simp [block]
    · rw [if_pos (not_lt.1 hlt), if_neg hlt]
      exact ⟨[], Or.inl rfl, rfl⟩

theorem readProcessor_quiet {line : Text} (h : ¬processorName <+: line) :
    readProcessor line = none := by
  rw [readProcessor, if_neg]
  rw [List.isPrefixOf_iff_prefix]
  exact fun hpre => h ((List.prefix_append _ _).trans hpre)

theorem readProcessor_line (id : ℕ) : readProcessor (processorLine id) = some id := by
  have hpre : (processorName ++ ['\t', ':', ' ']).isPrefixOf (processorLine id) = true := by
    rw [List.isPrefixOf_iff_prefix]
    exact ⟨decimal id, rfl⟩
  have hdrop : (processorLine id).drop 12 = decimal id := rfl
  have hscan := scanDigits_decimal id (t := []) fun c hc => nomatch hc
  rw [List.append_nil] at hscan
  rw [readProcessor, if_pos hpre, hdrop, hscan]
  rfl

/-- **The virtual file has the processors up to the first whose number is too high.** -/
theorem CpuInfo.processorIds_genCpuinfo {online : List ℕ} (hids : ∀ id ∈ online, id < 2 ^ 31)
    (hmax : 1 ≤ maxCpus) : processorIds (genCpuinfo maxCpus (info.text online)) =
      online.takeWhile fun id : ℕ => decide ((id : ℤ) < maxCpus) := by
  obtain ⟨tail, htail, hloop⟩ :=
    info.cpuinfoLoop_text hids (show (-1 : ℤ) < maxCpus by omega)
  have hbody : ∀ id, readLines readProcessor (processorLine id ++ '\n' :: info.details id) =
      [id] := by
    intro id
    have hdetails : readLines readProcessor (info.details id ++ ['\n']) = [] :=
      readLines_eq_nil fun line hline =>
        readProcessor_quiet ((info.details_quiet id).lines line hline)
    rw [readLines_append] at hdetails
    rw [readLines_append, readLines_line (newline_not_mem_processorLine id), readProcessor_line,
      (List.append_eq_nil_iff.1 hdetails).1]
    rfl
  have htext : (online.takeWhile fun id : ℕ => decide ((id : ℤ) < maxCpus)).flatMap info.block =
      (online.takeWhile fun id : ℕ => decide ((id : ℤ) < maxCpus)).flatMap
        fun id => processorLine id ++ '\n' :: info.details id ++ ['\n'] :=
    List.flatMap_congr fun id _ => by simp [block]
  rw [processorIds, genCpuinfo, map_cString_fgets (info.nul_not_mem_text online), hloop, htext,
    readLines_flatMap hbody, List.map_id']
  rcases htail with rfl | rfl
  · exact List.append_nil _
  · rw [readLines_eq_nil fun line hline => readProcessor_quiet (info.tail_quiet.lines line hline),
      List.append_nil]

end Cpuinfo

/-! ## Numbers of a line -/

theorem lt_of_mem_numbers {c : Columns} {n : ℕ} (h : n ∈ numbers c) : n < 2 ^ 64 := by
  obtain ⟨j, rfl⟩ := List.mem_ofFn.1 h
  exact (c j).toNat_lt

theorem getD_numbers (c : Columns) (i : ℕ) :
    (numbers c).getD i 0 = if h : i < 10 then (c ⟨i, h⟩).toNat else 0 := by
  rw [numbers, List.getD_eq_getElem?_getD, List.getElem?_ofFn]
  split <;> rfl

theorem scanNumbers_fields {ns : List ℕ} (h : ∀ n ∈ ns, n < 2 ^ 64) (k : ℕ) :
    scanNumbers (ns.length + k) (fields (ns.map fun n : ℕ => (n : ℤ)) ++ ['\n']) = ns := by
  induction ns with
  | nil =>
    cases k with
    | zero => rfl
    | succ k => rfl
  | cons n ns ih =>
    obtain ⟨hn, hns⟩ := List.forall_mem_cons.1 h
    rw [List.length_cons, Nat.succ_add, List.map_cons, scanNumbers, ProcStat.scanInt_fields]
    simp only [ProcStat.toULongLong_natCast hn, ih hns]

theorem filterMap_strtoull {ns : List ℕ} (h : ∀ n ∈ ns, n < 2 ^ 64) :
    ((ns.map fun n : ℕ => (n : ℤ)).map intText).filterMap strtoull = ns := by
  induction ns with
  | nil => rfl
  | cons n ns ih =>
    obtain ⟨hn, hns⟩ := List.forall_mem_cons.1 h
    rw [List.map_cons, List.map_cons, List.filterMap_cons, ProcStat.strtoull_intText hn, ih hns]

theorem not_mem_ints {c : Columns} {d : Char} (hd : d.isDigit = false) (hblank : d ≠ ' ')
    (hminus : d ≠ '-') : d ∉ fields (ints c) := by
  intro hmem
  rcases ProcStat.mem_fields hmem with rfl | rfl | h
  · exact hblank rfl
  · exact hminus rfl
  · rw [hd] at h
    cases h

theorem length_ints (c : Columns) : (fields (ints c)).length ≤ 220 := by
  have hlt : ∀ v ∈ ints c, v.natAbs < 2 ^ 64 := by
    intro v hv
    obtain ⟨n, hn, rfl⟩ := List.mem_map.1 hv
    exact lt_of_mem_numbers hn
  simpa [ints, numbers] using ProcStat.length_fields hlt

/-- The columns one to the left, with nothing for the last. -/
def shifted (c : Columns) : Columns := fun j => if h : j.val + 1 < 10 then c ⟨j.val + 1, h⟩ else 0

/-! ## The lines of `stat` -/

def cpuBody (id : ℕ) (c : Columns) : Text := cpuName ++ decimal id ++ fields (ints c)

def totalBody (c : Columns) : Text := cpuName ++ ' ' :: fields (ints c)

theorem newline_not_mem_cpuBody (id : ℕ) (c : Columns) : '\n' ∉ cpuBody id c := by
  have hdigits : '\n' ∉ decimal id := not_mem_decimal id rfl
  have hints : '\n' ∉ fields (ints c) := not_mem_ints rfl (by decide) (by decide)
  simp [cpuBody, cpuName, hdigits, hints]

theorem newline_not_mem_totalBody (c : Columns) : '\n' ∉ totalBody c := by
  have hints : '\n' ∉ fields (ints c) := not_mem_ints rfl (by decide) (by decide)
  simp [totalBody, cpuName, hints]

theorem scanCpu_quiet {line : Text} (h : ¬cpuName <+: line) : scanCpu line = none := by
  rw [scanCpu, if_neg (by rwa [List.isPrefixOf_iff_prefix])]

theorem not_prefix_cpuLine (id : ℕ) (t : Text) :
    (cpuName ++ [' ']).isPrefixOf (cpuName ++ decimal id ++ t) = false := by
  obtain ⟨d, ds, hds, hd⟩ := decimal_eq_cons id
  have hne : (' ' == d) = false := beq_eq_false_iff_ne.2 (ne_of_isDigit hd rfl).symm
  rw [hds]
  simp [cpuName, List.isPrefixOf, hne]

theorem scanInt_cpuLine (id : ℕ) (c : Columns) :
    scanInt ((cpuLine id c).drop 3) = some ((id : ℤ), fields (ints c) ++ ['\n']) := by
  have hdrop : (cpuLine id c).drop 3 = intText id ++ (fields (ints c) ++ ['\n']) := by
    rw [intText_natCast, cpuLine, List.append_assoc, List.append_assoc]
    rfl
  rw [hdrop, scanInt_intText _ (ProcStat.spaceHead_fields _).noDigitHead]

theorem scanCpu_cpuLine {id : ℕ} (hid : id < 2 ^ 31) (c : Columns) :
    scanCpu (cpuLine id c) = some (id : ℤ) := by
  have hpre : cpuName.isPrefixOf (cpuLine id c) = true := by
    rw [List.isPrefixOf_iff_prefix, cpuLine, List.append_assoc, List.append_assoc]
    exact List.prefix_append _ _
  rw [scanCpu, if_pos hpre, scanInt_cpuLine, Option.map_some, wrap_toLongLong hid]

theorem scanColumns_cpuLine (id : ℕ) (c : Columns) : scanColumns (cpuLine id c) = c := by
  have hread : scanNumbers 10 (fields (ints c) ++ ['\n']) = numbers c :=
    @scanNumbers_fields (numbers c) (fun _ => lt_of_mem_numbers) 0
  rw [scanColumns, scanInt_cpuLine]
  funext j
  simp only [hread]
  rw [getD_numbers, dif_pos j.isLt, UInt64.ofNat_toNat]

/-- What the aggregate line is to a reader that takes its first number for that of a CPU. -/
theorem scanInt_totalLine (c : Columns) : scanInt ((totalLine c).drop 3) =
    some (((c 0).toNat : ℤ), fields ((numbers c).tail.map fun n : ℕ => (n : ℤ)) ++ ['\n']) := by
  have hdrop : (totalLine c).drop 3 = ' ' :: (fields (ints c) ++ ['\n']) := by
    simp [totalLine, cpuName]
  have hints : ints c = ((c 0).toNat : ℤ) :: (numbers c).tail.map fun n : ℕ => (n : ℤ) := by
    simp [ints, numbers, List.ofFn_succ]
  rw [hdrop, scanInt_space, hints, ProcStat.scanInt_fields]

theorem scanCpu_totalLine (c : Columns) :
    scanCpu (totalLine c) = some (wrap (toLongLong (c 0).toNat)) := by
  have hpre : cpuName.isPrefixOf (totalLine c) = true := by
    rw [List.isPrefixOf_iff_prefix, totalLine, List.append_assoc]
    exact List.prefix_append _ _
  rw [scanCpu, if_pos hpre, scanInt_totalLine, Option.map_some]

theorem scanColumns_totalLine (c : Columns) : scanColumns (totalLine c) = shifted c := by
  have hread : scanNumbers 10 (fields ((numbers c).tail.map fun n : ℕ => (n : ℤ)) ++ ['\n']) =
      (numbers c).tail :=
    @scanNumbers_fields (numbers c).tail
      (fun _ hn => lt_of_mem_numbers (List.mem_of_mem_tail hn)) 1
  rw [scanColumns, scanInt_totalLine]
  funext j
  have htail : (numbers c).tail.getD j 0 = (numbers c).getD (j + 1) 0 := by
    simp only [List.getD_eq_getElem?_getD, List.getElem?_tail]
  simp only [hread]
  rw [htail, getD_numbers, shifted]
  split
  · exact UInt64.ofNat_toNat
  · rfl

/-! ## The virtual `stat` -/

section Stat

variable (s : Snapshot) {maxCpus : ℤ} {online : List ℕ}

theorem length_cpuBody {id : ℕ} (hid : id < 2 ^ 31) (c : Columns) :
    (cpuBody id c).length ≤ 2046 := by
  have hdigits := length_intText (v := id) (by rw [Int.natAbs_natCast]; omega)
  have hints := length_ints c
  rw [intText_natCast] at hdigits
  simp only [cpuBody, cpuName, List.length_append, List.length_cons, List.length_nil]
  omega

theorem length_totalBody (c : Columns) : (totalBody c).length ≤ 2046 := by
  have hints := length_ints c
  simp only [totalBody, cpuName, List.length_append, List.length_cons, List.length_nil]
  omega

theorem fgets_cpuLines (hids : ∀ id ∈ online, id < 2 ^ 31) (ticks : ℕ → Columns) (t : Text) :
    fgets 2046 ((online.flatMap fun id => cpuLine id (ticks id)) ++ t) 2046 =
      (online.map fun id => cpuLine id (ticks id)) ++ fgets 2046 t 2046 := by
  induction online with
  | nil => rfl
  | cons id online ih =>
    obtain ⟨hid, hids⟩ := List.forall_mem_cons.1 hids
    have hline := fgets_line 2046 (newline_not_mem_cpuBody id (ticks id))
      (length_cpuBody hid (ticks id))
    have hsplit : ((id :: online).flatMap fun id => cpuLine id (ticks id)) ++ t =
        cpuBody id (ticks id) ++
          '\n' :: ((online.flatMap fun id => cpuLine id (ticks id)) ++ t) := by
      simp [cpuLine, cpuBody]
    rw [hsplit, fgets_append, hline, ih hids]
    rfl

/-- Each of the lines is read in one piece. -/
theorem Snapshot.fgets_text (hids : ∀ id ∈ online, id < 2 ^ 31) :
    fgets 2046 (s.text online) 2046 = totalLine s.total ::
      (online.map fun id => cpuLine id (s.ticks id)) ++ fgets 2046 s.rest 2046 := by
  have hsplit : s.text online = totalBody s.total ++
      '\n' :: ((online.flatMap fun id => cpuLine id (s.ticks id)) ++ s.rest) := by
    simp [text, totalLine, totalBody]
  rw [hsplit, fgets_append, fgets_line 2046 (newline_not_mem_totalBody s.total)
    (length_totalBody s.total), fgets_cpuLines hids]
  rfl

theorem Snapshot.nul_not_mem_text : '\x00' ∉ s.text online := by
  have hints (c : Columns) : '\x00' ∉ fields (ints c) :=
    not_mem_ints rfl (by decide) (by decide)
  have hdigits (id : ℕ) : '\x00' ∉ decimal id := not_mem_decimal id rfl
  simp [text, totalLine, cpuLine, cpuName, hints, hdigits, s.rest_quiet.nul]

/-- What the first pass starts with, after the aggregate line. -/
def Snapshot.extra (maxCpus : ℤ) : Columns :=
  if wrap (toLongLong (s.total 0).toNat) < maxCpus then shifted s.total else fun _ => 0

/-- The CPUs below the number. -/
def below (maxCpus : ℤ) (online : List ℕ) : List ℕ :=
  online.filter fun id : ℕ => decide ((id : ℤ) < maxCpus)

theorem addLine_totalLine :
    addLine maxCpus (fun _ => 0) (totalLine s.total) = s.extra maxCpus := by
  rw [addLine, scanCpu_totalLine, scanColumns_totalLine, Snapshot.extra]
  dsimp only
  split
  · funext j
    exact UInt64.zero_add _
  · rfl

theorem foldl_addLine_quiet (sums : Columns) {lines : List Text}
    (hquiet : ∀ line ∈ lines, ¬cpuName <+: line) : lines.foldl (addLine maxCpus) sums = sums := by
  induction lines with
  | nil => rfl
  | cons line lines ih =>
    obtain ⟨hline, hlines⟩ := List.forall_mem_cons.1 hquiet
    rw [List.foldl_cons, addLine, scanCpu_quiet hline]
    exact ih hlines

theorem toNat_foldl_addLine (hids : ∀ id ∈ online, id < 2 ^ 31) (ticks : ℕ → Columns)
    (sums : Columns) (j : Fin 10) :
    ((online.map fun id => cpuLine id (ticks id)).foldl (addLine maxCpus) sums j).toNat =
      ((sums j).toNat + ((below maxCpus online).map fun id => (ticks id j).toNat).sum) %
        2 ^ 64 := by
  induction online generalizing sums with
  | nil => exact (Nat.mod_eq_of_lt (sums j).toNat_lt).symm
  | cons id online ih =>
    obtain ⟨hid, hids⟩ := List.forall_mem_cons.1 hids
    rw [List.map_cons, List.foldl_cons, ih hids, addLine, scanCpu_cpuLine hid, scanColumns_cpuLine,
      below, below, List.filter_cons]
    simp only [decide_eq_true_eq]
    split
    · rw [UInt64.toNat_add, Nat.mod_add_mod, List.map_cons, List.sum_cons, Nat.add_assoc]
    · rfl

/-- What the first pass adds up. -/
def Snapshot.sums (maxCpus : ℤ) (online : List ℕ) : Columns :=
  ((fgets 2046 (s.text online) 2046).map cString).foldl (addLine maxCpus) fun _ => 0

theorem Snapshot.toNat_sums (hids : ∀ id ∈ online, id < 2 ^ 31) (j : Fin 10) :
    (s.sums maxCpus online j).toNat = ((s.extra maxCpus j).toNat +
      ((below maxCpus online).map fun id => (s.ticks id j).toNat).sum) % 2 ^ 64 := by
  rw [sums, map_cString_fgets s.nul_not_mem_text, s.fgets_text hids, List.cons_append,
    List.foldl_cons, List.foldl_append, foldl_addLine_quiet _ s.rest_quiet.pieces,
    addLine_totalLine, toNat_foldl_addLine hids]

theorem statLoop_quiet (total : Text) (aggDone : Bool) {lines : List Text}
    (hquiet : ∀ line ∈ lines, ¬cpuName <+: line) :
    statLoop maxCpus total aggDone lines = lines.flatten := by
  induction lines with
  | nil => rfl
  | cons line lines ih =>
    obtain ⟨hline, hlines⟩ := List.forall_mem_cons.1 hquiet
    have hnot : ¬(cpuName ++ [' ']).isPrefixOf line = true := by
      rw [List.isPrefixOf_iff_prefix]
      exact fun hpre => hline ((List.prefix_append _ _).trans hpre)
    rw [statLoop, if_neg hnot, scanCpu_quiet hline, List.flatten_cons]
    exact congrArg (line ++ ·) (ih hlines)

theorem statLoop_cpuLines (hids : ∀ id ∈ online, id < 2 ^ 31) (ticks : ℕ → Columns)
    (total : Text) (aggDone : Bool) (more : List Text) :
    statLoop maxCpus total aggDone ((online.map fun id => cpuLine id (ticks id)) ++ more) =
      ((below maxCpus online).flatMap fun id => cpuLine id (ticks id)) ++
        statLoop maxCpus total aggDone more := by
  induction online with
  | nil => rfl
  | cons id online ih =>
    obtain ⟨hid, hids⟩ := List.forall_mem_cons.1 hids
    have hnot : ¬(cpuName ++ [' ']).isPrefixOf (cpuLine id (ticks id)) = true := by
      rw [cpuLine, List.append_assoc, not_prefix_cpuLine]
      exact Bool.false_ne_true
    rw [List.map_cons, List.cons_append, statLoop, if_neg hnot, scanCpu_cpuLine hid, ih hids,
      below, below, List.filter_cons]
    simp only [decide_eq_true_eq]
    by_cases hlt : (id : ℤ) < maxCpus
    · rw [if_neg (not_le.2 hlt), if_pos hlt, List.flatMap_cons, List.append_assoc]
    · rw [if_pos (not_lt.1 hlt), if_neg hlt]

theorem genStat_text (first second : Snapshot) (hids : ∀ id ∈ online, id < 2 ^ 31) :
    genStat maxCpus (first.text online) (second.text online) =
      totalLine (first.sums maxCpus online) ++
        (((below maxCpus online).flatMap fun id => cpuLine id (second.ticks id)) ++
          second.rest) := by
  have hpre : (cpuName ++ [' ']).isPrefixOf (totalLine second.total) = true := by
    rw [List.isPrefixOf_iff_prefix, totalLine, List.append_assoc]
    exact ⟨fields (ints second.total) ++ ['\n'], by simp⟩
  have hrest := flatten_fgets 2046 second.rest 2046
  rw [genStat, ← Snapshot.sums, map_cString_fgets second.nul_not_mem_text,
    second.fgets_text hids, List.cons_append, statLoop, if_pos hpre, if_neg Bool.false_ne_true,
    statLoop_cpuLines hids, statLoop_quiet _ _ second.rest_quiet.pieces, hrest]

end Stat

/-! ## Reading the virtual `stat` -/

section Reader

theorem readCpu_quiet {line : Text} (h : ¬cpuName <+: line) : readCpu line = none := by
  rw [readCpu, if_neg (by rwa [List.isPrefixOf_iff_prefix])]

theorem readTotal_quiet {line : Text} (h : ¬cpuName <+: line) : readTotal line = none := by
  rw [readTotal, if_neg]
  rw [List.isPrefixOf_iff_prefix]
  exact fun hpre => h ((List.prefix_append _ _).trans hpre)

theorem words_fields_ints (c : Columns) : words (fields (ints c)) = (ints c).map intText := by
  cases ints c with
  | nil => rfl
  | cons v vs =>
    have hblank : words (fields (v :: vs)) = words (intText v ++ fields vs) :=
      ProcStat.words_append (Or.inl rfl) [] _
    have hwords := ProcStat.words_fields (intText_ne_nil v) (fun _ => isSpace_of_mem_intText) vs
      (t := []) fun c hc => nomatch hc
    rw [List.append_nil] at hwords
    rw [hblank, hwords, ProcStat.words_nil, List.append_nil]
    rfl

theorem readCpu_cpuBody (id : ℕ) (c : Columns) :
    readCpu (cpuBody id c) = some (id, numbers c) := by
  have hpre : cpuName.isPrefixOf (cpuBody id c) = true := by
    rw [List.isPrefixOf_iff_prefix, cpuBody, List.append_assoc]
    exact List.prefix_append _ _
  have hspace : ∀ d ∈ cpuName ++ decimal id, isSpace d = false := by
    intro d hd
    rcases List.mem_append.1 hd with hd | hd
    · have hall : cpuName.all (!isSpace ·) = true := by decide
      simpa using List.all_eq_true.1 hall d hd
    · exact isSpace_of_isDigit (isDigit_of_mem_decimal hd)
  have hwords := ProcStat.words_fields (w := cpuName ++ decimal id) (by simp [cpuName]) hspace
    (ints c) (t := []) fun c hc => nomatch hc
  have hscan := scanDigits_decimal id (t := []) fun c hc => nomatch hc
  have hdrop : (cpuName ++ decimal id).drop 3 = decimal id := rfl
  rw [List.append_nil, ← cpuBody, ProcStat.words_nil, List.append_nil] at hwords
  rw [List.append_nil] at hscan
  rw [readCpu, if_pos hpre, hwords]
  simp only [hdrop, hscan, Option.map_some]
  rw [ints, filterMap_strtoull fun _ => lt_of_mem_numbers]

theorem readTotal_cpuBody (id : ℕ) (c : Columns) : readTotal (cpuBody id c) = none := by
  rw [readTotal, cpuBody, not_prefix_cpuLine, if_neg Bool.false_ne_true]

theorem readTotal_totalBody (c : Columns) : readTotal (totalBody c) = some (numbers c) := by
  have hpre : (cpuName ++ [' ']).isPrefixOf (totalBody c) = true := by
    rw [List.isPrefixOf_iff_prefix]
    exact ⟨fields (ints c), by simp [totalBody]⟩
  have hdrop : (totalBody c).drop 4 = fields (ints c) := rfl
  rw [readTotal, if_pos hpre, hdrop, words_fields_ints, ints,
    filterMap_strtoull fun _ => lt_of_mem_numbers]

theorem readCpu_totalBody (c : Columns) : readCpu (totalBody c) = none := by
  have hwords : words (totalBody c) = cpuName :: words (fields (ints c)) := by
    rw [totalBody, ProcStat.words_append (Or.inl rfl)]
    rfl
  have hscan : scanDigits (cpuName.drop 3) = none := rfl
  rw [readCpu, hwords]
  split
  · simp only [hscan, Option.map_none]
  · rfl

variable {maxCpus : ℤ} {online : List ℕ} (first second : Snapshot)

theorem readLines_genStat {α : Type} {read : Text → Option α}
    (hquiet : ∀ line, ¬cpuName <+: line → read line = none) (hids : ∀ id ∈ online, id < 2 ^ 31) :
    readLines read (genStat maxCpus (first.text online) (second.text online)) =
      (read (totalBody (first.sums maxCpus online))).toList ++
        (below maxCpus online).filterMap fun id => read (cpuBody id (second.ticks id)) := by
  have hrest : readLines read second.rest = [] :=
    readLines_eq_nil fun line hline => hquiet line (second.rest_quiet.lines line hline)
  have hlines (ids : List ℕ) : readLines read
      ((ids.flatMap fun id => cpuLine id (second.ticks id)) ++ second.rest) =
        ids.filterMap fun id => read (cpuBody id (second.ticks id)) := by
    induction ids with
    | nil => exact hrest
    | cons id ids ih =>
      have hsplit : ((id :: ids).flatMap fun id => cpuLine id (second.ticks id)) ++ second.rest =
          cpuBody id (second.ticks id) ++
            '\n' :: ((ids.flatMap fun id => cpuLine id (second.ticks id)) ++ second.rest) := by
        simp [cpuLine, cpuBody]
      rw [hsplit, readLines_append, readLines_line (newline_not_mem_cpuBody _ _), ih,
        List.filterMap_cons]
      cases read (cpuBody id (second.ticks id)) <;> rfl
  have hsplit : totalLine (first.sums maxCpus online) ++
      (((below maxCpus online).flatMap fun id => cpuLine id (second.ticks id)) ++ second.rest) =
        totalBody (first.sums maxCpus online) ++ '\n' ::
          (((below maxCpus online).flatMap fun id => cpuLine id (second.ticks id)) ++
            second.rest) := by
    simp [totalLine, totalBody]
  rw [genStat_text first second hids, hsplit, readLines_append,
    readLines_line (newline_not_mem_totalBody _), hlines]

/-- **The virtual file has the CPUs below the number**, with their ticks at the second reading. -/
theorem cpuRows_genStat (hids : ∀ id ∈ online, id < 2 ^ 31) :
    cpuRows (genStat maxCpus (first.text online) (second.text online)) =
      (below maxCpus online).map fun id => (id, numbers (second.ticks id)) := by
  rw [cpuRows, readLines_genStat first second (fun _ => readCpu_quiet) hids, readCpu_totalBody]
  simp only [readCpu_cpuBody]
  rw [← List.filterMap_eq_map]
  rfl

/-- **Its only aggregate is what the first pass adds up.** -/
theorem totals_genStat (hids : ∀ id ∈ online, id < 2 ^ 31) :
    totals (genStat maxCpus (first.text online) (second.text online)) =
      [numbers (first.sums maxCpus online)] := by
  rw [totals, readLines_genStat first second (fun _ => readTotal_quiet) hids, readTotal_totalBody]
  simp [readTotal_cpuBody]

end Reader

end Droidspaces.CpuViews
