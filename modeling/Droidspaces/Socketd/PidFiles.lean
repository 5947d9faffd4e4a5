import Droidspaces.Cli.SizeArgument
import Droidspaces.Config.Entries
import Droidspaces.Config.RoundTrip
import Droidspaces.Socketd.References

/-!
# Which containers run

`is_container_running` goes by the pidfile, and looks for a process with the container's UUID if
that is of no use; it then writes the pidfile anew.  `count_running_containers` knows no UUIDs, and
removes every pidfile that names no process.

Neither changes what runs (`runningPid_heal`, `runningPid_count`), and
`countRunningContainers_spec` says which pidfiles are left.
-/

namespace Droidspaces.Socketd

open Config

/-! ## The code -/

/-- A process of the host. -/
structure ContainerProc where
  pid : ℕ
  shown : Proc
  /-- What there is in `/run/droidspaces`. -/
  hasMarker : Text → Bool

/-- The processes in the order of `/proc`, and what `kill` with signal 0 finds. -/
structure ProcTable where
  procs : List ContainerProc
  answers : ℤ → Bool
  pid_pos : ∀ p ∈ procs, 0 < p.pid
  pid_lt : ∀ p ∈ procs, p.pid < pidMax
  alive : ∀ p ∈ procs, answers p.pid = true

/-- What is in the files in `Pids`. -/
abbrev PidFiles := Text → Option Text

/-- What `read_and_validate_pid` returns: -1, -2 or 0. -/
inductive Verdict where
  | gone
  | stranger
  | running
  deriving DecidableEq

/-- What `strtol` makes of a pidfile, if that is all there is and more than 0, as a `pid_t`. -/
def pidIn (content : Text) : Option ℤ :=
  let number := (cString (readFile 64 content)).dropWhile isSpace
  let digits := if number.head? = some '+' then number.tail else number
  if digits.all Char.isDigit ∧ 0 < leadingDigits digits then
    some (Int.bmod (min (leadingDigits digits) llongMax : ℕ) 4294967296)
  else none

def isValidContainerPid (t : ProcTable) (pid : ℤ) : Bool :=
  t.procs.any fun p => p.pid = pid && p.shown.isValid

/-- `read_and_validate_pid`, with `*pid_out`. -/
def readAndValidatePid (t : ProcTable) (content : Option Text) : Verdict × ℤ :=
  match content.bind pidIn with
  | none => (.gone, 0)
  | some pid =>
    if t.answers pid = false then (.gone, 0)
    else if isValidContainerPid t pid then (.running, pid)
    else (.stranger, pid)

def findContainerInitPid (t : ProcTable) (uuid : Text) : Option ℕ :=
  if uuid = [] then none
  else
    (t.procs.find? fun p => p.shown.marked && p.hasMarker uuid && p.shown.isValid).map
      ContainerProc.pid

/-- The file of `resolve_pidfile_from_name`. -/
def pidEntry (name : Text) : Text :=
  if validateContainerName name then sanitize name ++ ".pid".toList else []

/-- `NAME_MAX` -/
def nameMax : ℕ := 255

/-- `write_file_atomic`, which has to make a file with six random letters behind the name first. -/
def writeFileAtomic (files : PidFiles) (entry content : Text) : PidFiles :=
  if entry ≠ [] ∧ entry.length + 7 ≤ nameMax then Function.update files entry (some content)
  else files

/-- `is_container_running`, for a configuration with that name and UUID: the result, `*pid_out`, and
what is in `Pids` afterwards. -/
def isContainerRunning (t : ProcTable) (files : PidFiles) (name uuid : Text) :
    Bool × ℤ × PidFiles :=
  if name = [] then (false, 0, files)
  else
    let (verdict, pid) := readAndValidatePid t (files (pidEntry name))
    if verdict = .running ∧ 0 < pid then (true, pid, files)
    else
      match findContainerInitPid t uuid with
      | none => (false, pid, files)
      | some deep => (true, deep, writeFileAtomic files (pidEntry name) (decimal deep))

/-- One entry of `Pids` in `count_running_containers`.  What else is removed with a pidfile does not
matter here. -/
def countStep (t : ProcTable) (s : PidFiles × ℕ) (entry : Text) : PidFiles × ℕ :=
  if isPidFile entry then
    let name := nameOfPidfile entry
    let (running, pid, files) := isContainerRunning t s.1 name []
    if running then (files, s.2 + 1)
    else if pid = 0 ∧ (files (pidEntry name)).isSome then
      (Function.update files (pidEntry name) none, s.2)
    else (files, s.2)
  else s

/-- `count_running_containers`, with what it leaves of the pidfiles. -/
def countRunningContainers (t : ProcTable) (entries : List Text) (files : PidFiles) :
    PidFiles × ℕ :=
  entries.foldl (countStep t) (files, 0)

/-! ## What runs -/

/-- The process of a container that runs. -/
def runningPid (t : ProcTable) (files : PidFiles) (name uuid : Text) : Option ℤ :=
  let (running, pid, _) := isContainerRunning t files name uuid
  if running ∧ 0 < pid then some pid else none

section Running

variable {t : ProcTable} {files : PidFiles} {name uuid : Text}

theorem readFile_decimal {n : ℕ} (hn : n < pidMax) : readFile 64 (decimal n) = decimal n := by
  have hlen : (decimal n).length ≤ 7 :=
    (Nat.length_toDigits_le_iff (by decide) (by decide)).2
      (hn.trans_le (by decide : pidMax ≤ 10 ^ 7))
  rw [readFile, List.take_of_length_le (by omega), List.rdropWhile_eq_self_iff]
  intro hne hlast
  have hdigit := isDigit_of_mem_decimal (List.getLast_mem hne)
  rcases Bool.or_eq_true_iff.1 hlast with h | h
  · rw [beq_iff_eq.1 h] at hdigit
    cases hdigit
  · rw [beq_iff_eq.1 h] at hdigit
    cases hdigit

/-- What is written into a pidfile is read back. -/
theorem pidIn_decimal {n : ℕ} (hpos : 0 < n) (hn : n < pidMax) :
    pidIn (decimal n) = some (n : ℤ) := by
  obtain ⟨d, ds, hcons, hd⟩ := decimal_eq_cons n
  have hall : ∀ c ∈ decimal n, c.isDigit = true := fun c hc => isDigit_of_mem_decimal hc
  have hnul : cString (decimal n) = decimal n :=
    cString_eq_self fun hmem => absurd (hall _ hmem) (by decide)
  have hnumber : (decimal n).dropWhile isSpace = decimal n := by
    rw [hcons, List.dropWhile_cons_of_neg (by simp [isSpace_of_isDigit hd])]
  have hplus : (decimal n).head? ≠ some '+' := by
    rw [hcons, List.head?_cons]
    exact fun h => ne_of_isDigit hd (c := '+') rfl (Option.some.inj h)
  have hdigits : leadingDigits (decimal n) = n := leadingDigits_toDigits n
  have hmax : min n llongMax = n := Nat.min_eq_left (hn.le.trans (by decide))
  have hfits : Int.bmod (n : ℤ) 4294967296 = n := by
    have hsmall : n < 4194304 := hn
    rw [Int.bmod_eq_of_le (by omega) (by omega)]
  rw [pidIn]
  simp only [readFile_decimal hn, hnul, hnumber, if_neg hplus, hdigits, hmax]
  rw [if_pos ⟨List.all_eq_true.2 hall, hpos⟩, hfits]

/-- A process of the table that is a container's is found to be running. -/
theorem readAndValidatePid_decimal {p : ContainerProc} (hp : p ∈ t.procs)
    (hvalid : p.shown.isValid = true) :
    readAndValidatePid t (some (decimal p.pid)) = (Verdict.running, (p.pid : ℤ)) := by
  have hcontainer : isValidContainerPid t p.pid = true :=
    List.any_eq_true.2 ⟨p, hp, by simp [hvalid]⟩
  rw [readAndValidatePid, Option.bind_some, pidIn_decimal (t.pid_pos p hp) (t.pid_lt p hp)]
  simp [t.alive p hp, hcontainer]

/-- The process of a pidfile is one of the table. -/
theorem pos_of_running {content : Option Text} {pid : ℤ}
    (h : readAndValidatePid t content = (.running, pid)) : 0 < pid := by
  unfold readAndValidatePid at h
  split at h
  · cases h
  · split_ifs at h with hgone hcontainer
    · cases h
    · obtain ⟨p, hp, hpid⟩ := List.any_eq_true.1 hcontainer
      obtain rfl := (Prod.mk.inj h).2
      rw [Bool.and_eq_true, decide_eq_true_eq] at hpid
      rw [← hpid.1]
      exact_mod_cast t.pid_pos p hp
    · cases h

theorem findContainerInitPid_mem {n : ℕ} (h : findContainerInitPid t uuid = some n) :
    ∃ p ∈ t.procs, p.pid = n ∧ p.shown.isValid = true := by
  unfold findContainerInitPid at h
  split at h
  · cases h
  · obtain ⟨p, hp, rfl⟩ := Option.map_eq_some_iff.1 h
    have hfound := List.find?_some hp
    simp only [Bool.and_eq_true] at hfound
    exact ⟨p, List.mem_of_find?_eq_some hp, rfl, hfound.2⟩

/-- A container runs if its pidfile says so, or else if there is a process with its UUID. -/
theorem runningPid_eq (hname : name ≠ []) :
    runningPid t files name uuid =
      match readAndValidatePid t (files (pidEntry name)) with
      | (.running, pid) => some pid
      | _ => (findContainerInitPid t uuid).map fun n => (n : ℤ) := by
  have hscan {verdict : Verdict} {pid : ℤ}
      (hread : readAndValidatePid t (files (pidEntry name)) = (verdict, pid))
      (hnot : verdict ≠ .running) :
      runningPid t files name uuid = (findContainerInitPid t uuid).map fun n => (n : ℤ) := by
    rw [runningPid, isContainerRunning, if_neg hname, hread]
    cases hfound : findContainerInitPid t uuid with
    | none => simp [hnot]
    | some n =>
      obtain ⟨p, hp, rfl, -⟩ := findContainerInitPid_mem hfound
      simp [hnot, t.pid_pos p hp]
  rcases hread : readAndValidatePid t (files (pidEntry name)) with ⟨_ | _ | _, pid⟩
  · exact hscan hread (by decide)
  · exact hscan hread (by decide)
  · have hpos := pos_of_running hread
    rw [runningPid, isContainerRunning, if_neg hname, hread]
    simp [hpos]

/-- What is found there is what the file says, or what there was before. -/
theorem isContainerRunning_files (hname : name ≠ []) :
    (isContainerRunning t files name uuid).2.2 = files ∨
      ∃ p ∈ t.procs, p.shown.isValid = true ∧
        runningPid t files name uuid = some (p.pid : ℤ) ∧
        (isContainerRunning t files name uuid).2.2 =
          writeFileAtomic files (pidEntry name) (decimal p.pid) := by
  have hpid : runningPid t files name uuid = _ := runningPid_eq hname
  rw [isContainerRunning, if_neg hname]
  rcases hread : readAndValidatePid t (files (pidEntry name)) with ⟨verdict, pid⟩
  rw [hread] at hpid
  simp only
  split
  · exact Or.inl rfl
  · next hnot =>
    cases hfound : findContainerInitPid t uuid with
    | none => exact Or.inl rfl
    | some n =>
      obtain ⟨p, hp, rfl, hvalid⟩ := findContainerInitPid_mem hfound
      refine Or.inr ⟨p, hp, hvalid, ?_, rfl⟩
      have hverdict : verdict ≠ .running := fun heq => by
        subst heq
        exact hnot ⟨rfl, pos_of_running hread⟩
      cases verdict with
      | gone => rw [hpid, hfound]; rfl
      | stranger => rw [hpid, hfound]; rfl
      | running => exact absurd rfl hverdict

/-- **Writing a pidfile anew does not change what runs.** -/
theorem runningPid_heal (hname : name ≠ []) {name' uuid' : Text} (hname' : name' ≠ [])
    (hsame : pidEntry name' = pidEntry name → name' = name ∧ uuid' = uuid) :
    runningPid t (isContainerRunning t files name uuid).2.2 name' uuid' =
      runningPid t files name' uuid' := by
  have hcases : (isContainerRunning t files name uuid).2.2 = files ∨ _ :=
    isContainerRunning_files hname
  rcases hcases with hfiles | ⟨p, hp, hvalid, hpid, hfiles⟩
  · rw [hfiles]
  · rw [hfiles, writeFileAtomic]
    split
    · by_cases hentry : pidEntry name' = pidEntry name
      · obtain ⟨rfl, rfl⟩ := hsame hentry
        rw [hpid, runningPid_eq hname', Function.update_self, readAndValidatePid_decimal hp hvalid]
      · rw [runningPid_eq hname', runningPid_eq hname', Function.update_of_ne hentry]
    · rfl

/-- **Neither does removing one that names no process.** -/
theorem runningPid_prune (hname : name ≠ []) {files' : PidFiles}
    (h : files' (pidEntry name) = files (pidEntry name) ∨
      files' (pidEntry name) = none ∧ (readAndValidatePid t (files (pidEntry name))).2 = 0) :
    runningPid t files' name uuid = runningPid t files name uuid := by
  rw [runningPid_eq hname, runningPid_eq hname]
  rcases h with hsame | ⟨hnone, hpid⟩
  · rw [hsame]
  · rw [hnone]
    rcases hread : readAndValidatePid t (files (pidEntry name)) with ⟨_ | _ | _, pid⟩
    · rfl
    · rfl
    · rw [hread] at hpid
      exact absurd hpid (pos_of_running hread).ne'

end Running

/-! ## What is counted, and what is removed -/

/-- What `readdir` finds in `Pids`: every pidfile is where `resolve_pidfile_from_name` has it. -/
structure PidsDir (entries : List Text) (files : PidFiles) : Prop where
  nodup : entries.Nodup
  there : ∀ entry, (files entry).isSome = true ↔ entry ∈ entries
  named : [] ∉ entries
  short : ∀ entry ∈ entries, entry.length ≤ nameMax
  spelled : ∀ name, validateContainerName name = true → name ++ ".pid".toList ∈ entries →
    sanitize name = name

section Counted

variable (t : ProcTable) (files : PidFiles)

/-- A pidfile of a process that is a container's. -/
def isCounted (entry : Text) : Bool :=
  isPidFile entry && validateContainerName (nameOfPidfile entry) &&
    (readAndValidatePid t (files entry)).1 = .running

/-- A pidfile that names no process. -/
def isStale (entry : Text) : Bool :=
  isPidFile entry && validateContainerName (nameOfPidfile entry) &&
    (readAndValidatePid t (files entry)).2 = 0

variable {t files}

theorem PidsDir.pidEntry_eq {entries : List Text} (h : PidsDir entries files) {entry : Text}
    (hmem : entry ∈ entries) (hpid : isPidFile entry = true)
    (hvalid : validateContainerName (nameOfPidfile entry) = true) :
    pidEntry (nameOfPidfile entry) = entry := by
  obtain ⟨name, rfl⟩ := List.isSuffixOf_iff_suffix.1 hpid
  have hname := nameOfPidfile_append (h.short _ hmem)
  rw [hname] at hvalid ⊢
  rw [pidEntry, if_pos hvalid, h.spelled name hvalid hmem]

/-- One entry is counted, or removed, or left alone. -/
theorem countStep_eq {entry : Text} {n : ℕ} (hnil : files [] = none)
    (hentry : isPidFile entry = true → validateContainerName (nameOfPidfile entry) = true →
      pidEntry (nameOfPidfile entry) = entry) :
    countStep t (files, n) entry =
      (fun e => if e = entry ∧ isStale t files entry = true then none else files e,
        n + if isCounted t files entry then 1 else 0) := by
  have hkeep {b : Bool} (hb : b = false) :
      (fun e => if e = entry ∧ b = true then none else files e) = files := by
    funext e
    rw [if_neg fun h => by rw [hb] at h; cases h.2]
  rw [countStep]
  cases hpid : isPidFile entry with
  | false => simp [isStale, isCounted, hpid]
  | true =>
    by_cases hvalid : validateContainerName (nameOfPidfile entry) = true
    · have hne : nameOfPidfile entry ≠ [] := fun hnil => by
        rw [hnil] at hvalid
        cases hvalid
      have hfile := hentry hpid hvalid
      rw [if_pos rfl]
      simp only [isContainerRunning, if_neg hne, hfile, findContainerInitPid, if_true]
      rcases hread : readAndValidatePid t (files entry) with ⟨verdict, pid⟩
      by_cases hrunning : verdict = .running
      · subst hrunning
        have hpos := pos_of_running hread
        have hstale : isStale t files entry = false := by simp [isStale, hread, hpos.ne']
        have hcounted : isCounted t files entry = true := by simp [isCounted, hpid, hvalid, hread]
        rw [hkeep hstale, hcounted]
        simp [hpos]
      · have hcounted : isCounted t files entry = false := by simp [isCounted, hread, hrunning]
        rw [hcounted]
        by_cases hzero : pid = 0
        · have hstale : isStale t files entry = true := by
            simp [isStale, hpid, hvalid, hread, hzero]
          cases hfile' : files entry with
          | none =>
            have hsame : (fun e => if e = entry ∧ isStale t files entry = true then none
                else files e) = files := by
              funext e
              split
              · next h => rw [h.1, hfile']
              · rfl
            rw [hsame]
            simp [hrunning, hfile']
          | some content =>
            have hsome : (files entry).isSome = true := by rw [hfile']; rfl
            have hupdate : (fun e => if e = entry ∧ isStale t files entry = true then none
                else files e) = Function.update files entry none := by
              funext e
              rw [Function.update_apply]
              simp [hstale]
            rw [hupdate]
            simp [hrunning, hzero, hsome]
        · have hstale : isStale t files entry = false := by simp [isStale, hread, hzero]
          rw [hkeep hstale]
          simp [hrunning, hzero]
    · have hstale : isStale t files entry = false := by simp [isStale, hvalid]
      have hcounted : isCounted t files entry = false := by simp [isCounted, hvalid]
      have hfile : pidEntry (nameOfPidfile entry) = [] := if_neg hvalid
      have hrun : isContainerRunning t files (nameOfPidfile entry) [] = (false, 0, files) := by
        rw [isContainerRunning]
        split
        · rfl
        · rw [hfile, hnil]
          rfl
      rw [hkeep hstale, hcounted]
      simp [hrun, hfile, hnil]

theorem foldl_countStep {entries : List Text} {n : ℕ} (hnodup : entries.Nodup)
    (hnil : files [] = none)
    (hentries : ∀ entry ∈ entries, isPidFile entry = true →
      validateContainerName (nameOfPidfile entry) = true →
        pidEntry (nameOfPidfile entry) = entry) :
    entries.foldl (countStep t) (files, n) =
      (fun e => if e ∈ entries ∧ isStale t files e = true then none else files e,
        n + entries.countP (isCounted t files)) := by
  induction entries generalizing files n with
  | nil => simp
  | cons entry entries ih =>
    obtain ⟨hnot, hnodup⟩ := List.nodup_cons.1 hnodup
    rw [List.foldl_cons, countStep_eq hnil (hentries entry List.mem_cons_self)]
    have hother {e : Text} (he : e ∈ entries) :
        (if e = entry ∧ isStale t files entry = true then none else files e) = files e :=
      if_neg fun hboth : e = entry ∧ _ => hnot (hboth.1 ▸ he)
    rw [ih hnodup (by simp [hnil]) fun e he => hentries e (List.mem_cons_of_mem _ he)]
    refine Prod.ext (funext fun e => ?_) ?_
    · by_cases he : e ∈ entries
      · have hne : e ≠ entry := fun heq => hnot (heq ▸ he)
        simp [isStale, he, hne]
      · by_cases heq : e = entry
        · subst heq
          simp [hnot]
        · simp [he, heq]
    · have hcount : entries.countP (isCounted t fun e =>
          if e = entry ∧ isStale t files entry = true then none else files e) =
            entries.countP (isCounted t files) :=
        List.countP_congr fun e he => by simp only [isCounted, hother he]
      rw [List.countP_cons]
      simp only
      rw [hcount]
      omega

/-- **What is counted, and what is left of the pidfiles.** -/
theorem countRunningContainers_spec {entries : List Text} (h : PidsDir entries files) :
    countRunningContainers t entries files =
      (fun e => if isStale t files e = true then none else files e,
        entries.countP (isCounted t files)) := by
  have hnil : files [] = none := by
    have hnot := mt (h.there []).1 h.named
    rwa [Bool.not_eq_true, Option.isSome_eq_false_iff, Option.isNone_iff_eq_none] at hnot
  rw [countRunningContainers, foldl_countStep h.nodup hnil fun e he hpid hvalid =>
    h.pidEntry_eq he hpid hvalid]
  refine Prod.ext (funext fun e => ?_) (Nat.zero_add _)
  by_cases he : e ∈ entries
  · simp [he]
  · have hnone := mt (h.there e).1 he
    rw [Bool.not_eq_true, Option.isSome_eq_false_iff, Option.isNone_iff_eq_none] at hnone
    simp [he, hnone]

/-- Counting does not change what runs. -/
theorem runningPid_count {entries : List Text} (h : PidsDir entries files) {name uuid : Text}
    (hname : name ≠ []) :
    runningPid t (countRunningContainers t entries files).1 name uuid =
      runningPid t files name uuid := by
  rw [countRunningContainers_spec h]
  refine runningPid_prune hname ?_
  simp only
  split
  · next hstale =>
    rw [isStale, Bool.and_eq_true, decide_eq_true_eq] at hstale
    exact Or.inr ⟨rfl, hstale.2⟩
  · exact Or.inl rfl

end Counted

end Droidspaces.Socketd
