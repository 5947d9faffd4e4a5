import Droidspaces.Bpf.Classic
import Mathlib.Order.Nat

/-!
# The system call filter

`ds_seccomp_apply_minimal` builds a program for the architecture that it is compiled for, with the
numbers of the system calls that its headers have a name for.  `policy` says what the program is for;
`isPolicy_iff` says for which calls it does something else: the ones that it does not test.
-/

namespace Droidspaces.Seccomp

open Bpf

/-! ## Numbers -/

inductive Arch where
  | aarch64
  | x86_64
  | arm
  | i386
  | riscv64
  deriving DecidableEq

/-- `AUDIT_ARCH_…` -/
def Arch.audit : Arch → UInt32
  | .aarch64 => 0xC00000B7
  | .x86_64 => 0xC000003E
  | .arm => 0x40000028
  | .i386 => 0x40000003
  | .riscv64 => 0xC00000F3

/-- The system calls that the filter is about, and the other two that set the clock. -/
inductive Syscall where
  | initModule
  | finitModule
  | deleteModule
  | kexecLoad
  | kexecFileLoad
  | clone3
  | unshare
  | clone
  | socket
  | reboot
  | settimeofday
  | adjtimex
  | clockSettime
  | clockAdjtime
  | clockSettime64
  | stime
  | clockAdjtime64
  deriving DecidableEq

/-- The number that the kernel has for a system call, if the architecture has the call. -/
def Arch.nr : Arch → Syscall → Option UInt32
  | .x86_64, s => match s with
    | .initModule => some 175
    | .finitModule => some 313
    | .deleteModule => some 176
    | .kexecLoad => some 246
    | .kexecFileLoad => some 320
    | .clone3 => some 435
    | .unshare => some 272
    | .clone => some 56
    | .socket => some 41
    | .reboot => some 169
    | .settimeofday => some 164
    | .adjtimex => some 159
    | .clockSettime => some 227
    | .clockAdjtime => some 305
    | .clockSettime64 | .stime | .clockAdjtime64 => none
  | .aarch64, s | .riscv64, s => match s with
    | .initModule => some 105
    | .finitModule => some 273
    | .deleteModule => some 106
    | .kexecLoad => some 104
    | .kexecFileLoad => some 294
    | .clone3 => some 435
    | .unshare => some 97
    | .clone => some 220
    | .socket => some 198
    | .reboot => some 142
    | .settimeofday => some 170
    | .adjtimex => some 171
    | .clockSettime => some 112
    | .clockAdjtime => some 266
    | .clockSettime64 | .stime | .clockAdjtime64 => none
  | .arm, s => match s with
    | .initModule => some 128
    | .finitModule => some 379
    | .deleteModule => some 129
    | .kexecLoad => some 347
    | .kexecFileLoad => some 401
    | .clone3 => some 435
    | .unshare => some 337
    | .clone => some 120
    | .socket => some 281
    | .reboot => some 88
    | .settimeofday => some 79
    | .adjtimex => some 124
    | .clockSettime => some 262
    | .clockAdjtime => some 372
    | .clockSettime64 => some 404
    | .stime => none
    | .clockAdjtime64 => some 405
  | .i386, s => match s with
    | .initModule => some 128
    | .finitModule => some 350
    | .deleteModule => some 129
    | .kexecLoad => some 283
    | .kexecFileLoad => none
    | .clone3 => some 435
    | .unshare => some 310
    | .clone => some 120
    | .socket => some 359
    | .reboot => some 88
    | .settimeofday => some 79
    | .adjtimex => some 124
    | .clockSettime => some 264
    | .clockAdjtime => some 343
    | .clockSettime64 => some 404
    | .stime => some 25
    | .clockAdjtime64 => some 405

/-- What the filter is compiled for, and the names that the headers have among those that the code
tests with `#ifdef`. -/
structure Build where
  arch : Arch
  hasName : Syscall → Bool

/-- The names that are behind an `#ifdef`. -/
def Syscall.isOptional : Syscall → Bool
  | .kexecFileLoad | .clone3 | .settimeofday | .adjtimex | .clockSettime | .clockAdjtime
  | .clockSettime64 => true
  | _ => false

/-- `__NR_…` -/
def Build.nr (b : Build) (s : Syscall) : Option UInt32 :=
  if s.isOptional && !b.hasName s then none else b.arch.nr s

/-! ## The code -/

def retKillProcess : UInt32 := 0x80000000

def retAllow : UInt32 := 0x7fff0000

/-- `SECCOMP_RET_ERRNO | (errno & SECCOMP_RET_DATA)` -/
def retErrno (errno : UInt32) : UInt32 := 0x00050000 ||| (errno &&& 0xffff)

def eperm : UInt32 := 1

def enosys : UInt32 := 38

def afAlg : UInt32 := 38

def cloneNewuser : UInt32 := 0x10000000

def ksuInstallMagic1 : UInt32 := 0xDEADBEEF

def ksuInstallMagic2 : UInt32 := 0xCAFEBABE

def x32SyscallBit : UInt32 := 0x40000000

/-- `offsetof(struct seccomp_data, …)` -/
def nrOff : ℕ := 0

def archOff : ℕ := 4

def argOff (i : ℕ) : ℕ := 16 + 8 * i

section

variable (b : Build)

/-- Instructions about a system call, if there is a name for it. -/
def Build.about (s : Syscall) (insns : UInt32 → List Insn) : List Insn :=
  match b.nr s with
  | some n => insns n
  | none => []

/-- One verdict for several system calls. -/
def Build.deny (calls : List Syscall) (verdict : UInt32) : List Insn :=
  calls.flatMap fun s => b.about s fun n => [.jump .jeq n 0 1, .ret verdict]

/-- Which architecture and which number the call has. -/
def Build.header : List Insn :=
  [.ld archOff, .jump .jeq b.arch.audit 1 0, .ret retKillProcess, .ld nrOff]

def Build.x32Rules : List Insn :=
  if b.arch = .x86_64 then [.jump .jge x32SyscallBit 0 1, .ret retKillProcess] else []

/-- The modules of the kernel, and `kexec`. -/
def killedCalls : List Syscall :=
  [.initModule, .finitModule, .deleteModule, .kexecLoad, .kexecFileLoad]

/-- The rules about new user namespaces; an argument may be what they have loaded last. -/
def Build.usernsRules : List Insn :=
  b.deny [.clone3] (retErrno enosys) ++
  b.about .unshare (fun n => [.jump .jeq n 0 4, .ld (argOff 0), .jump .jset cloneNewuser 0 1,
    .ret (retErrno eperm), .ld nrOff]) ++
  b.about .clone fun n => [.jump .jeq n 0 3, .ld (argOff 0), .jump .jset cloneNewuser 0 1,
    .ret (retErrno eperm)]

def Build.socketRules : List Insn :=
  b.about .socket fun n => [.jump .jeq n 0 4, .ld (argOff 0), .jump .jeq afAlg 0 1,
    .ret (retErrno eperm), .ld nrOff]

def Build.rebootRules : List Insn :=
  b.about .reboot fun n => [.jump .jeq n 0 6, .ld (argOff 0), .jump .jeq ksuInstallMagic1 0 3,
    .ld (argOff 1), .jump .jeq ksuInstallMagic2 0 1, .ret (retErrno eperm), .ld nrOff]

/-- The calls that are taken for all that set the clock. -/
def clockCalls : List Syscall :=
  [.settimeofday, .adjtimex, .clockSettime, .clockAdjtime, .clockSettime64]

/-- The filter without its last instruction. -/
def Build.rules (sandboxingAllowed : Bool) : List Insn :=
  b.header ++ (b.x32Rules ++ (b.deny killedCalls retKillProcess ++
    (((if sandboxingAllowed then [] else b.usernsRules) ++ [.ld nrOff]) ++ (b.socketRules ++
      ([.ld nrOff] ++ (b.rebootRules ++ b.deny clockCalls (retErrno eperm)))))))

end

/-- `DS_PRIV_NOSEC` -/
def privNosec : ℕ := 4

/-- The filter that `ds_seccomp_apply_minimal` installs, if it installs one. -/
def applyMinimal (b : Build) (privilegedMask : ℕ) (sandboxingAllowed : Bool) : Option (List Insn) :=
  if privilegedMask &&& privNosec ≠ 0 then none
  else some (b.rules sandboxingAllowed ++ [.ret retAllow])

/-- `sizeof(filter) / sizeof(filter[0])` -/
def filterSize : ℕ := 74

/-! ## What is filtered -/

/-- `struct seccomp_data` -/
structure SeccompData where
  nr : UInt32
  arch : UInt32
  instructionPointer : UInt64
  args : Fin 6 → UInt64

/-- The words of a number, on a little-endian machine. -/
def words (v : UInt64) : List UInt32 := [v.toUInt32, (v >>> 32).toUInt32]

def SeccompData.words (d : SeccompData) : List UInt32 :=
  [d.nr, d.arch] ++ Seccomp.words d.instructionPointer ++ Seccomp.words (d.args 0) ++
    Seccomp.words (d.args 1) ++ Seccomp.words (d.args 2) ++ Seccomp.words (d.args 3) ++
    Seccomp.words (d.args 4) ++ Seccomp.words (d.args 5)

def SeccompData.load (d : SeccompData) (off : ℕ) : Option UInt32 :=
  if off % 4 = 0 then d.words[off / 4]? else none

/-! ## What is meant -/

/-- The flag among the 64 bits of the argument. -/
def SeccompData.newUser (d : SeccompData) : Bool := d.args 0 &&& 0x10000000 != 0

/-- The verdict for a call, unless it is allowed. -/
def SeccompData.verdict (d : SeccompData) (sandboxingAllowed : Bool) : Syscall → Option UInt32
  | .initModule | .finitModule | .deleteModule | .kexecLoad | .kexecFileLoad => some retKillProcess
  | .clone3 => if sandboxingAllowed then none else some (retErrno enosys)
  | .unshare | .clone =>
    if !sandboxingAllowed && d.newUser then some (retErrno eperm) else none
  -- the kernel takes these arguments as an `int`
  | .socket => if (d.args 0).toUInt32 = afAlg then some (retErrno eperm) else none
  | .reboot =>
    if (d.args 0).toUInt32 = ksuInstallMagic1 ∧ (d.args 1).toUInt32 = ksuInstallMagic2 then
      some (retErrno eperm)
    else none
  | .settimeofday | .adjtimex | .clockSettime | .clockAdjtime | .clockSettime64 | .stime
  | .clockAdjtime64 => some (retErrno eperm)

def Syscall.all : List Syscall := [.initModule, .finitModule, .deleteModule, .kexecLoad,
  .kexecFileLoad, .clone3, .unshare, .clone, .socket, .reboot, .settimeofday, .adjtimex,
  .clockSettime, .clockAdjtime, .clockSettime64, .stime, .clockAdjtime64]

/-- The verdict that a call should have. -/
def policy (arch : Arch) (sandboxingAllowed : Bool) (d : SeccompData) : UInt32 :=
  if d.arch ≠ arch.audit then retKillProcess
  else if arch = .x86_64 ∧ x32SyscallBit ≤ d.nr then retKillProcess
  else
    match Syscall.all.find? fun s => arch.nr s = some d.nr with
    | some s => (d.verdict sandboxingAllowed s).getD retAllow
    | none => retAllow

/-- The filter fits its array, its jumps stay inside it, and its verdict is the one that the call
should have. -/
def IsPolicy (b : Build) (privilegedMask : ℕ) (sandboxingAllowed : Bool) (d : SeccompData) : Prop :=
  ∃ filter ∈ applyMinimal b privilegedMask sandboxingAllowed, filter.length ≤ filterSize ∧
    JumpsInside filter ∧ run d.load 0 filter 0 = some (policy b.arch sandboxingAllowed d)

/-- The calls that the filter tests. -/
def Build.tests (b : Build) : Syscall → Bool
  | .stime | .clockAdjtime64 => false
  | s => !s.isOptional || b.hasName s

/-- The call has a verdict, but is none of those that the filter tests. -/
def IsMissed (b : Build) (sandboxingAllowed : Bool) (d : SeccompData) : Prop :=
  d.arch = b.arch.audit ∧ ∃ s, b.arch.nr s = some d.nr ∧ b.tests s = false ∧
    (d.verdict sandboxingAllowed s).isSome = true

/-! ## The array -/

section

variable {b : Build}

theorem length_about_le {s : Syscall} {insns : UInt32 → List Insn} {k : ℕ}
    (h : ∀ n, (insns n).length = k) : (b.about s insns).length ≤ k := by
  unfold Build.about
  split
  · exact Nat.le_of_eq (h _)
  · exact Nat.zero_le _

theorem length_deny_le (b : Build) (calls : List Syscall) (verdict : UInt32) :
    (b.deny calls verdict).length ≤ 2 * calls.length := by
  induction calls with
  | nil => exact Nat.le_refl _
  | cons s calls ih =>
    have hone : (b.about s fun n => [.jump .jeq n 0 1, .ret verdict]).length ≤ 2 :=
      length_about_le fun _ => rfl
    unfold Build.deny at ih ⊢
    rw [List.flatMap_cons, List.length_append, List.length_cons]
    omega

theorem length_usernsRules_le (b : Build) : b.usernsRules.length ≤ 11 := by
  have hclone3 := length_deny_le b [.clone3] (retErrno enosys)
  have hunshare : (b.about .unshare fun n => [.jump .jeq n 0 4, .ld (argOff 0),
    .jump .jset cloneNewuser 0 1, .ret (retErrno eperm), .ld nrOff]).length ≤ 5 :=
    length_about_le fun _ => rfl
  have hclone : (b.about .clone fun n => [.jump .jeq n 0 3, .ld (argOff 0),
    .jump .jset cloneNewuser 0 1, .ret (retErrno eperm)]).length ≤ 4 :=
    length_about_le fun _ => rfl
  rw [List.length_singleton] at hclone3
  rw [Build.usernsRules, List.length_append, List.length_append]
  omega

theorem length_rules_le (b : Build) (sandboxingAllowed : Bool) :
    (b.rules sandboxingAllowed).length < filterSize := by
  have hx32 : b.x32Rules.length ≤ 2 := by
    unfold Build.x32Rules
    split
    · exact Nat.le_refl _
    · exact Nat.zero_le _
  have huserns : (if sandboxingAllowed then [] else b.usernsRules).length ≤ 11 := by
    split
    · exact Nat.zero_le _
    · exact length_usernsRules_le b
  have hkill : (b.deny killedCalls retKillProcess).length ≤ 10 := length_deny_le b _ _
  have hsocket : b.socketRules.length ≤ 5 := length_about_le fun _ => rfl
  have hreboot : b.rebootRules.length ≤ 7 := length_about_le fun _ => rfl
  have hclock : (b.deny clockCalls (retErrno eperm)).length ≤ 10 := length_deny_le b _ _
  have hheader : b.header.length = 4 := rfl
  simp only [Build.rules, List.length_append, List.length_singleton, filterSize, hheader]
  omega

theorem staysIn_about {s : Syscall} {insns : UInt32 → List Insn} (h : ∀ n, StaysIn (insns n)) :
    StaysIn (b.about s insns) := by
  unfold Build.about
  split
  · exact h _
  · trivial

theorem staysIn_deny (b : Build) (calls : List Syscall) (verdict : UInt32) :
    StaysIn (b.deny calls verdict) := by
  induction calls with
  | nil => trivial
  | cons s calls ih =>
    refine staysIn_append (staysIn_about fun n => ?_) ih
    exact ⟨Nat.zero_le _, Nat.le_refl _, trivial⟩

theorem staysIn_usernsRules (b : Build) : StaysIn (b.usernsRules ++ [.ld nrOff]) := by
  refine staysIn_append (staysIn_append (staysIn_append (staysIn_deny ..) ?_) ?_) trivial
  · exact staysIn_about fun n => by simp [StaysIn]
  · exact staysIn_about fun n => by simp [StaysIn]

theorem staysIn_rules (b : Build) (sandboxingAllowed : Bool) :
    StaysIn (b.rules sandboxingAllowed) := by
  have hx32 : StaysIn b.x32Rules := by
    unfold Build.x32Rules
    split
    · exact ⟨Nat.zero_le _, Nat.le_refl _, trivial⟩
    · trivial
  have huserns : StaysIn ((if sandboxingAllowed then [] else b.usernsRules) ++ [.ld nrOff]) := by
    split
    · trivial
    · exact staysIn_usernsRules b
  have hheader : StaysIn b.header := ⟨Nat.le_succ _, Nat.zero_le _, trivial⟩
  have hsocket : StaysIn b.socketRules := staysIn_about fun n => by simp [StaysIn]
  have hreboot : StaysIn b.rebootRules := staysIn_about fun n => by simp [StaysIn]
  exact staysIn_append hheader (staysIn_append hx32 (staysIn_append (staysIn_deny ..)
    (staysIn_append huserns (staysIn_append hsocket (staysIn_append trivial
      (staysIn_append hreboot (staysIn_deny ..)))))))

end

/-! ## The verdict -/

section

variable {b : Build} {d : SeccompData}

/-- Instructions that are right about a number are right about a system call. -/
theorem decides_about {s : Syscall} {insns : UInt32 → List Insn} {tail : List Insn}
    {out : Option UInt32} (htail : Decides d.load d.nr tail none)
    (h : ∀ n, Decides d.load d.nr (insns n ++ tail) (if n = d.nr then out else none)) :
    Decides d.load d.nr (b.about s insns ++ tail) (if b.nr s = some d.nr then out else none) := by
  unfold Build.about
  cases b.nr s with
  | none => exact htail
  | some n =>
    simp only [Option.some.injEq]
    exact h n

theorem decides_about' {s : Syscall} {insns : UInt32 → List Insn} {out : Option UInt32}
    (h : ∀ n, Decides d.load d.nr (insns n) (if n = d.nr then out else none)) :
    Decides d.load d.nr (b.about s insns) (if b.nr s = some d.nr then out else none) := by
  have habout : Decides d.load d.nr (b.about s insns ++ [])
      (if b.nr s = some d.nr then out else none) :=
    decides_about decides_nil fun n => (List.append_nil (insns n)).symm ▸ h n
  rwa [List.append_nil] at habout

/-- The flag is among the bits that are loaded. -/
theorem holds_newUser : Cond.jset.holds (d.args 0).toUInt32 cloneNewuser = d.newUser := by
  have hflag : cloneNewuser = UInt64.toUInt32 0x10000000 := rfl
  have hiff : (d.args 0).toUInt32 &&& cloneNewuser = 0 ↔ d.args 0 &&& 0x10000000 = 0 := by
    have hle : (d.args 0).toNat &&& 0x10000000 ≤ 0x10000000 := Nat.and_le_right
    have hbit : UInt64.toNat 0x10000000 = 0x10000000 := rfl
    have hzero : UInt64.toNat 0 = 0 := rfl
    rw [hflag, ← UInt64.toUInt32_and, ← UInt32.toNat_inj, ← UInt64.toNat_inj,
      UInt64.toNat_toUInt32, UInt64.toNat_and, hbit, hzero, UInt32.toNat_zero]
    omega
  rw [Bool.eq_iff_iff, Cond.holds, SeccompData.newUser, bne_iff_ne, bne_iff_ne, ne_eq, ne_eq, hiff]

/-- What the rules say of a system call. -/
def Build.out (b : Build) (sandboxingAllowed : Bool) (d : SeccompData) (s : Syscall) :
    Option UInt32 :=
  if b.tests s = true ∧ b.arch.nr s = some d.nr then d.verdict sandboxingAllowed s else none

theorem nr_eq_some_iff {s : Syscall} (hs : s ≠ .stime ∧ s ≠ .clockAdjtime64) :
    b.nr s = some d.nr ↔ b.tests s = true ∧ b.arch.nr s = some d.nr := by
  have htests : b.tests s = (!s.isOptional || b.hasName s) := by
    cases s <;> simp_all [Build.tests]
  rw [Build.nr, htests]
  cases s.isOptional <;> cases b.hasName s <;> simp

theorem decides_out {block : List Insn} {s : Syscall} {sandboxingAllowed : Bool}
    (h : Decides d.load d.nr block
      (if b.nr s = some d.nr then d.verdict sandboxingAllowed s else none))
    (hs : s ≠ .stime ∧ s ≠ .clockAdjtime64) :
    Decides d.load d.nr block (b.out sandboxingAllowed d s) := by
  simpa only [Build.out, nr_eq_some_iff hs] using h

theorem findSome?_cons_eq_or {α β : Type} (f : α → Option β) (x : α) (l : List α) :
    (x :: l).findSome? f = (f x).or (l.findSome? f) := by
  rw [List.findSome?_cons]
  cases f x with
  | none => rfl
  | some y => rfl

theorem decides_deny {sandboxingAllowed : Bool} {calls : List Syscall} {verdict : UInt32}
    (h : ∀ s ∈ calls, d.verdict sandboxingAllowed s = some verdict ∧
      s ≠ .stime ∧ s ≠ .clockAdjtime64) :
    Decides d.load d.nr (b.deny calls verdict) (calls.findSome? (b.out sandboxingAllowed d)) := by
  induction calls with
  | nil => exact decides_nil
  | cons s calls ih =>
    obtain ⟨⟨hverdict, hs⟩, hcalls⟩ := List.forall_mem_cons.1 h
    have hone : Decides d.load d.nr (b.about s fun n => [.jump .jeq n 0 1, .ret verdict])
        (b.out sandboxingAllowed d s) := by
      refine decides_out (decides_about' fun n => ?_) hs
      have hcheck : Decides d.load d.nr [.jump .jeq n 0 1, .ret verdict] _ :=
        decides_check .jeq n verdict
      simpa only [holds_jeq_iff, hverdict] using hcheck
    rw [findSome?_cons_eq_or]
    exact hone.append (ih hcalls)

variable (b d)

theorem decides_usernsRules : Decides d.load d.nr (b.usernsRules ++ [.ld nrOff])
    ([.clone3, .unshare, .clone].findSome? (b.out false d)) := by
  have hnr : d.load nrOff = some d.nr := rfl
  have harg : d.load (argOff 0) = some (d.args 0).toUInt32 := rfl
  have hnewUser (n : UInt32) : (if Cond.jeq.holds d.nr n &&
      Cond.jset.holds (d.args 0).toUInt32 cloneNewuser then some (retErrno eperm) else none) =
      if n = d.nr then d.verdict false .clone else none := by
    rw [holds_newUser]
    simp only [Bool.and_eq_true, holds_jeq_iff, ite_and]
    rfl
  have hclone3 : Decides d.load d.nr (b.deny [.clone3] (retErrno enosys))
      ([.clone3].findSome? (b.out false d)) := decides_deny (by simp [SeccompData.verdict])
  have hunshare : Decides d.load d.nr (b.about .unshare fun n => [.jump .jeq n 0 4,
      .ld (argOff 0), .jump .jset cloneNewuser 0 1, .ret (retErrno eperm), .ld nrOff])
      (b.out false d .unshare) := by
    refine decides_out (decides_about' fun n => ?_) (by simp)
    exact hnewUser n ▸ decides_checkArg hnr harg (Or.inr rfl) .jeq .jset n cloneNewuser _
  have hclone : Decides d.load d.nr (b.about .clone (fun n => [.jump .jeq n 0 3,
      .ld (argOff 0), .jump .jset cloneNewuser 0 1, .ret (retErrno eperm)]) ++ [.ld nrOff])
      (b.out false d .clone) := by
    refine decides_out (decides_about (decides_reload hnr) fun n => ?_) (by simp)
    exact hnewUser n ▸ decides_checkArg hnr harg (Or.inl rfl) .jeq .jset n cloneNewuser _
  have hall := hclone3.append (hunshare.append hclone)
  simpa only [findSome?_cons_eq_or, List.findSome?_nil, Option.or_none, Build.usernsRules,
    List.append_assoc] using hall

theorem decides_socketRules (sandboxingAllowed : Bool) :
    Decides d.load d.nr b.socketRules (b.out sandboxingAllowed d .socket) := by
  refine decides_out (decides_about' fun n => ?_) (by simp)
  have hnr : d.load nrOff = some d.nr := rfl
  have harg : d.load (argOff 0) = some (d.args 0).toUInt32 := rfl
  have hcheck : Decides d.load d.nr [.jump .jeq n 0 4, .ld (argOff 0), .jump .jeq afAlg 0 1,
      .ret (retErrno eperm), .ld nrOff] _ :=
    decides_checkArg hnr harg (Or.inr rfl) .jeq .jeq n afAlg (retErrno eperm)
  simpa only [Bool.and_eq_true, holds_jeq_iff, ite_and, eq_comm (a := afAlg),
    SeccompData.verdict] using hcheck

theorem decides_rebootRules (sandboxingAllowed : Bool) :
    Decides d.load d.nr b.rebootRules (b.out sandboxingAllowed d .reboot) := by
  refine decides_out (decides_about' fun n => ?_) (by simp)
  have hnr : d.load nrOff = some d.nr := rfl
  have harg : d.load (argOff 0) = some (d.args 0).toUInt32 := rfl
  have harg' : d.load (argOff 1) = some (d.args 1).toUInt32 := rfl
  have hcheck : Decides d.load d.nr [.jump .jeq n 0 6, .ld (argOff 0),
      .jump .jeq ksuInstallMagic1 0 3, .ld (argOff 1), .jump .jeq ksuInstallMagic2 0 1,
      .ret (retErrno eperm), .ld nrOff] _ :=
    decides_checkArgs hnr harg harg' .jeq .jeq .jeq n ksuInstallMagic1 ksuInstallMagic2
      (retErrno eperm)
  simpa only [Bool.and_eq_true, holds_jeq_iff, ite_and, eq_comm (a := ksuInstallMagic1),
    eq_comm (a := ksuInstallMagic2), SeccompData.verdict] using hcheck

theorem decides_x32Rules : Decides d.load d.nr b.x32Rules
    (if b.arch = .x86_64 ∧ x32SyscallBit ≤ d.nr then some retKillProcess else none) := by
  unfold Build.x32Rules
  split
  · next harch =>
    have hcheck : Decides d.load d.nr [.jump .jge x32SyscallBit 0 1, .ret retKillProcess] _ :=
      decides_check .jge x32SyscallBit retKillProcess
    simpa only [harch, true_and, Cond.holds, decide_eq_true_eq] using hcheck
  · next harch =>
    rw [if_neg fun h => harch h.1]
    exact decides_nil

theorem decides_userns (sandboxingAllowed : Bool) :
    Decides d.load d.nr ((if sandboxingAllowed then [] else b.usernsRules) ++ [.ld nrOff])
      ([.clone3, .unshare, .clone].findSome? (b.out sandboxingAllowed d)) := by
  cases sandboxingAllowed with
  | false => exact decides_usernsRules b d
  | true =>
    have hnone : [.clone3, .unshare, .clone].findSome? (b.out true d) = none := by
      simp [Build.out, SeccompData.verdict]
    rw [hnone]
    exact decides_reload rfl

/-- The rules behind the header. -/
theorem decides_rules (sandboxingAllowed : Bool) :
    Decides d.load d.nr (b.x32Rules ++ (b.deny killedCalls retKillProcess ++
      (((if sandboxingAllowed then [] else b.usernsRules) ++ [.ld nrOff]) ++ (b.socketRules ++
        ([.ld nrOff] ++ (b.rebootRules ++ b.deny clockCalls (retErrno eperm)))))))
      ((if b.arch = .x86_64 ∧ x32SyscallBit ≤ d.nr then some retKillProcess else none).or
        (Syscall.all.findSome? (b.out sandboxingAllowed d))) := by
  have hkill : Decides d.load d.nr (b.deny killedCalls retKillProcess)
      (killedCalls.findSome? (b.out sandboxingAllowed d)) :=
    decides_deny (by simp [killedCalls, SeccompData.verdict])
  have hclock : Decides d.load d.nr (b.deny clockCalls (retErrno eperm))
      (clockCalls.findSome? (b.out sandboxingAllowed d)) :=
    decides_deny (by simp [clockCalls, SeccompData.verdict])
  have huntested : [.stime, .clockAdjtime64].findSome? (b.out sandboxingAllowed d) = none := by
    simp [Build.out, Build.tests]
  have hsplit : Syscall.all = killedCalls ++ ([.clone3, .unshare, .clone] ++ (.socket :: .reboot ::
      (clockCalls ++ [.stime, .clockAdjtime64]))) := rfl
  rw [hsplit, List.findSome?_append, List.findSome?_append, findSome?_cons_eq_or _ Syscall.socket,
    findSome?_cons_eq_or _ Syscall.reboot, List.findSome?_append, huntested, Option.or_none]
  exact (decides_x32Rules b d).append (hkill.append ((decides_userns b d sandboxingAllowed).append
    ((decides_socketRules b d sandboxingAllowed).append ((decides_reload rfl).append
      ((decides_rebootRules b d sandboxingAllowed).append hclock)))))

theorem run_rules (sandboxingAllowed : Bool) :
    run d.load 0 (b.rules sandboxingAllowed ++ [.ret retAllow]) 0 =
      some (if d.arch ≠ b.arch.audit then retKillProcess
        else if b.arch = .x86_64 ∧ x32SyscallBit ≤ d.nr then retKillProcess
        else (Syscall.all.findSome? (b.out sandboxingAllowed d)).getD retAllow) := by
  have hrules := decides_rules b d sandboxingAllowed [.ret retAllow]
  rw [Build.rules, List.append_assoc]
  change run d.load (if Cond.jeq.holds d.arch b.arch.audit then 1 else 0) (.ret retKillProcess ::
    .ld nrOff :: (_ ++ [.ret retAllow])) d.arch = _
  by_cases harch : d.arch = b.arch.audit
  · rw [if_pos (holds_jeq_iff.2 harch.symm), if_neg (not_not.2 harch)]
    change run d.load 0 (_ ++ [.ret retAllow]) d.nr = _
    rw [hrules]
    split
    · rfl
    · cases Syscall.all.findSome? (b.out sandboxingAllowed d) with
      | none => rfl
      | some v => rfl
  · rw [if_neg fun h => harch (holds_jeq_iff.1 h).symm, if_pos harch]
    rfl

end

/-! ## Numbers -/

theorem Arch.mem_all (arch : Arch) :
    arch ∈ [Arch.aarch64, Arch.x86_64, Arch.arm, Arch.i386, Arch.riscv64] := by
  cases arch <;> decide

theorem Syscall.mem_all (s : Syscall) : s ∈ Syscall.all := by
  cases s <;> decide

/-- No two calls of an architecture have one number. -/
theorem Arch.nr_inj {arch : Arch} {s s' : Syscall} {n : UInt32} (h : arch.nr s = some n)
    (h' : arch.nr s' = some n) : s = s' := by
  have hall : ([Arch.aarch64, Arch.x86_64, Arch.arm, Arch.i386, Arch.riscv64].all fun arch =>
      Syscall.all.all fun s => Syscall.all.all fun s' =>
        arch.nr s == none || arch.nr s != arch.nr s' || s == s') = true := by
    decide +kernel
  have hpair := List.all_eq_true.1 (List.all_eq_true.1 (List.all_eq_true.1 hall arch arch.mem_all) s
    s.mem_all) s' s'.mem_all
  rw [h, h'] at hpair
  simpa using hpair

theorem Arch.nr_lt {arch : Arch} {s : Syscall} {n : UInt32} (h : arch.nr s = some n) :
    n < x32SyscallBit := by
  have hall : ([Arch.aarch64, Arch.x86_64, Arch.arm, Arch.i386, Arch.riscv64].all fun arch =>
      Syscall.all.all fun s => (arch.nr s).all (· < x32SyscallBit)) = true := by
    decide +kernel
  have hone := List.all_eq_true.1 (List.all_eq_true.1 hall arch arch.mem_all) s s.mem_all
  rw [h] at hone
  simpa using hone

/-! ## The filter and the policy -/

section

variable {b : Build} {d : SeccompData} {sandboxingAllowed : Bool}

theorem verdict_ne_allow {s : Syscall} {v : UInt32}
    (h : d.verdict sandboxingAllowed s = some v) : v ≠ retAllow := by
  have hkill : retKillProcess ≠ retAllow := by decide
  have hnosys : retErrno enosys ≠ retAllow := by decide
  have hperm : retErrno eperm ≠ retAllow := by decide
  unfold SeccompData.verdict at h
  grind

theorem find?_nr {s : Syscall} (h : b.arch.nr s = some d.nr) :
    Syscall.all.find? (fun s => b.arch.nr s = some d.nr) = some s := by
  cases hfind : Syscall.all.find? (fun s => b.arch.nr s = some d.nr) with
  | none =>
    have hnone := List.find?_eq_none.1 hfind s s.mem_all
    rw [h] at hnone
    exact absurd (by simp) hnone
  | some t =>
    have ht := List.find?_some hfind
    rw [Arch.nr_inj h (of_decide_eq_true ht)]

/-- The rules say of a call what is meant to be said, if it is tested. -/
theorem findSome?_out {s : Syscall} (h : b.arch.nr s = some d.nr) :
    Syscall.all.findSome? (b.out sandboxingAllowed d) =
      if b.tests s then d.verdict sandboxingAllowed s else none := by
  have hout : b.out sandboxingAllowed d s =
      if b.tests s then d.verdict sandboxingAllowed s else none := by
    simp only [Build.out, h, and_true]
  rw [← hout]
  have hother {t : Syscall} {v : UInt32} (ht : b.out sandboxingAllowed d t = some v) : t = s := by
    unfold Build.out at ht
    rw [Option.ite_none_right_eq_some] at ht
    exact Arch.nr_inj ht.1.2 h
  cases hfind : Syscall.all.findSome? (b.out sandboxingAllowed d) with
  | none => exact (List.findSome?_eq_none_iff.1 hfind s s.mem_all).symm
  | some v =>
    obtain ⟨t, -, ht⟩ := List.exists_of_findSome?_eq_some hfind
    rw [← hother ht, ht]

theorem findSome?_out_of_forall (h : ∀ s, b.arch.nr s ≠ some d.nr) :
    Syscall.all.findSome? (b.out sandboxingAllowed d) = none :=
  List.findSome?_eq_none_iff.2 fun s _ => if_neg fun hs => h s hs.2

end

theorem isPolicy_iff_verdict (b : Build) {privilegedMask : ℕ}
    (h : privilegedMask &&& privNosec = 0) (sandboxingAllowed : Bool) (d : SeccompData) :
    IsPolicy b privilegedMask sandboxingAllowed d ↔
      (if d.arch ≠ b.arch.audit then retKillProcess
        else if b.arch = .x86_64 ∧ x32SyscallBit ≤ d.nr then retKillProcess
        else (Syscall.all.findSome? (b.out sandboxingAllowed d)).getD retAllow) =
      policy b.arch sandboxingAllowed d := by
  have hfilter : applyMinimal b privilegedMask sandboxingAllowed =
      some (b.rules sandboxingAllowed ++ [.ret retAllow]) := if_neg (not_not.2 h)
  have hlen : (b.rules sandboxingAllowed ++ [Insn.ret retAllow]).length ≤ filterSize := by
    rw [List.length_append]
    exact length_rules_le b sandboxingAllowed
  have hjumps := (staysIn_rules b sandboxingAllowed).jumpsInside retAllow
  unfold IsPolicy
  simp only [hfilter, Option.mem_some_iff, exists_eq_left', hlen, hjumps, true_and, run_rules,
    Option.some.injEq]

/-- **The filter is its policy exactly for the calls that it does not miss.** -/
theorem isPolicy_iff (b : Build) {privilegedMask : ℕ} (h : privilegedMask &&& privNosec = 0)
    (sandboxingAllowed : Bool) (d : SeccompData) :
    IsPolicy b privilegedMask sandboxingAllowed d ↔ ¬ IsMissed b sandboxingAllowed d := by
  rw [isPolicy_iff_verdict b h, policy]
  by_cases harch : d.arch = b.arch.audit
  · rw [if_neg (not_not.2 harch), if_neg (not_not.2 harch)]
    by_cases hnr : ∃ s, b.arch.nr s = some d.nr
    · obtain ⟨s, hs⟩ := hnr
      have hx32 : ¬ (b.arch = .x86_64 ∧ x32SyscallBit ≤ d.nr) := fun hx32 =>
        UInt32.not_le.2 (Arch.nr_lt hs) hx32.2
      have hmissed : IsMissed b sandboxingAllowed d ↔
          b.tests s = false ∧ (d.verdict sandboxingAllowed s).isSome = true := by
        constructor
        · rintro ⟨-, t, ht, htests, hverdict⟩
          obtain rfl := Arch.nr_inj hs ht
          exact ⟨htests, hverdict⟩
        · exact fun hmissed => ⟨harch, s, hs, hmissed⟩
      rw [if_neg hx32, if_neg hx32, findSome?_out hs, find?_nr hs, hmissed]
      dsimp only
      cases htests : b.tests s with
      | true => simp
      | false =>
        cases hverdict : d.verdict sandboxingAllowed s with
        | none => simp
        | some v => simpa using (verdict_ne_allow hverdict).symm
    · have hnone := not_exists.1 hnr
      have hfind : Syscall.all.find? (fun s => b.arch.nr s = some d.nr) = none :=
        List.find?_eq_none.2 fun s _ => by simpa using hnone s
      rw [findSome?_out_of_forall hnone, hfind]
      exact iff_of_true rfl fun ⟨_, s, hs, _⟩ => hnr ⟨s, hs⟩
  · rw [if_pos harch, if_pos harch]
    exact iff_of_true rfl fun hmissed => harch hmissed.1

/-- A call without arguments. -/
def call (arch : Arch) (nr : UInt32) : SeccompData := ⟨nr, arch.audit, 0, fun _ => 0⟩

theorem isPolicy_clockSettime : IsPolicy ⟨.arm, fun _ => true⟩ 3 false (call .arm 262) := by
  refine (isPolicy_iff _ (by decide) false _).2 ?_
  rintro ⟨-, s, hs, htests, -⟩
  have hsettime : Syscall.clockSettime = s := Arch.nr_inj (n := 262) rfl hs
  rw [← hsettime] at htests
  cases htests

/-- `stime` is there on `i386`, and sets the clock. -/
theorem not_isPolicy_stime : ¬ ∀ (b : Build) (privilegedMask : ℕ) (sandboxingAllowed : Bool)
    (d : SeccompData), privilegedMask &&& privNosec = 0 →
      IsPolicy b privilegedMask sandboxingAllowed d := by
  intro h
  obtain ⟨filter, hfilter, -, -, hrun⟩ := h ⟨.i386, fun _ => true⟩ 0 false (call .i386 25) rfl
  have hbuilt : applyMinimal ⟨.i386, fun _ => true⟩ 0 false =
      some (Build.rules ⟨.i386, fun _ => true⟩ false ++ [.ret retAllow]) := rfl
  obtain rfl := Option.some.inj (hbuilt.symm.trans hfilter)
  have hdiffers : run (call .i386 25).load 0
      (Build.rules ⟨.i386, fun _ => true⟩ false ++ [.ret retAllow]) 0 ≠
        some (policy .i386 false (call .i386 25)) := by decide +kernel
  exact hdiffers hrun

end Droidspaces.Seccomp
