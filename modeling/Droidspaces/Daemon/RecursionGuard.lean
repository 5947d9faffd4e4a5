import Droidspaces.Cli.PathOptions

/-!
# The guard against recursion

`handle_conn` refuses a request that would run `daemon` or `client`.  It looks at every argument, and
passes over one that follows an element with a dash in front, which it takes for the value of an
option.  `main` goes by `getopt_long`: a flag has no value, and what is behind the command is not a
command.  `isDecidedAsMain_iff` says when the two agree.
-/

namespace Droidspaces.Daemon

open Cli Config Getopt

/-! ## The guard -/

def beginsWithDash (arg : Text) : Bool := arg.head? == some '-'

def isRecursive (arg : Text) : Bool := arg == "daemon".toList || arg == "client".toList

/-- The loop of `handle_conn` over the arguments that are left. -/
def refusesBehind (prev : Option Text) : List Text → Bool
  | [] => false
  | arg :: args =>
    if prev.any beginsWithDash then refusesBehind (some arg) args
    else isRecursive arg || refusesBehind (some arg) args

/-- Whether `handle_conn` refuses a request. -/
def refusesRequest (argv : List Text) : Bool := refusesBehind none argv

/-! ## The discovery pass -/

/-- A value with which the discovery pass ends in an error. -/
def failsDiscovery : Event Opt → Bool
  | .option .name val => !parseAndValidateNames val
  | .option .net val => (cliNetMode val).isNone
  | _ => false

/-- The command that `main` finds in the discovery pass, which goes on to the end if it is not
`run`. -/
def selectedCmd (argv : List Text) : Option Text :=
  if (tokenize options (isStrict argv) argv).events.any failsDiscovery then none
  else discoveredCmd argv

/-! ## What is meant -/

def selectsRecursive (argv : List Text) : Bool := (selectedCmd argv).any isRecursive

def IsDecidedAsMain (argv : List Text) : Prop := refusesRequest argv = selectsRecursive argv

/-- The elements from the first word on, or from what ends the options. -/
def fromCmd (argv : List Text) : List Text := (tokenize options false argv).fromWord

/-- The command is right behind an element with a dash in front: a flag, a value that begins with
one, or a value in the same element. -/
def cmdBehindDash (argv : List Text) : Bool :=
  (tokenize options false argv).beforeWord.getLast?.any beginsWithDash

/-- Behind the command there is a `daemon` or `client` that is not right behind a dash. -/
def HasStray (argv : List Text) : Prop :=
  ∃ before prev arg after, fromCmd argv = before ++ prev :: arg :: after ∧
    beginsWithDash prev = false ∧ isRecursive arg = true

/-! ## The loop -/

theorem refusesBehind_append (prev : Option Text) (front rest : List Text) :
    refusesBehind prev (front ++ rest) =
      (refusesBehind prev front || refusesBehind (front.getLast?.or prev) rest) := by
  induction front generalizing prev with
  | nil => rfl
  | cons arg front ih =>
    have hlast : (arg :: front).getLast?.or prev = front.getLast?.or (some arg) := by
      cases front with
      | nil => rfl
      | cons b front => rw [List.getLast?_cons_cons, List.getLast?_cons, Option.some_or, Option.some_or]
    rw [List.cons_append, refusesBehind, refusesBehind, ih, hlast]
    split
    · rfl
    · rw [Bool.or_assoc]

theorem refusesBehind_some_iff (prev : Text) (l : List Text) :
    refusesBehind (some prev) l = true ↔ ∃ before p arg after, prev :: l = before ++ p :: arg :: after ∧
      beginsWithDash p = false ∧ isRecursive arg = true := by
  induction l generalizing prev with
  | nil =>
    refine iff_of_false Bool.false_ne_true ?_
    rintro ⟨before, p, arg, after, heq, -⟩
    have hlen := congrArg List.length heq
    simp only [List.length_cons, List.length_append, List.length_nil] at hlen
    omega
  | cons arg l ih =>
    have hstep : refusesBehind (some prev) (arg :: l) = true ↔
        beginsWithDash prev = false ∧ isRecursive arg = true ∨ refusesBehind (some arg) l = true := by
      rw [refusesBehind, Option.any_some]
      cases beginsWithDash prev with
      | true => simp
      | false => simp
    rw [hstep, ih]
    constructor
    · rintro (⟨hdash, hrec⟩ | ⟨before, p, a, after, heq, hdash, hrec⟩)
      · exact ⟨[], prev, arg, l, rfl, hdash, hrec⟩
      · exact ⟨prev :: before, p, a, after, congrArg (prev :: ·) heq, hdash, hrec⟩
    · rintro ⟨before, p, a, after, heq, hdash, hrec⟩
      cases before with
      | nil =>
        obtain ⟨rfl, rest⟩ := List.cons.inj heq
        obtain ⟨rfl, -⟩ := List.cons.inj rest
        exact Or.inl ⟨hdash, hrec⟩
      | cons b before => exact Or.inr ⟨before, p, a, after, (List.cons.inj heq).2, hdash, hrec⟩

/-! ## Options -/

theorem beginsWithDash_of_isOption {a : Text} (h : isOption a = true) : beginsWithDash a = true :=
  (Bool.and_eq_true_iff.1 h).1

theorem isRecursive_eq_false {a : Text} (h : beginsWithDash a = true) : isRecursive a = false := by
  unfold beginsWithDash at h
  unfold isRecursive
  rw [Bool.or_eq_false_iff, beq_eq_false_iff_ne, beq_eq_false_iff_ne]
  constructor
  · rintro rfl
    cases h
  · rintro rfl
    cases h

/-- **Options and their values are never taken for a command.** -/
theorem refusesBehind_options {items : List (Item Opt)} (h : ∀ it ∈ items, ∃ a, isOption a = true ∧
    (it.elements = [a] ∨ ∃ b, it.elements = [a, b])) (prev : Option Text) :
    refusesBehind prev (items.flatMap Item.elements) = false := by
  induction items generalizing prev with
  | nil => rfl
  | cons it items ih =>
    obtain ⟨⟨a, hoption, helements⟩, hitems⟩ := List.forall_mem_cons.1 h
    have hdash := beginsWithDash_of_isOption hoption
    rw [List.flatMap_cons, refusesBehind_append, ih hitems, Bool.or_false]
    rcases helements with helements | ⟨b, helements⟩
    · rw [helements, refusesBehind, isRecursive_eq_false hdash]
      exact ite_self _
    · rw [helements, refusesBehind, refusesBehind, isRecursive_eq_false hdash, Option.any_some, hdash]
      exact ite_self _

/-! ## Commands -/

/-- What the guard refuses, in terms of what `getopt_long` reads. -/
theorem refusesRequest_iff (argv : List Text) : refusesRequest argv = true ↔
    cmdBehindDash argv = false ∧ (fromCmd argv).head?.any isRecursive = true ∨ HasStray argv := by
  have hoptions : refusesBehind none (tokenize options false argv).beforeWord = false :=
    refusesBehind_options (fun it hit => elements_of_isWord_eq_false
      ((List.takeWhile_sublist _).subset hit) (by simpa using List.mem_takeWhile_imp hit)) none
  have hargv : (tokenize options false argv).beforeWord ++ fromCmd argv = argv :=
    beforeWord_append_fromWord argv
  have hsplit : refusesRequest argv =
      refusesBehind (tokenize options false argv).beforeWord.getLast? (fromCmd argv) := by
    conv_lhs => rw [← hargv]
    rw [refusesRequest, refusesBehind_append, hoptions, Bool.false_or, Option.or_none]
  rw [hsplit, HasStray, cmdBehindDash]
  cases fromCmd argv with
  | nil => simp [refusesBehind]
  | cons cmd behind =>
    rw [← refusesBehind_some_iff, refusesBehind, List.head?_cons, Option.any_some]
    cases (tokenize options false argv).beforeWord.getLast?.any beginsWithDash with
    | true => simp
    | false => simp

theorem head?_fromCmd {argv : List Text} {cmd : Text} (h : discoveredCmd argv = some cmd) :
    (fromCmd argv).head? = some cmd := head?_fromWord h

/-- **The guard decides as `main` exactly if the command does not look like a value and no other
argument looks like a command.** -/
theorem isDecidedAsMain_iff (argv : List Text) : IsDecidedAsMain argv ↔
    if selectsRecursive argv then cmdBehindDash argv = false ∨ HasStray argv
    else ¬ HasStray argv ∧ ((fromCmd argv).head?.any isRecursive = true → cmdBehindDash argv = true) := by
  have hrefuses := refusesRequest_iff argv
  unfold IsDecidedAsMain
  cases hselects : selectsRecursive argv with
  | false =>
    have hvalue : ¬ (cmdBehindDash argv = false ∧ (fromCmd argv).head?.any isRecursive = true) ↔
        ((fromCmd argv).head?.any isRecursive = true → cmdBehindDash argv = true) := by
      rw [and_comm, not_and, Bool.not_eq_false]
    rw [if_neg Bool.false_ne_true, ← Bool.not_eq_true, hrefuses, not_or, and_comm, hvalue]
  | true =>
    have hhead : (fromCmd argv).head?.any isRecursive = true := by
      unfold selectsRecursive selectedCmd at hselects
      split at hselects
      · cases hselects
      · obtain ⟨cmd, hcmd, hrec⟩ := (Option.any_eq_true _ _).1 hselects
        rw [head?_fromCmd hcmd]
        exact hrec
    rw [if_pos rfl, hrefuses, hhead, and_iff_left rfl]

theorem not_isDecidedAsMain_flag : ¬ ∀ argv, IsDecidedAsMain argv := by
  intro h
  have hflag : refusesRequest ["-f".toList, "daemon".toList] ≠
      selectsRecursive ["-f".toList, "daemon".toList] := by decide +kernel
  exact hflag (h _)

end Droidspaces.Daemon
