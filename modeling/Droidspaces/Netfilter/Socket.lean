import Droidspaces.Netfilter.Table
import Droidspaces.Transition.Program

/-!
# The raw socket

A caller reads a whole table and puts a whole table in its place, or leaves it to the `iptables`
binary.  The kernel answers `EAGAIN` if the table was replaced in between; then the table is read
again and the edit made anew, `submit`.

What is said of an edit is said of all that is submitted: `submit_follows`.
-/

namespace Droidspaces.Netfilter

open Transition

inductive TableName where
  | filter
  | nat
  | mangle
  deriving DecidableEq

abbrev Errno := ℕ

def enoent : Errno := 2
def eagain : Errno := 11
def eacces : Errno := 13
def enoprotoopt : Errno := 92
def eopnotsupp : Errno := 95

/-- What the code asks of the kernel and of the `iptables` binary; a call of the binary is told by
what it is for. -/
inductive Op (Call : Type) where
  | shouldUseRawApi
  | openRawSocket
  | getTable (name : TableName)
  /-- `IPT_SO_SET_REPLACE` -/
  | setReplace (name : TableName) (table : Table)
  | runCommandQuiet (cmd : Call)

abbrev Res {Call : Type} : Op Call → Type
  | .shouldUseRawApi => Bool
  | .openRawSocket => Bool
  | .getTable _ => Except Errno Table
  | .setReplace _ _ => Except Errno Unit
  | .runCommandQuiet _ => Except Errno Unit

variable {Call : Type}

def shouldUseRawApi : Prog (Op Call) Res Bool := Prog.perform Op.shouldUseRawApi

def openRawSocket : Prog (Op Call) Res Bool := Prog.perform Op.openRawSocket

def getTable (name : TableName) : Prog (Op Call) Res (Except Errno Table) :=
  Prog.perform (Op.getTable name)

def setReplace (name : TableName) (T : Table) : Prog (Op Call) Res (Except Errno Unit) :=
  Prog.perform (Op.setReplace name T)

def runCommandQuiet (cmd : Call) : Prog (Op Call) Res (Except Errno Unit) :=
  Prog.perform (Op.runCommandQuiet cmd)

/-! ## Replacing a table -/

/-- The loop of `insert_rule_at_hook` and `remove_matching_rules`.  Where `edit` has nothing to
submit, nothing is submitted. -/
def submit (name : TableName) (edit : Table → Option Table) :
    ℕ → Table → Prog (Op Call) Res (Except Errno Unit)
  | 0, _ => pure (.error eagain)
  | retries + 1, T =>
    match edit T with
    | none => pure (.ok ())
    | some T' => do
      match ← setReplace name T' with
      | .ok _ => pure (.ok ())
      | .error err =>
        if err = eagain ∧ 0 < retries then
          match ← getTable name with
          | .error _ => pure (.error eagain)
          | .ok T => submit name edit retries T
        else pure (.error err)

/-- The table that was read last. -/
def lastRead (T : Table) : (op : Op Call) → Res op → Table
  | .getTable _, .ok T => T
  | _, _ => T

/-- What is submitted for a table. -/
def Submits (R : Table → Table → Prop) (T : Table) : Op Call → Prop
  | .setReplace _ T' => R T T'
  | _ => True

/-- **Every submission is the edit of the table that was read last.** -/
theorem submit_follows {R : Table → Table → Prop} {edit : Table → Option Table}
    (hedit : ∀ T T', edit T = some T' → R T T') (name : TableName) (retries : ℕ) (T : Table) :
    (submit name edit retries T : Prog (Op Call) Res _).Follows lastRead (Submits R) T := by
  induction retries generalizing T with
  | zero => trivial
  | succ retries ih =>
    rw [submit]
    split
    · trivial
    · next T' hT' =>
      simp only [setReplace, getTable, Prog.perform_bind]
      refine ⟨hedit T T' hT', fun answer => ?_⟩
      cases answer with
      | ok _ => trivial
      | error err =>
        simp only [lastRead]
        split
        · refine ⟨trivial, fun answer => ?_⟩
          cases answer with
          | error _ => trivial
          | ok S => exact ih S
        · trivial

/-! ## A kernel that accepts everything -/

/-- Every table is read as it was submitted. -/
def accepting (tables : TableName → Table) : (op : Op Call) → (TableName → Table) × Res op
  | .shouldUseRawApi => (tables, true)
  | .openRawSocket => (tables, true)
  | .getTable name => (tables, .ok (tables name))
  | .setReplace name T => (Function.update tables name T, .ok ())
  | .runCommandQuiet _ => (tables, .ok ())

theorem runIn_submit (name : TableName) (edit : Table → Option Table) (retries : ℕ) (T : Table)
    (tables : TableName → Table) :
    (submit name edit (retries + 1) T : Prog (Op Call) Res _).runIn accepting tables =
      ((edit T).elim tables (Function.update tables name), .ok ()) := by
  rw [submit]
  cases edit T <;> rfl

end Droidspaces.Netfilter
