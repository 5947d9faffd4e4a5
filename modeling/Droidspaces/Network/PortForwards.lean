import Droidspaces.Network.PortRecords
import Droidspaces.Transition.RelyGuarantee
import Mathlib.Algebra.Order.Group.Multiset

/-!
# Port forwards of one container

A container's port forwards are installed any number of times and removed once, while other
programs delete rules at any point.  The kernel is a multiset of rules; the command
`iptables` may refuse an insertion, and a deletion removes one equal copy.

The code records a mapping's `FORWARD` rule together with its `DNAT` rule, so when both `DNAT`
insertions fail and the `FORWARD` insertion does not, no record tells of it
(`forward_rule_left`).  Apart from these rules nothing is left (`rules_le_of_removed`): the rules in
the kernel never exceed those from before, those in the state file, and these.
-/

namespace Droidspaces.PortForwards

open Transition
open Config (PortForward)

/-! ## The kernel and the state file -/

inductive Chain where
  | prerouting
  | forward
  | output
  | postrouting

/-- What the code finds outside itself. -/
structure Tools (R : Type) where
  /-- The rule that `iptables` makes of its arguments. -/
  compile : RuleSpec → R
  /-- The rules of a chain that the pipeline over `iptables-save` finds for an address. -/
  swept : Chain → Text → R → Bool
  /-- `inet_pton(AF_INET, ip, _) == 1` -/
  inetPton : Text → Bool

structure World (R : Type) where
  rules : Multiset R
  /-- `pf_<container_ip>.state` -/
  file : Option Text

inductive Op where
  | insert (spec : RuleSpec)
  | delete (spec : RuleSpec)
  | readState
  | unlinkState
  | truncateState
  | appendState (line : Text)
  | addrtypeAvailable
  | sweep (chain : Chain) (ip : Text)
  /-- The caller installs the port forwards once more, or removes them. -/
  | again

abbrev Op.Res : Op → Type
  | insert _ | addrtypeAvailable | again => Bool
  | readState => Option Text
  | _ => Unit

/-! ## The source -/

abbrev Code := Prog Op Op.Res

def act (op : Op) : Code op.Res := Prog.perform op

def removeRules : List RuleSpec → Code Unit
  | [] => return ()
  | spec :: specs => do
    act (.delete spec)
    removeRules specs

def removeLines (ip : Text) : List Text → Code Unit
  | [] => return ()
  | line :: lines => do
    removeRules (lineDeletes ip line)
    removeLines ip lines

def pfStateRemove (ip : Text) : Code Bool := do
  match ← act .readState with
  | none => return false
  | some text =>
    removeLines ip (readLines text)
    act .unlinkState
    return true

def pfStateAppend (r : Record) : Code Unit := act (.appendState (r.line ++ ['\n']))

/-- The `PREROUTING` rule, and the variant that was inserted. -/
def insertDnat (useAddrtype : Bool) (proto : Text) (ports : PortTexts) :
    Code (Option Variant) := do
  if useAddrtype then
    if ← act (.insert (.dnat true proto ports.host ports.dest)) then
      return some .addrtype
  if ← act (.insert (.dnat false proto ports.host ports.dest)) then
    return some .basic
  return none

def recordIf (inserted : Option Variant) (proto : Text) (ports : PortTexts) : Code Unit :=
  match inserted with
  | some variant => pfStateAppend ⟨variant, proto, ports⟩
  | none => return ()

/-- One port forward. -/
def addPortforward (useAddrtype : Bool) (ip : Text) (pf : PortForward) : Code Unit := do
  let ports := pfFmtPorts pf ip
  let inserted ← insertDnat useAddrtype pf.proto ports
  let _ ← act (.insert (.forward pf.proto ip ports.cont))
  recordIf inserted pf.proto ports
  let loOk ← act (.insert (.localOut pf.proto ports.host ports.dest))
  let masqOk ← act (.insert (.localPost pf.proto ip ports.cont))
  recordIf (if loOk then some .localOut else none) pf.proto ports
  recordIf (if masqOk then some .localPost else none) pf.proto ports

def addAll (useAddrtype : Bool) (ip : Text) : List PortForward → Code Unit
  | [] => return ()
  | pf :: pfs => do
    addPortforward useAddrtype ip pf
    addAll useAddrtype ip pfs

/-- `ds_ipt_add_portforwards` -/
def addPortforwards (pfs : List PortForward) (ip : Text) : Code Unit :=
  if pfs.isEmpty || ip.isEmpty then return ()
  else do
    let _ ← pfStateRemove ip
    act .truncateState
    let useAddrtype ← act .addrtypeAvailable
    addAll useAddrtype ip pfs

/-- The configuration when the container stops. -/
structure StopConfig where
  natContainerIp : Text
  staticNatIp : Text
  portForwards : List PortForward

def StopConfig.containerIp (cfg : StopConfig) : Text :=
  if cfg.natContainerIp.isEmpty then cfg.staticNatIp else cfg.natContainerIp

/-- The rules that pass 2 deletes for a port forward. -/
def configRules (ip : Text) (pf : PortForward) : List RuleSpec :=
  let ports := pfFmtPorts pf ip
  [.dnat true pf.proto ports.host ports.dest, .dnat false pf.proto ports.host ports.dest,
    .forward pf.proto ip ports.cont, .localOut pf.proto ports.host ports.dest,
    .localPost pf.proto ip ports.cont]

def StopConfig.deletes (cfg : StopConfig) : List RuleSpec :=
  cfg.portForwards.flatMap (configRules cfg.containerIp)

section Machine

variable {R : Type} [DecidableEq R] (T : Tools R)

/-- `ds_ipt_remove_portforwards` -/
def removePortforwards (cfg : StopConfig) : Code Unit :=
  let ip := cfg.containerIp
  if ip.isEmpty then return ()
  else do
    let hadState ← pfStateRemove ip
    removeRules cfg.deletes
    if !hadState && T.inetPton ip then
      act (.sweep .prerouting ip)
      act (.sweep .forward ip)
      act (.sweep .output ip)
      act (.sweep .postrouting ip)
    else
      return ()

/-! ## Runs -/

/-- What one operation does; the number decides what is open. -/
def World.perform (w : World R) : (op : Op) → ℕ → World R × op.Res
  | .insert spec, choice =>
    if choice = 0 then ({ w with rules := T.compile spec ::ₘ w.rules }, true) else (w, false)
  | .delete spec, _ => ({ w with rules := w.rules.erase (T.compile spec) }, ())
  | .readState, _ => (w, w.file)
  | .unlinkState, _ => ({ w with file := none }, ())
  | .truncateState, _ => ({ w with file := some [] }, ())
  | .appendState line, _ => ({ w with file := w.file.map (· ++ line) }, ())
  | .addrtypeAvailable, choice => (w, choice = 0)
  | .sweep chain ip, _ => ({ w with rules := w.rules.filter fun r => !T.swept chain ip r }, ())
  | .again, choice => (w, choice = 0)

inductive Entry where
  | idle
  | done
  deriving DecidableEq

variable (pfs : List PortForward) (cfg : StopConfig)

def Entry.code : Entry → Code Entry
  | .idle => do
    if ← act .again then
      addPortforwards pfs cfg.containerIp
      return .idle
    else
      removePortforwards T cfg
      return .done
  | .done => return .done

/-- The code for one container; an environment event leaves only some of the rules. -/
def portForwards : Machine Unit (World R) Op Entry (Multiset R) Op.Res where
  code := Entry.code T pfs cfg
  exec w _ op choice := some (w.perform T op choice)
  child _ _ := none
  runnable _ _ := true
  env w left := if left ≤ w.rules then some ({ w with rules := left }, none) else none

/-- What the outcomes of the insertions have been. -/
structure History (R : Type) where
  /-- The last `DNAT` insertion succeeded. -/
  dnat : Bool := false
  /-- `FORWARD` rules of mappings whose `DNAT` insertions failed. -/
  unrecorded : Multiset R := 0

def History.note (h : History R) : (op : Op) → op.Res → History R
  | .insert (.dnat ..), ok => { h with dnat := ok }
  | .insert (.forward proto ip cont), ok =>
    if ok = true ∧ h.dnat = false then
      { h with unrecorded := T.compile (.forward proto ip cont) ::ₘ h.unrecorded }
    else h
  | _, _ => h

/-- The machine with the history of its insertions. -/
def observed : Machine Unit (World R × History R) Op Entry (Multiset R) Op.Res :=
  (portForwards T pfs cfg).withGhost (fun h _ _ op r _ => h.note T op r) fun h _ _ _ => h

/-! ## What is known between two operations -/

/-- What `iptables` makes of a list of commands. -/
def compiled (specs : List RuleSpec) : Multiset R := specs.map T.compile

/-- The rules that the reader deletes for a state file. -/
def recorded (ip : Text) (file : Option Text) : Multiset R :=
  compiled T ((readLines (file.getD [])).flatMap (lineDeletes ip))

/-- The rules of a list of records. -/
def recordsRules (ip : Text) (records : List Record) : Multiset R :=
  compiled T (records.flatMap (Record.rules ip))

variable {T pfs cfg}

section

omit [DecidableEq R]

@[simp] theorem compiled_nil : compiled T [] = 0 := rfl

@[simp] theorem compiled_cons (spec : RuleSpec) (specs : List RuleSpec) :
    compiled T (spec :: specs) = T.compile spec ::ₘ compiled T specs := rfl

@[simp] theorem compiled_append (specs specs' : List RuleSpec) :
    compiled T (specs ++ specs') = compiled T specs + compiled T specs' := by
  rw [compiled, List.map_append, ← Multiset.coe_add, compiled, compiled]

theorem recorded_lines {ip : Text} (hip : ip.length ≤ 15) {records : List Record}
    (h : ∀ r ∈ records, r.Fits) :
    recorded T ip (some (records.flatMap fun r => r.line ++ ['\n'])) =
      recordsRules T ip records := by
  have hlines : (records.map fun r => r.line ++ ['\n']).flatMap (lineDeletes ip) =
      records.flatMap (Record.rules ip) := by
    rw [List.flatMap_map]
    exact List.flatMap_congr fun r hr => lineDeletes_line (h r hr) hip
  rw [recorded, recordsRules, Option.getD_some, readLines_lines h, hlines]

theorem recordsRules_concat (ip : Text) (records : List Record) (r : Record) :
    recordsRules T ip (records ++ [r]) =
      recordsRules T ip records + compiled T (r.rules ip) := by
  rw [recordsRules, recordsRules, List.flatMap_append, compiled_append, List.flatMap_singleton]

end

/-- Everything in the kernel is among `X`, with a state file and a history. -/
structure Within (X : Multiset R) (file : Option Text) (h : History R) (w : World R × History R) :
    Prop where
  rules : w.1.rules ≤ X
  file : w.1.file = file
  history : w.2 = h

/-- The state file is being written: everything in the kernel is among `X`, the records and what
was inserted without a record. -/
structure Recording (ip : Text) (X : Multiset R) (dnat : Bool) (w : World R × History R) :
    Prop where
  dnat : w.2.dnat = dnat
  rules : ∃ records : List Record, (∀ r ∈ records, r.Fits) ∧
    w.1.file = some (records.flatMap fun r => r.line ++ ['\n']) ∧
    w.1.rules ≤ X + recordsRules T ip records + w.2.unrecorded

/-- Between two calls, the rules in the kernel are among those from before, the recorded and the
unrecorded ones. -/
def Accounted (ip : Text) (before : Multiset R) (w : World R × History R) : Prop :=
  w.1.rules ≤ before + recorded T ip w.1.file + w.2.unrecorded

/-- The contract of the code. -/
def contract (T : Tools R) (pfs : List PortForward) (cfg : StopConfig) (before : Multiset R) :
    Contract (observed T pfs cfg) where
  inv _ := True
  rely _ w w' := w'.1.rules ≤ w.1.rules ∧ w'.1.file = w.1.file ∧ w'.2 = w.2
  guard _ _ _ := True
  guardEnv _ _ := True
  safe _ _ _ := True
  pre
    | .idle, _, w => Accounted (T := T) cfg.containerIp before w
    | .done, _, w => w.2.unrecorded ≤ compiled T cfg.deletes → w.1.rules ≤ before
  rely_refl _ _ := ⟨le_refl _, rfl, rfl⟩
  rely_trans _ _ _ _ h h' := ⟨h'.1.trans h.1, h'.2.1.trans h.2.1, h'.2.2.trans h.2.2⟩

variable {before X : Multiset R} {ip : Text} {file : Option Text} {h : History R} {dnat : Bool}
  {w : World R × History R} {α : Type} {Q : α → World R × History R → Prop}

theorem within_stable : (contract T pfs cfg before).Stable () (Within X file h) :=
  fun _ _ _ hu hrely _ =>
    ⟨hrely.1.trans hu.rules, hrely.2.1.trans hu.file, hrely.2.2.trans hu.history⟩

theorem recording_stable :
    (contract T pfs cfg before).Stable () (Recording (T := T) ip X dnat) := by
  rintro u v _ ⟨hdnat, records, hfits, hfile, hrules⟩ hrely _
  refine ⟨by rw [hrely.2.2, hdnat], records, hfits, hrely.2.1.trans hfile, ?_⟩
  rw [hrely.2.2]
  exact hrely.1.trans hrules

/-- One operation from a stable state of knowledge. -/
theorem wp_act {K : World R × History R → Prop} {op : Op} {k : op.Res → Code α}
    (hstable : (contract T pfs cfg before).Stable () K) (hK : K w)
    (hnext : ∀ v, K v → ∀ choice,
      (contract T pfs cfg before).wp () (k (v.1.perform T op choice).2) Q
        ((v.1.perform T op choice).1, v.2.note T op (v.1.perform T op choice).2)) :
    (contract T pfs cfg before).wp () (act op >>= k) Q w := by
  refine Contract.wp_perform hstable trivial hK fun v hv _ _ _ choice v' r hexec => ?_
  obtain ⟨rfl, rfl⟩ : v' = ((v.1.perform T op choice).1,
      v.2.note T op (v.1.perform T op choice).2) ∧ r = (v.1.perform T op choice).2 := by
    have heq := Option.some.inj hexec
    exact ⟨(congrArg Prod.fst heq).symm, (congrArg Prod.snd heq).symm⟩
  exact ⟨⟨trivial, trivial, fun q hq => absurd rfl hq, fun _ _ hchild => by cases hchild⟩,
    fun _ => hnext v hv choice⟩

/-! ## Removing -/

theorem wp_removeRules (specs : List RuleSpec) (hw : Within (X + compiled T specs) file h w) :
    (contract T pfs cfg before).wp () (removeRules specs) (fun _ => Within X file h) w := by
  induction specs generalizing w with
  | nil =>
    refine Contract.wp_ret_of_stable within_stable trivial ⟨?_, hw.file, hw.history⟩
    simpa using hw.rules
  | cons spec specs ih =>
    refine wp_act within_stable hw fun v hv choice => ih ⟨?_, hv.file, hv.history⟩
    have hrules := hv.rules
    rw [compiled_cons, Multiset.add_cons] at hrules
    exact Multiset.erase_le_iff_le_cons.2 hrules

theorem wp_removeLines (lines : List Text)
    (hw : Within (X + compiled T (lines.flatMap (lineDeletes ip))) file h w) :
    (contract T pfs cfg before).wp () (removeLines ip lines) (fun _ => Within X file h) w := by
  induction lines generalizing w with
  | nil =>
    refine Contract.wp_ret_of_stable within_stable trivial ⟨?_, hw.file, hw.history⟩
    simpa using hw.rules
  | cons line lines ih =>
    have hsplit : Within (X + compiled T (lines.flatMap (lineDeletes ip)) +
        compiled T (lineDeletes ip line)) file h w := by
      refine ⟨hw.rules.trans_eq ?_, hw.file, hw.history⟩
      rw [List.flatMap_cons, compiled_append, add_assoc, add_comm (compiled T _)]
    exact Contract.wp_seq (wp_removeRules (lineDeletes ip line) hsplit)
      fun _ v _ hv => ih hv

/-- **The recorded rules are deleted, and the records with them.** -/
theorem wp_pfStateRemove (hw : Within (X + recorded T ip file) file h w) :
    (contract T pfs cfg before).wp () (pfStateRemove ip) (fun _ => Within X none h) w := by
  refine wp_act within_stable hw fun v hv choice => ?_
  have hanswer : (v.1.perform T .readState choice).2 = file := hv.file
  rw [hanswer]
  cases file with
  | none =>
    have hrules : v.1.rules ≤ X := by
      simpa [recorded, readLines, Config.fgets] using hv.rules
    exact Contract.wp_ret_of_stable within_stable trivial ⟨hrules, hv.file, hv.history⟩
  | some text =>
    refine Contract.wp_seq (wp_removeLines (readLines text) hv)
      fun _ u _ hu => ?_
    refine wp_act within_stable hu fun u' hu' _ => ?_
    exact Contract.wp_ret_of_stable within_stable trivial ⟨hu'.rules, rfl, hu'.history⟩

theorem wp_sweep {chain : Chain} {k : Unit → Code α} (hw : Within X file h w)
    (hnext : ∀ v, Within X file h v → (contract T pfs cfg before).wp () (k ()) Q v) :
    (contract T pfs cfg before).wp () (act (.sweep chain ip) >>= k) Q w :=
  wp_act within_stable hw fun _ hv _ =>
    hnext _ ⟨(Multiset.filter_le _ _).trans hv.rules, hv.file, hv.history⟩

theorem wp_removePortforwards (hip : cfg.containerIp ≠ [])
    (hw : Within (X + compiled T cfg.deletes + recorded T cfg.containerIp file) file h w) :
    (contract T pfs cfg before).wp () (removePortforwards T cfg) (fun _ => Within X none h) w := by
  have hnot : cfg.containerIp.isEmpty = false := by simpa using hip
  simp only [removePortforwards, hnot]
  refine Contract.wp_seq (wp_pfStateRemove hw) fun hadState u _ hu => ?_
  refine Contract.wp_seq (wp_removeRules cfg.deletes hu) fun _ v _ hv => ?_
  split
  · refine wp_sweep hv fun v₁ h₁ => wp_sweep h₁ fun v₂ h₂ => wp_sweep h₂ fun v₃ h₃ => ?_
    refine wp_act (k := fun _ => pure ()) within_stable h₃ fun v₄ h₄ _ => ?_
    exact Contract.wp_ret_of_stable within_stable trivial
      ⟨(Multiset.filter_le _ _).trans h₄.rules, h₄.file, h₄.history⟩
  · exact Contract.wp_ret_of_stable within_stable trivial hv

/-! ## Installing -/

omit [DecidableEq R] in
theorem recording_mono {Y : Multiset R} (hw : Recording (T := T) ip X dnat w) (hXY : X ≤ Y) :
    Recording (T := T) ip Y dnat w := by
  obtain ⟨hdnat, records, hfits, hfile, hrules⟩ := hw
  exact ⟨hdnat, records, hfits, hfile,
    hrules.trans (add_le_add_left (add_le_add_left hXY _) _)⟩

/-- What an insertion adds. -/
def addedRules (ok : Bool) (spec : RuleSpec) : List RuleSpec := if ok then [spec] else []

/-- An insertion, when the history only sees whether a `DNAT` rule went in. -/
theorem wp_insert {spec : RuleSpec} {k : Bool → Code α} (dnat' : Bool → Bool)
    (hnote : ∀ (h : History R) ok, h.dnat = dnat →
      h.note T (.insert spec) ok = { h with dnat := dnat' ok })
    (hw : Recording (T := T) ip X dnat w)
    (hnext : ∀ ok v, Recording (T := T) ip (X + compiled T (addedRules ok spec)) (dnat' ok) v →
      (contract T pfs cfg before).wp () (k ok) Q v) :
    (contract T pfs cfg before).wp () (act (.insert spec) >>= k) Q w := by
  refine wp_act recording_stable hw fun v hv choice => hnext _ _ ?_
  obtain ⟨hdnat, records, hfits, hfile, hrules⟩ := hv
  rw [hnote _ _ hdnat]
  refine ⟨rfl, records, hfits, ?_, ?_⟩
  · cases choice <;> exact hfile
  cases choice with
  | zero =>
    show T.compile spec ::ₘ v.1.rules ≤ X + T.compile spec ::ₘ 0 + _ + v.2.unrecorded
    rw [Multiset.add_cons, add_zero, Multiset.cons_add, Multiset.cons_add]
    exact Multiset.cons_le_cons _ hrules
  | succ n =>
    show v.1.rules ≤ X + 0 + _ + v.2.unrecorded
    rwa [add_zero]

/-- The `FORWARD` rule is among the unrecorded ones if its mapping has no `DNAT` rule. -/
theorem wp_insertForward {proto cont : Text} {k : Bool → Code α}
    (hw : Recording (T := T) ip X dnat w)
    (hnext : ∀ ok v, Recording (T := T) ip
      (X + compiled T (addedRules dnat (.forward proto ip cont))) dnat v →
      (contract T pfs cfg before).wp () (k ok) Q v) :
    (contract T pfs cfg before).wp () (act (.insert (.forward proto ip cont)) >>= k) Q w := by
  refine wp_act recording_stable hw fun v hv choice => hnext _ _ ?_
  obtain ⟨hdnat, records, hfits, hfile, hrules⟩ := hv
  cases choice with
  | zero =>
    show Recording ip _ dnat (⟨T.compile (.forward proto ip cont) ::ₘ v.1.rules, v.1.file⟩,
      v.2.note T (.insert (.forward proto ip cont)) true)
    have hrules' := Multiset.cons_le_cons (T.compile (.forward proto ip cont)) hrules
    cases dnat with
    | true =>
      rw [show v.2.note T (.insert (.forward proto ip cont)) true = v.2 by
        simp [History.note, hdnat]]
      refine ⟨hdnat, records, hfits, hfile, hrules'.trans_eq ?_⟩
      simp only [addedRules, if_true, compiled_cons, compiled_nil, Multiset.add_cons, add_zero,
        Multiset.cons_add]
    | false =>
      rw [show v.2.note T (.insert (.forward proto ip cont)) true =
        { v.2 with unrecorded := T.compile (.forward proto ip cont) ::ₘ v.2.unrecorded } by
          simp [History.note, hdnat]]
      refine ⟨hdnat, records, hfits, hfile, hrules'.trans_eq ?_⟩
      simp [addedRules]
  | succ n =>
    show Recording ip _ dnat (v.1, v.2.note T (.insert (.forward proto ip cont)) false)
    rw [show v.2.note T (.insert (.forward proto ip cont)) false = v.2 by simp [History.note]]
    exact recording_mono ⟨hdnat, records, hfits, hfile, hrules⟩ (Multiset.le_add_right _ _)

/-- **What is recorded need not be remembered.** -/
theorem wp_pfStateAppend {r : Record} (hr : r.Fits)
    (hw : Recording (T := T) ip (X + compiled T (r.rules ip)) dnat w) :
    (contract T pfs cfg before).wp () (pfStateAppend r)
      (fun _ => Recording (T := T) ip X dnat) w := by
  refine wp_act (k := fun _ => pure ()) recording_stable hw fun v hv _ => ?_
  obtain ⟨hdnat, records, hfits, hfile, hrules⟩ := hv
  refine Contract.wp_ret_of_stable recording_stable trivial
    ⟨hdnat, records ++ [r], ?_, ?_, ?_⟩
  · intro r' hr'
    rcases List.mem_append.1 hr' with hr' | hr'
    · exact hfits r' hr'
    · exact List.mem_singleton.1 hr' ▸ hr
  · simp [World.perform, hfile]
  · refine hrules.trans_eq ?_
    rw [recordsRules_concat, ← add_assoc, add_right_comm X]
    rfl

/-- The rules that the record of an insertion stands for. -/
def insertedRules (ip : Text) (inserted : Option Variant) (proto : Text) (ports : PortTexts) :
    List RuleSpec :=
  match inserted with
  | some variant => Record.rules ip ⟨variant, proto, ports⟩
  | none => []

theorem wp_recordIf {inserted : Option Variant} {proto : Text} {ports : PortTexts}
    (hfits : ∀ variant, Record.Fits ⟨variant, proto, ports⟩)
    (hw : Recording (T := T) ip (X + compiled T (insertedRules ip inserted proto ports)) dnat w) :
    (contract T pfs cfg before).wp () (recordIf inserted proto ports)
      (fun _ => Recording (T := T) ip X dnat) w := by
  cases inserted with
  | none =>
    refine Contract.wp_ret_of_stable recording_stable trivial (recording_mono hw ?_)
    simp [insertedRules]
  | some variant => exact wp_pfStateAppend (hfits variant) hw

/-- The `PREROUTING` rule of an insertion. -/
def dnatRules (inserted : Option Variant) (proto : Text) (ports : PortTexts) : List RuleSpec :=
  match inserted with
  | some .addrtype => [.dnat true proto ports.host ports.dest]
  | some .basic => [.dnat false proto ports.host ports.dest]
  | _ => []

/-- The variants of `PREROUTING` rules. -/
def IsDnat (inserted : Option Variant) : Prop :=
  inserted = none ∨ inserted = some .addrtype ∨ inserted = some .basic

theorem dnatRules_append {inserted : Option Variant} (hinserted : IsDnat inserted) (ip proto : Text)
    (ports : PortTexts) :
    dnatRules inserted proto ports ++
      addedRules inserted.isSome (.forward proto ip ports.cont) =
        insertedRules ip inserted proto ports := by
  rcases hinserted with rfl | rfl | rfl <;> rfl

theorem wp_insertDnat {useAddrtype : Bool} {proto : Text} {ports : PortTexts}
    (hw : Recording (T := T) ip X dnat w) :
    (contract T pfs cfg before).wp () (insertDnat useAddrtype proto ports)
      (fun inserted v => IsDnat inserted ∧ Recording (T := T) ip
        (X + compiled T (dnatRules inserted proto ports)) inserted.isSome v) w := by
  have hret {inserted : Option Variant} {v : World R × History R} (hinserted : IsDnat inserted)
      (hv : Recording (T := T) ip (X + compiled T (dnatRules inserted proto ports))
        inserted.isSome v) :
      (contract T pfs cfg before).wp () (.ret inserted) (fun inserted v => IsDnat inserted ∧
        Recording (T := T) ip (X + compiled T (dnatRules inserted proto ports))
          inserted.isSome v) v := by
    refine Contract.wp_ret fun v' hrely _ => ⟨hinserted, ?_⟩
    exact recording_stable v v' trivial hv hrely trivial
  have hbasic {dnat : Bool} {v : World R × History R} (hv : Recording (T := T) ip X dnat v) :
      (contract T pfs cfg before).wp () (do
        if ← act (.insert (.dnat false proto ports.host ports.dest)) then
          return some .basic
        return none) (fun inserted v => IsDnat inserted ∧ Recording (T := T) ip
          (X + compiled T (dnatRules inserted proto ports)) inserted.isSome v) v := by
    refine wp_insert id (fun _ _ _ => rfl) hv fun ok v' hv' => ?_
    cases ok with
    | true => exact hret (Or.inr (Or.inr rfl)) hv'
    | false => exact hret (Or.inl rfl) hv'
  simp only [insertDnat]
  split
  · refine wp_insert id (fun _ _ _ => rfl) hw fun ok v hv => ?_
    cases ok with
    | true => exact hret (Or.inr (Or.inl rfl)) hv
    | false => exact hbasic (recording_mono hv (by simp [addedRules]))
  · exact hbasic hw

/-- **One port forward.** -/
theorem wp_addPortforward {useAddrtype : Bool} {pf : PortForward} (hpf : Accepted pf)
    (hip : IsField 15 ip) (hw : Recording (T := T) ip X dnat w) :
    (contract T pfs cfg before).wp () (addPortforward useAddrtype ip pf)
      (fun _ v => ∃ dnat, Recording (T := T) ip X dnat v) w := by
  have hfits := fits_of_accepted hpf hip
  simp only [addPortforward]
  refine Contract.wp_seq (wp_insertDnat hw) fun inserted v _ hv => ?_
  obtain ⟨hinserted, hv⟩ := hv
  refine wp_insertForward hv fun _ v hv => ?_
  rw [add_assoc, ← compiled_append, dnatRules_append hinserted] at hv
  refine Contract.wp_seq (wp_recordIf hfits hv) fun _ v _ hv => ?_
  refine wp_insert (fun _ => inserted.isSome) (fun h _ hh => by rw [← hh]; rfl) hv
    fun loOk v hv => ?_
  refine wp_insert (fun _ => inserted.isSome) (fun h _ hh => by rw [← hh]; rfl) hv
    fun masqOk v hv => ?_
  rw [add_right_comm, show addedRules loOk _ = insertedRules ip
    (if loOk then some .localOut else none) pf.proto (pfFmtPorts pf ip) by cases loOk <;> rfl] at hv
  refine Contract.wp_seq (wp_recordIf hfits hv) fun _ v _ hv => ?_
  rw [show addedRules masqOk _ = insertedRules ip
    (if masqOk then some .localPost else none) pf.proto (pfFmtPorts pf ip) by
      cases masqOk <;> rfl] at hv
  exact Contract.wp_mono (wp_recordIf hfits hv) fun _ v _ hv => ⟨_, hv⟩

theorem wp_addAll {useAddrtype : Bool} (hip : IsField 15 ip) {pfs' : List PortForward}
    (hpfs : ∀ pf ∈ pfs', Accepted pf) (hw : Recording (T := T) ip X dnat w) :
    (contract T pfs cfg before).wp () (addAll useAddrtype ip pfs')
      (fun _ v => ∃ dnat, Recording (T := T) ip X dnat v) w := by
  induction pfs' generalizing dnat w with
  | nil =>
    exact Contract.wp_mono (Contract.wp_ret_of_stable recording_stable trivial hw)
      fun _ v _ hv => ⟨dnat, hv⟩
  | cons pf pfs' ih =>
    refine Contract.wp_seq
      (wp_addPortforward (hpfs pf List.mem_cons_self) hip hw) fun _ v _ hv => ?_
    obtain ⟨dnat', hv⟩ := hv
    exact ih (fun pf' hpf' => hpfs pf' (List.mem_cons_of_mem pf hpf')) hv

omit [DecidableEq R] in
theorem Recording.accounted (hip : IsField 15 ip) (hw : Recording (T := T) ip before dnat w) :
    Accounted (T := T) ip before w := by
  obtain ⟨-, records, hfits, hfile, hrules⟩ := hw
  rwa [Accounted, hfile, recorded_lines hip.length_le hfits]

theorem accounted_stable :
    (contract T pfs cfg before).Stable () (Accounted (T := T) ip before) := by
  intro u v _ hu hrely _
  rw [Accounted, hrely.2.1, hrely.2.2]
  exact hrely.1.trans hu

/-- **One installation.** -/
theorem wp_addPortforwards (hpfs : ∀ pf ∈ pfs, Accepted pf) (hip : IsField 15 ip)
    (hw : Accounted (T := T) ip before w) :
    (contract T pfs cfg before).wp () (addPortforwards pfs ip)
      (fun _ => Accounted (T := T) ip before) w := by
  unfold addPortforwards
  split
  · exact Contract.wp_ret_of_stable accounted_stable trivial hw
  have hwithin : Within (before + w.2.unrecorded + recorded T ip w.1.file) w.1.file w.2 w :=
    ⟨by rwa [add_right_comm], rfl, rfl⟩
  refine Contract.wp_seq (wp_pfStateRemove hwithin) fun _ v _ hv => ?_
  refine wp_act within_stable hv fun v hv _ => ?_
  have hempty : Recording (T := T) ip before w.2.dnat ({ v.1 with file := some [] }, v.2) := by
    refine ⟨by rw [hv.history], [], by simp, rfl, ?_⟩
    rw [hv.history]
    simpa [recordsRules] using hv.rules
  refine wp_act recording_stable hempty fun v hv _ => ?_
  refine Contract.wp_mono (wp_addAll hip hpfs hv) fun _ v _ hv => ?_
  obtain ⟨dnat, hv⟩ := hv
  exact hv.accounted hip

/-- **The removal.** -/
theorem wp_remove (hip : cfg.containerIp ≠ [])
    (hw : Accounted (T := T) cfg.containerIp before w) :
    (contract T pfs cfg before).wp () (removePortforwards T cfg)
      (fun _ v => v.2.unrecorded ≤ compiled T cfg.deletes → v.1.rules ≤ before) w := by
  by_cases hle : w.2.unrecorded ≤ compiled T cfg.deletes
  · have hwithin : Within (before + compiled T cfg.deletes + recorded T cfg.containerIp w.1.file)
        w.1.file w.2 w := by
      refine ⟨hw.trans ?_, rfl, rfl⟩
      rw [add_right_comm]
      exact add_le_add_left (add_le_add_right hle before) _
    exact Contract.wp_mono (wp_removePortforwards hip hwithin) fun _ v _ hv _ => hv.rules
  · have hwithin : Within (before + w.2.unrecorded + compiled T cfg.deletes +
        recorded T cfg.containerIp w.1.file) w.1.file w.2 w := by
      refine ⟨hw.trans ?_, rfl, rfl⟩
      rw [add_right_comm]
      exact add_le_add_left (Multiset.le_add_right _ _) _
    refine Contract.wp_mono (wp_removePortforwards hip hwithin) fun _ v _ hv hle' => ?_
    rw [hv.history] at hle'
    exact absurd hle' hle

/-- **The code keeps its contract.** -/
theorem sound (hpfs : ∀ pf ∈ pfs, Accepted pf) (hip : IsField 15 cfg.containerIp) :
    (contract T pfs cfg before).Sound where
  code e p w _ hpre := by
    have hdone {v v' : World R × History R} (hv : v.2.unrecorded ≤ compiled T cfg.deletes →
        v.1.rules ≤ before) (hrely : (contract T pfs cfg before).rely p v v') :
        v'.2.unrecorded ≤ compiled T cfg.deletes → v'.1.rules ≤ before := by
      intro hle
      rw [hrely.2.2] at hle
      exact hrely.1.trans (hv hle)
    cases e with
    | done => exact Contract.wp_ret fun v hrely _ => hdone hpre hrely
    | idle =>
      refine wp_act accounted_stable hpre fun v hv choice => ?_
      split
      · refine Contract.wp_seq (wp_addPortforwards hpfs hip hv)
          fun _ v _ hv => ?_
        exact Contract.wp_ret fun v' hrely _ => accounted_stable v v' trivial hv hrely trivial
      · refine Contract.wp_seq (wp_remove hip.ne_nil hv) fun _ v _ hv => ?_
        exact Contract.wp_ret fun v' hrely _ => hdone hv hrely
  env w left w' ch _ _ h := by
    obtain ⟨h, hghost⟩ := Machine.withGhost_env h
    simp only [portForwards, Option.ite_none_right_eq_some, Option.some.injEq, Prod.mk.injEq] at h
    obtain ⟨hle, hworld, rfl⟩ := h
    refine ⟨trivial, fun _ _ => ⟨?_, ?_, hghost⟩, fun _ _ hch => by cases hch⟩
    · rwa [← hworld]
    · rw [← hworld]

theorem spawns : (observed T pfs cfg).Spawns where
  exec _ _ _ _ _ _ _ _ _ _ := Or.inl rfl
  env _ _ _ _ _ _ _ := Or.inl rfl

end Machine

/-! ## What is left -/

section Left

variable {R : Type} [DecidableEq R] (T : Tools R) (pfs : List PortForward) (cfg : StopConfig)

/-- Before the first call, with nothing in the history. -/
def start (w : World R) : Machine.State Unit (World R × History R) Op Entry Op.Res :=
  ⟨(w, {}), fun _ => .ret .idle⟩

/-- **Nothing that was inserted is left.**  After any number of installations and the removal, with
other deletions at any point, the kernel holds no rule that it did not hold before, if the removal
is told of the `FORWARD` rules that went in without their `DNAT` rules. -/
theorem rules_le_of_removed (hpfs : ∀ pf ∈ pfs, Accepted pf) (hip : IsField 15 cfg.containerIp)
    {w : World R} {es : List (Machine.Event Unit (Multiset R))}
    {t : Machine.State Unit (World R × History R) Op Entry Op.Res}
    (hrun : (observed T pfs cfg).toSystem.run (start w) es = some t)
    (hdone : t.prog () = .ret .done)
    (hunrecorded : t.world.2.unrecorded ≤ compiled T cfg.deletes) :
    t.world.1.rules ≤ w.rules := by
  have hstart : (contract T pfs cfg w.rules).Holds (start w) := by
    refine ⟨trivial, fun p _ => Contract.wp_ret fun v hrely _ => ?_⟩
    show v.1.rules ≤ w.rules + _ + _
    rw [add_assoc]
    exact hrely.1.trans (Multiset.le_add_right _ _)
  have hguard : (observed T pfs cfg).GuardedBy (contract T pfs cfg w.rules).guard
      (contract T pfs cfg w.rules).guardEnv (start w) es :=
    (observed T pfs cfg).guardedBy_of_forall (fun _ _ _ => trivial) (fun _ _ => trivial) _ _
  have hend := ((sound hpfs hip).run spawns hstart hguard hrun).prog () rfl
  rw [hdone] at hend
  exact hend t.world ⟨le_refl _, rfl, rfl⟩ trivial hunrecorded

end Left

/-! ## Two runs -/

/-- Rules are kept as they were asked for. -/
def phone : Tools RuleSpec where
  compile := id
  swept _ _ _ := false
  inetPton _ := true

/-- `8080:80/tcp` -/
def web : PortForward := ⟨8080, 0, 80, 0, "tcp".toList⟩

theorem web_accepted : ∀ pf ∈ [web], Accepted pf := by
  intro pf hpf
  obtain rfl := List.mem_singleton.1 hpf
  exact ⟨by decide, by decide, by decide, by decide, Or.inl rfl⟩

/-- The port forwards were edited away before the container stopped. -/
def edited : StopConfig := ⟨"172.28.0.2".toList, [], []⟩

theorem edited_address : IsField 15 edited.containerIp := by
  have hall : edited.containerIp ≠ [] ∧ (edited.containerIp.all fun c => !isSpace c) = true ∧
      edited.containerIp.length ≤ 15 := by
    decide
  exact ⟨hall.1, fun c hc => by simpa using List.all_eq_true.1 hall.2.1 c hc, hall.2.2⟩

/-- The choices of the environment, one after the other. -/
def turns (choices : List ℕ) : List (Machine.Event Unit (Multiset RuleSpec)) :=
  choices.map (.step ())

def Entry.reached : Code Entry → Bool
  | .ret .done => true
  | _ => false

theorem Entry.eq_of_reached {m : Code Entry} (h : reached m = true) : m = .ret .done := by
  cases m with
  | ret e =>
    cases e with
    | idle => cases h
    | done => rfl
  | call op k => cases h

/-- The second installation comes after a flush that has left the `FORWARD` rule alone. -/
def flushRun : List (Machine.Event Unit (Multiset RuleSpec)) :=
  turns (List.replicate 13 0) ++
    .env {.forward "tcp".toList edited.containerIp "80".toList} ::
      turns (List.replicate 17 0 ++ [1, 0, 0, 0, 0, 0, 0])

theorem flushed_port_removed :
    ∃ t, (observed phone [web] edited).toSystem.run (start ⟨0, none⟩) flushRun = some t ∧
      t.world.1.rules ≤ 0 := by
  have hany : ((observed phone [web] edited).toSystem.run (start ⟨0, none⟩) flushRun).any
      (fun t => Entry.reached (t.prog ()) &&
        decide (t.world.2.unrecorded ≤ compiled phone edited.deletes)) = true := by
    decide +kernel
  obtain ⟨t, hrun, ht⟩ := (Option.any_eq_true _ _).1 hany
  rw [Bool.and_eq_true, decide_eq_true_eq] at ht
  exact ⟨t, hrun, rules_le_of_removed phone [web] edited web_accepted edited_address hrun
    (Entry.eq_of_reached ht.1) ht.2⟩

/-- **A `FORWARD` rule without a record.**  Both `DNAT` insertions fail, the `FORWARD` insertion does
not, and the configuration no longer has the port forward when the container stops. -/
theorem forward_rule_left :
    (∀ pf ∈ [web], Accepted pf) ∧ IsField 15 edited.containerIp ∧
    ∃ es t, (portForwards phone [web] edited).toSystem.run ⟨⟨0, none⟩, fun _ => .ret .idle⟩ es =
      some t ∧ t.prog () = .ret .done ∧
        .forward "tcp".toList edited.containerIp "80".toList ∈ t.world.rules := by
  have hany : ((portForwards phone [web] edited).toSystem.run ⟨⟨0, none⟩, fun _ => .ret .idle⟩
      (turns [0, 0, 0, 0, 0, 1, 1, 0, 0, 0, 0, 0, 0, 1, 0, 0, 0, 0])).any
        (fun t => Entry.reached (t.prog ()) && decide
          (.forward "tcp".toList edited.containerIp "80".toList ∈ t.world.rules)) = true := by
    decide +kernel
  obtain ⟨t, hrun, ht⟩ := (Option.any_eq_true _ _).1 hany
  rw [Bool.and_eq_true, decide_eq_true_eq] at ht
  exact ⟨web_accepted, edited_address, _, t, hrun, Entry.eq_of_reached ht.1, ht.2⟩

end Droidspaces.PortForwards
