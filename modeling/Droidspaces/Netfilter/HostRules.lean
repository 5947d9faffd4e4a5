import Droidspaces.Netfilter.Insertion
import Droidspaces.Netfilter.Presence
import Droidspaces.Netfilter.Removal
import Droidspaces.Netfilter.Slots

/-!
# The host rules

Which rules the code keeps in which chains, and the functions that put them there, look for them
and take them away.  Each one goes through the raw socket if it can, and through the `iptables`
binary if not.
-/

namespace Droidspaces.Netfilter

open Transition

/-- A rule of ours and the chain that it belongs to. -/
structure Slot where
  name : TableName
  hook : Hook
  kind : Kind

def forwardIn (iface : IfName) : Slot := ⟨.filter, .forward, .accept iface false⟩
def forwardOut (iface : IfName) : Slot := ⟨.filter, .forward, .accept iface true⟩
def inputIn (iface : IfName) : Slot := ⟨.filter, .localIn, .accept iface false⟩
def postRouting (subnet : Subnet) : Slot := ⟨.nat, .postRouting, .masquerade subnet⟩

/-- What the binary is called for. -/
inductive Command where
  | insert (slot : Slot)
  | delete (slot : Slot)
  | deleteMssClamp

abbrev Routine := Prog (Op Command) Res

/-! ## Insertion -/

/-- `insert_iface_accept` -/
def insertIfaceAccept (slot : Slot) : Routine (Except Errno Unit) := do
  match ← getTable slot.name with
  | .error err => pure (.error err)
  | .ok T =>
    if ruleExistsInHook T slot.hook slot.kind.wanted then pure (.ok ())
    else
      match ← insertRuleAtHook slot.name T slot.hook slot.kind.rule with
      | .ok _ => pure (.ok ())
      | .error _ => do
        let _ ← runCommandQuiet (.insert slot)
        pure (.ok ())

/-- `ds_ipt_ensure_forward_accept` -/
def ensureForwardAccept (iface : IfName) : Routine (Except Errno Unit) := do
  let binaryFallback : Routine (Except Errno Unit) := do
    let _ ← runCommandQuiet (.insert (forwardIn iface))
    runCommandQuiet (.insert (forwardOut iface))
  if !(← shouldUseRawApi) then binaryFallback
  else if !(← openRawSocket) then binaryFallback
  else
    let ret ← do
      match ← insertIfaceAccept (forwardIn iface) with
      | .ok _ => insertIfaceAccept (forwardOut iface)
      | .error err => pure (.error err)
    match ret with
    | .ok _ => pure (.ok ())
    | .error err =>
      if err ∈ [enoent, enoprotoopt, eacces, eopnotsupp] then binaryFallback
      else pure (.error err)

/-- `ds_ipt_ensure_input_accept` -/
def ensureInputAccept (iface : IfName) : Routine (Except Errno Unit) := do
  let binaryFallback : Routine (Except Errno Unit) := runCommandQuiet (.insert (inputIn iface))
  if !(← shouldUseRawApi) then binaryFallback
  else if !(← openRawSocket) then binaryFallback
  else
    match ← insertIfaceAccept (inputIn iface) with
    | .ok _ => pure (.ok ())
    | .error err =>
      if err ∈ [enoent, enoprotoopt, eacces, eopnotsupp] then binaryFallback
      else pure (.error err)

/-- `ds_ipt_ensure_masquerade` -/
def ensureMasquerade (subnet : Subnet) : Routine (Except Errno Unit) := do
  let slot := postRouting subnet
  let binaryFallback : Routine (Except Errno Unit) := runCommandQuiet (.insert slot)
  if !(← shouldUseRawApi) then binaryFallback
  else if !(← openRawSocket) then binaryFallback
  else
    match ← getTable .nat with
    | .error err =>
      if err ∈ [enoent, enoprotoopt, eacces] then binaryFallback else pure (.error err)
    | .ok T =>
      if ruleExistsInHook T slot.hook slot.kind.wanted then pure (.ok ())
      else
        match ← insertRuleAtHook .nat T slot.hook slot.kind.rule with
        | .ok _ => pure (.ok ())
        | .error _ => binaryFallback

/-! ## Removal -/

/-- One rule, through the socket; an unreadable table is an error. -/
def removeSlot (slot : Slot) : Routine (Except Errno Unit) := do
  match ← getTable slot.name with
  | .error err => pure (.error err)
  | .ok T => removeMatchingRules slot.name T slot.hook slot.kind.fingerprint

/-- The rules of `ds_ipt_remove_iface_rules`. -/
def ifaceSlots (iface : IfName) : List Slot := [forwardIn iface, forwardOut iface, inputIn iface]

/-- The targets of `ds_ipt_remove_ds_rules`. -/
def dsSlots : List Slot := postRouting defaultSubnet :: ifaceSlots natBridge

/-- `ds_ipt_remove_iface_rules` -/
def removeIfaceRules (iface : IfName) : Routine Unit := do
  if ← openRawSocket then
    (ifaceSlots iface).forM fun slot => do
      let _ ← removeSlot slot
      pure ()
  else
    (ifaceSlots iface).forM fun slot => do
      let _ ← runCommandQuiet (.delete slot)
      pure ()

/-- `ds_ipt_remove_ds_rules` -/
def removeDsRules : Routine Unit := do
  let fd ← openRawSocket
  dsSlots.forM fun slot => do
    let rc ← if fd then removeSlot slot else pure (.error eagain)
    match rc with
    | .ok _ => pure ()
    | .error _ => do
      let _ ← runCommandQuiet (.delete slot)
      pure ()
  let _ ← runCommandQuiet .deleteMssClamp
  pure ()

end Droidspaces.Netfilter
