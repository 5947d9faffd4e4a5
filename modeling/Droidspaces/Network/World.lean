import Droidspaces.Network.Kernel
import Droidspaces.Transition.Program

/-!
# Monitor processes and the operations of the NAT code

The world of `network.c`: the kernel, and for every monitor process the globals that its NAT code
keeps.  A `Query` is one question that uplink detection asks (a netlink dump or an `ioctl`), an
`Op` one request or one access to the globals.

`Kernel.answer` answers a query; `World.perform` performs an operation when everything succeeds.
-/

namespace Droidspaces.Network

open Transition

/-- A monitor process, named by the pid of its container's init. -/
abbrev Pid := ℕ

/-- What the code finds outside itself and never changes: `is_android` and the `fnmatch` of the C
library. -/
structure Platform where
  android : Bool
  fnmatch : Iface → Iface → Bool

/-- The part of a container's configuration that the NAT code reads. -/
structure NatConfig where
  bridgeless : Bool
  upstream : List Iface
  deriving DecidableEq

/-- The globals of a monitor process. -/
structure Monitor where
  /-- `g_current_gw_table` -/
  gwTable : ℤ := 0
  /-- `g_upstream_ifaces` -/
  upstream : List Iface := []
  /-- `g_host_bridgeless` -/
  bridgeless : Bool := false
  /-- `g_host_veth` -/
  veth : Iface := []
  deriving DecidableEq

structure World where
  kernel : Kernel
  monitors : Pid → Monitor

inductive Query where
  | ifaceIsRunning (n : Iface)
  | listIfaces
  | ifaceTable (n : Iface)
  | tableDefaultOif (table : ℤ)
  | netdDefault

inductive Op where
  | query (q : Query)
  | newRule (r : PolicyRule)
  | delRule (sel : RuleSelector)
  | linkExists (n : Iface)
  | createLink (n : Iface)
  | delLink (n : Iface)
  /-- The peer moves into the container's network namespace. -/
  | attachPeer
  | countIfaces (pre : Iface)
  | ensure (r : HostRule)
  | removeAll (r : HostRule)
  | hostRulesPresent (rules : List HostRule)
  | globals
  | setGwTable (table : ℤ)
  | setUpstream (upstream : List Iface)
  | setHost (bridgeless : Bool) (veth : Iface)

abbrev Query.Res : Query → Type
  | ifaceIsRunning _ => Bool
  | listIfaces => List Iface
  | ifaceTable _ => Option ℤ
  | tableDefaultOif _ => Option Iface
  | netdDefault => Option ℤ

abbrev Op.Res : Op → Type
  | query q => q.Res
  | newRule _ | delRule _ => ℤ
  | linkExists _ | createLink _ | attachPeer | hostRulesPresent _ => Bool
  | countIfaces _ => ℕ
  | globals => Monitor
  | _ => Unit

/-- The most interfaces that uplink detection looks at. -/
def maxIfaces : ℕ := 64

def Kernel.answer (k : Kernel) : (q : Query) → q.Res
  | .ifaceIsRunning n => k.ifaceIsRunning n
  | .listIfaces => k.listIfaces maxIfaces
  | .ifaceTable n => (k.ifaceTable n).map Nat.cast
  | .tableDefaultOif table => k.tableDefaultOif table
  | .netdDefault => k.netdDefault.map Nat.cast

namespace World

def withKernel (w : World) (k : Kernel) : World := { w with kernel := k }

def setRules (w : World) (rules : List PolicyRule) : World :=
  w.withKernel { w.kernel with rules := rules }

theorem rules_setRules (w : World) (rules : List PolicyRule) :
    (w.setRules rules).kernel.rules = rules := rfl

def setLinks (w : World) (links : List Link) : World :=
  w.withKernel { w.kernel with links := links }

def setFilter (w : World) (filter : List HostRule) : World :=
  w.withKernel { w.kernel with filter := filter }

def setMonitor (w : World) (p : Pid) (m : Monitor) : World :=
  { w with monitors := Function.update w.monitors p m }

/-- One operation of process `p`. -/
def perform (w : World) (p : Pid) : (op : Op) → World × op.Res
  | .query q => (w, w.kernel.answer q)
  | .newRule r =>
    let (rules, ret) := Network.newRule r w.kernel.rules
    (w.setRules rules, ret)
  | .delRule sel =>
    let (rules, ret) := Network.delRule sel w.kernel.rules
    (w.setRules rules, ret)
  | .linkExists n => (w, w.kernel.linkExists n)
  | .createLink n =>
    if w.kernel.linkExists n then (w, false)
    else (w.setLinks (w.kernel.links ++ [⟨n, true⟩]), true)
  | .delLink n => (w.setLinks (w.kernel.links.filter fun l => l.name ≠ n), ())
  | .attachPeer => (w, true)
  | .countIfaces pre => (w, w.kernel.countIfacesWithPrefix pre)
  | .ensure r =>
    (if r ∈ w.kernel.filter then w else w.setFilter (r :: w.kernel.filter), ())
  | .removeAll r => (w.setFilter (w.kernel.filter.filter fun r' => r' ≠ r), ())
  | .hostRulesPresent rules => (w, rules.all fun r => r ∈ w.kernel.filter)
  | .globals => (w, w.monitors p)
  | .setGwTable table => (w.setMonitor p { w.monitors p with gwTable := table }, ())
  | .setUpstream upstream => (w.setMonitor p { w.monitors p with upstream := upstream }, ())
  | .setHost bridgeless veth =>
    (w.setMonitor p { w.monitors p with bridgeless := bridgeless, veth := veth }, ())

end World

end Droidspaces.Network
