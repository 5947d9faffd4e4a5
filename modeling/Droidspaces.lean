import Droidspaces.App.ConfigContent
import Droidspaces.App.ContainerInstaller
import Droidspaces.App.EnvCount
import Droidspaces.App.GatewayCheck
import Droidspaces.App.SparseMigration
import Droidspaces.App.SparseResize
import Droidspaces.App.Uninstall
import Droidspaces.App.WaylandSocket
import Droidspaces.Binary.Checksum
import Droidspaces.Binary.Codec
import Droidspaces.Binary.Datagram
import Droidspaces.Binary.Fields
import Droidspaces.Binary.Layout
import Droidspaces.Binary.Netlink
import Droidspaces.Boot.Autoboot
import Droidspaces.Boot.BindDestination
import Droidspaces.Boot.BindOrder
import Droidspaces.Boot.CustomBinds
import Droidspaces.Boot.GpuGroups
import Droidspaces.Boot.GroupLines
import Droidspaces.Boot.Mountinfo
import Droidspaces.Boot.SeccompFilter
import Droidspaces.Bpf.Classic
import Droidspaces.Cli.ArgvPaths
import Droidspaces.Cli.BindCodec
import Droidspaces.Cli.Getopt
import Droidspaces.Cli.LastingSave
import Droidspaces.Cli.Overrides
import Droidspaces.Cli.PathOptions
import Droidspaces.Cli.SizeArgument
import Droidspaces.Config.Built
import Droidspaces.Config.EnvScript
import Droidspaces.Config.Environment
import Droidspaces.Config.Identity
import Droidspaces.Config.Load
import Droidspaces.Config.Pieces
import Droidspaces.Config.PortGrammar
import Droidspaces.Config.PortTable
import Droidspaces.Config.Recovery
import Droidspaces.Config.Reload
import Droidspaces.Config.RoundTrip
import Droidspaces.Config.SaveShortcut
import Droidspaces.Config.Spellings
import Droidspaces.Config.Typed
import Droidspaces.Config.UnknownLines
import Droidspaces.Config.Values
import Droidspaces.Config.WrittenBack
import Droidspaces.Daemon.ChildExit
import Droidspaces.Daemon.ClientRelay
import Droidspaces.Daemon.CommandOutput
import Droidspaces.Daemon.ExitReport
import Droidspaces.Daemon.OutputRelay
import Droidspaces.Daemon.PtyInput
import Droidspaces.Daemon.RecursionGuard
import Droidspaces.Daemon.RequestCodec
import Droidspaces.Daemon.SessionFrames
import Droidspaces.Enter.CgroupAttach
import Droidspaces.Enter.RunAsUser
import Droidspaces.Enter.TerminalProxy
import Droidspaces.Enter.UserShell
import Droidspaces.FileSystem.AtomicWrite
import Droidspaces.FileSystem.Mounts
import Droidspaces.FileSystem.PathWalk
import Droidspaces.Json.Document
import Droidspaces.Lifecycle.BootGuard
import Droidspaces.Lifecycle.CleanupContract
import Droidspaces.Lifecycle.Evolution
import Droidspaces.Lifecycle.ExitCleanup
import Droidspaces.Lifecycle.ExternalLock
import Droidspaces.Lifecycle.Handover
import Droidspaces.Lifecycle.Heartbeat
import Droidspaces.Lifecycle.LockFile
import Droidspaces.Lifecycle.NewerInstance
import Droidspaces.Lifecycle.Programs
import Droidspaces.Lifecycle.ScanOrphans
import Droidspaces.Lifecycle.World
import Droidspaces.Memory.Doubling
import Droidspaces.Memory.Ownership
import Droidspaces.Memory.Pairing
import Droidspaces.Memory.RingBuffer
import Droidspaces.Netfilter.Edits
import Droidspaces.Netfilter.Fixups
import Droidspaces.Netfilter.ForeignRules
import Droidspaces.Netfilter.Installation
import Droidspaces.Network.Convergence
import Droidspaces.Network.DhcpLease
import Droidspaces.Network.DhcpOptions
import Droidspaces.Network.DhcpServer
import Droidspaces.Network.DnsServers
import Droidspaces.Network.DumpAnswers
import Droidspaces.Network.Dumps
import Droidspaces.Network.GatewayTeardown
import Droidspaces.Network.Leftovers
import Droidspaces.Network.PortForwards
import Droidspaces.Network.RequestSession
import Droidspaces.Network.Requests
import Droidspaces.Network.SegmentIsolation
import Droidspaces.Network.SharedRules
import Droidspaces.Network.StaticIp
import Droidspaces.Resources.CpuFiles
import Droidspaces.Resources.CpuViews
import Droidspaces.Resources.FirmwarePath
import Droidspaces.Resources.HostSettings
import Droidspaces.Resources.Meminfo
import Droidspaces.Resources.StartFailure
import Droidspaces.Sequential.Attempt
import Droidspaces.Sequential.FileTree
import Droidspaces.Services.SharedServer
import Droidspaces.Services.SharedService
import Droidspaces.Services.SplitFlags
import Droidspaces.Shell.Words
import Droidspaces.Socketd.Answers
import Droidspaces.Socketd.Backend
import Droidspaces.Socketd.Connection
import Droidspaces.Socketd.EventLog
import Droidspaces.Socketd.Exchange
import Droidspaces.Socketd.ListContainers
import Droidspaces.Socketd.ListImages
import Droidspaces.Socketd.PidFiles
import Droidspaces.Socketd.References
import Droidspaces.Socketd.Sight
import Droidspaces.Socketd.Wire
import Droidspaces.Status.ProcStat
import Droidspaces.Status.Scanf
import Droidspaces.Status.ShowInfo
import Droidspaces.Transition.Machine
import Droidspaces.Transition.Program
import Droidspaces.Transition.RelyGuarantee
import Droidspaces.Transition.System
import Droidspaces.Transition.Trace
import Droidspaces.Wayland.BufferOwners
import Droidspaces.Wayland.Buffers
import Droidspaces.Wayland.DmabufPlanes
import Droidspaces.Wayland.Focus
import Droidspaces.Wayland.InputQueue
import Droidspaces.Wayland.Modifiers
import Droidspaces.Wayland.Roles
import Droidspaces.Wayland.Seat
import Droidspaces.Wayland.Surfaces
