import Improot.Event.PairingRuns
import Improot.Event.Signals
import Improot.Event.Transparent
import Improot.Execve.LoadInfoSpec
import Improot.Execve.ShebangSpec
import Improot.Extension.ChrootSpec
import Improot.Extension.CredentialsSpec
import Improot.Extension.DacOverrideSpec
import Improot.Extension.Inherit
import Improot.Extension.LinkSymlinkAtomic
import Improot.Extension.MetaFileRuns
import Improot.Extension.PortmapSpec
import Improot.Extension.ReExecuteSpec
import Improot.Extension.Vdisk
import Improot.Lib.Memory
import Improot.Lib.PrefixTable
import Improot.Lib.Transition
import Improot.Netlink.AckSpec
import Improot.Netlink.MeantSpec
import Improot.Netlink.ReceiveSpec
import Improot.Path.ComponentOrder
import Improot.Path.Confinement
import Improot.Path.Finality
import Improot.Path.InitializeSpec
import Improot.Path.Resolve
import Improot.SysVIpc.IdentifierSpec
import Improot.SysVIpc.MsgSafety
import Improot.SysVIpc.MsgSelect
import Improot.SysVIpc.SemAtomic
import Improot.SysVIpc.SemWakeup
import Improot.Syscall.GuestNames
import Improot.Syscall.Heap
import Improot.Syscall.NameSpace
import Improot.Syscall.PipeShadow
import Improot.Syscall.PivotSpec
import Improot.Syscall.ReadlinkSpec
import Improot.Syscall.Rename
import Improot.Syscall.RenameSpec
import Improot.Syscall.SeccompSpec
import Improot.Syscall.SysnumSpec
import Improot.Syscall.TranslateParent
import Improot.Tracee.Mem
import Improot.Tracee.NewNamespace
import Improot.Event.AllocMem
import Improot.Tracee.MemSpec
import Improot.Tracee.ReadString
import Improot.Extension.HiddenFilesSpec
import Improot.Syscall.Socket
import Improot.Syscall.SocketSpec
import Improot.Execve.Aoxp
import Improot.Execve.AoxpSpec
import Improot.Execve.AoxpFront
import Improot.Execve.ExpandShebang
import Improot.Execve.ExpandShebangSpec
import Improot.Execve.Ldso
import Improot.Execve.Runner
import Improot.Execve.RunnerSpec
import Improot.Lib.ListEdit
import Improot.Extension.FdCache
import Improot.Extension.FdCacheSpec
import Improot.Extension.PortTable
import Improot.Extension.FakeStat
import Improot.Extension.GroupsSpec
import Improot.Extension.DirPerms
import Improot.Extension.DirentWalk
import Improot.Extension.MountinfoSpec
import Improot.Extension.PortFrameSpec
import Improot.Extension.SendmsgFixes
import Improot.Extension.SymlinkSizeSpec
import Improot.Path.TempCleanSpec
import Improot.Path.SplitJoin
import Improot.Lib.DirectMapped
import Improot.Jit.Shm
import Improot.Extension.CareEnvelope
import Improot.Execve.Rpath
import Improot.Execve.RpathSpec
import Improot.Extension.AshmemMemfd
import Improot.Extension.AshmemMemfdSpec
import Improot.Lib.Tree
import Improot.Path.Placeholder
import Improot.Path.PlaceholderSpec
import Improot.Lib.Words
import Improot.Execve.Auxv
import Improot.Execve.AuxvSpec
