import HasherPriv.Foundations.Program
import HasherPriv.Foundations.ByteString
import HasherPriv.Foundations.Descent
import HasherPriv.Foundations.Socket
import HasherPriv.Protocol.Communication
import HasherPriv.Protocol.Pass
import HasherPriv.JobService.CallerJob
import HasherPriv.JobService.Admission
import HasherPriv.JobService.CallerRunner
import HasherPriv.JobService.Completeness
import HasherPriv.Config.ListOptions
import HasherPriv.Chroot.Syscall
import HasherPriv.Chroot.Chdir
import HasherPriv.Chroot.Chdiruid
import HasherPriv.Chroot.Validated
import HasherPriv.Chroot.Prefix
import HasherPriv.SessionService.Daemon
import HasherPriv.SessionService.CallerServer
import HasherPriv.SessionService.MainServer
import HasherPriv.SessionService.Uniqueness
import HasherPriv.SessionService.Readiness
import HasherPriv.Chroot.Makedev
import HasherPriv.Config.FileConfig
import HasherPriv.Chroot.Mount
import HasherPriv.Chroot.Notable
import HasherPriv.Chroot.Mountpoints
import HasherPriv.Config.CallerConfig
import HasherPriv.Chroot.Chrootuid
import HasherPriv.Chroot.CredentialFloor
import HasherPriv.Foundations.WaitStatus
import HasherPriv.JobService.Completion
import HasherPriv.JobService.ExitStatus
import HasherPriv.Client.Cmdline
import HasherPriv.Foundations.Duplex
import HasherPriv.Client.Main
import HasherPriv.Protocol.Transfer
import HasherPriv.JobService.Agreement
import HasherPriv.Chroot.Namespaces
import HasherPriv.IoLoop.Calls
import HasherPriv.IoLoop.X11
import HasherPriv.JobService.SanitizeFds
import HasherPriv.IoLoop.Relay
import HasherPriv.IoLoop.Cookie
import HasherPriv.Foundations.Shared
import HasherPriv.SessionService.Pidfile
import HasherPriv.SessionService.SingleDaemon
import HasherPriv.Chroot.Ipc
import HasherPriv.Config.Lines
import HasherPriv.Foundations.LastWrite
import HasherPriv.Config.Layering
import HasherPriv.IoLoop.Log
import HasherPriv.IoLoop.Parent
import HasherPriv.Foundations.Contracts
import HasherPriv.IoLoop.OutputLimit
import HasherPriv.Foundations.Handles
import HasherPriv.IoLoop.Descriptors
import HasherPriv.IoLoop.DescriptorLimit
import HasherPriv.Foundations.Memory
import HasherPriv.IoLoop.AuthData
import HasherPriv.JobService.StringCodec
import HasherPriv.Config.Directive
import HasherPriv.Config.NumericOptions
import HasherPriv.Config.Environment
import HasherPriv.Foundations.Expansion
import HasherPriv.IoLoop.WriteLoop
import HasherPriv.IoLoop.TerminalInput
import HasherPriv.Chroot.Affinity
import HasherPriv.IoLoop.Drain
import HasherPriv.IoLoop.LogRecords
import HasherPriv.Foundations.Masks
import HasherPriv.Foundations.StringBuffer
import HasherPriv.Chroot.MountOptions
import HasherPriv.Config.StrListArray
import HasherPriv.IoLoop.TransferLoop
import HasherPriv.IoLoop.InputCount
import HasherPriv.Foundations.Scanning
import HasherPriv.IoLoop.X11Key
import HasherPriv.Foundations.Slots
import HasherPriv.IoLoop.ConnectionTables
import HasherPriv.Chroot.Credentials
import HasherPriv.Chroot.Isolation
import HasherPriv.Chroot.Child
import HasherPriv.Foundations.OpenFiles
import HasherPriv.Chroot.Inheritance
import HasherPriv.SessionService.MainLoop
import HasherPriv.Chroot.Eviction
import HasherPriv.Config.ServerConfig
import HasherPriv.Foundations.Answers
import HasherPriv.IoLoop.Connections
