import Spectrum.Errno
import Spectrum.Interact.Prog
import Spectrum.Interact.Kernel
import Spectrum.Interact.Pool
import Spectrum.Interact.Handle
import Spectrum.Interact.Count
import Spectrum.Interact.Play
import Spectrum.Interact.Bytes
import Spectrum.Interact.Utf8
import Spectrum.Interact.Numeral
import Spectrum.Interact.Strtoul
import Spectrum.Interact.CBuffer
import Spectrum.Interact.Getopt
import Spectrum.Interact.Pages
import Spectrum.Interact.Stream
import Spectrum.Interact.Remote
import Spectrum.Interact.Text
import Spectrum.Interact.Shell
import Spectrum.Interact.DirTree
import Spectrum.Interact.Double
import Spectrum.Interact.Schedule
import Spectrum.Interact.Fifo
import Spectrum.Interact.Depend
import Spectrum.Interact.Services
import Spectrum.Path
import Spectrum.Net.Host
import Spectrum.Net.Sys
import Spectrum.Net.Util
import Spectrum.Net.Setup
import Spectrum.Net.Names
import Spectrum.Net.Cause
import Spectrum.Net.Atomic
import Spectrum.Net.System
import Spectrum.Net.Lock
import Spectrum.Net.Effect
import Spectrum.Net.Isolation
import Spectrum.Net.Phases
import Spectrum.Net.Lifetime
import Spectrum.Net.Reuse
import Spectrum.Vmm.Process
import Spectrum.Vmm.Fork
import Spectrum.Vmm.Return
import Spectrum.Vmm.Create
import Spectrum.Vmm.Ready
import Spectrum.Vmm.Config
import Spectrum.Vmm.Panic
import Spectrum.Watch.Tables
import Spectrum.Watch.Phases
import Spectrum.Watch.Listener
import Spectrum.Net.Address
import Spectrum.Net.Router
import Spectrum.Portal.Socket
import Spectrum.Portal.Guest
import Spectrum.Portal.Host
import Spectrum.Portal.Documents
import Spectrum.Portal.VsockPath
import Spectrum.Portal.FileChooser
import Spectrum.Portal.Uris
import Spectrum.Portal.HostSafe
import Spectrum.Portal.Reply
import Spectrum.Portal.Link
import Spectrum.Portal.Handshake
import Spectrum.Portal.Serve
import Spectrum.Portal.Port
import Spectrum.VhostUser.Endpoint
import Spectrum.VhostUser.Regions
import Spectrum.VhostUser.Wire
import Spectrum.Gpu.Shmem
import Spectrum.Gpu.Device
import Spectrum.Image.Verity
import Spectrum.Image.Probe
import Spectrum.Image.Boot
import Spectrum.Image.Erofs
import Spectrum.Image.Gpt
import Spectrum.Vm.Start
import Spectrum.Vm.Package
import Spectrum.Vm.Closure
import Spectrum.Vm.Providers
import Spectrum.Tools.Lseek
import Spectrum.Scripts.Wrappers
import Spectrum.Scripts.RunSpectrumVm
import Spectrum.Scripts.ExitListener
import Spectrum.Mdev.Rendezvous
import Spectrum.Rc.Host
import Spectrum.Rc.Invariant
import Spectrum.Rc.Boot
import Spectrum.Dbus.Cids
import Spectrum.Dbus.Socket
import Spectrum.Dbus.Vsock
import Spectrum.Dbus.Server
