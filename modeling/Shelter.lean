import Shelter.Arch.E820
import Shelter.Arch.Payload
import Shelter.Console.Port
import Shelter.Console.PortOutputLog
import Shelter.Devices.Bus
import Shelter.Fs.Credentials
import Shelter.Fs.FdOwnership
import Shelter.Fs.Handles
import Shelter.Fs.InitFile
import Shelter.Fs.Names
import Shelter.Fs.Readdir
import Shelter.Gpu.Blobs
import Shelter.Gpu.Fences
import Shelter.Init.ConfigOrder
import Shelter.Init.Passphrase
import Shelter.Init.Rlimits
import Shelter.Kbs.Encp
import Shelter.Kbs.Json
import Shelter.Kbs.Request
import Shelter.Krun.Start
import Shelter.Net.PasstRead
import Shelter.Net.RxSignal
import Shelter.Net.RxWakeup
import Shelter.Net.TxLoop
import Shelter.Polly.EventManager
import Shelter.Smbios.Reader
import Shelter.Virtio.BlockFile
import Shelter.Virtio.MmioReset
import Shelter.Virtio.QueueRegisters
import Shelter.Virtio.RngBalloon
import Shelter.Virtio.Transfers
import Shelter.Virtio.UsedEvents
import Shelter.Vmm.Kick
import Shelter.Vmm.Shm
import Shelter.Vsock.Accept
import Shelter.Vsock.Credit
import Shelter.Vsock.Delivery
import Shelter.Vsock.InOrder
import Shelter.Vsock.Messages
import Shelter.Vsock.MuxerLocks
import Shelter.Vsock.ProxyMap
import Shelter.Vsock.Reaper
import Shelter.Vsock.RxPackets
import Shelter.Vsock.Send
