import Yasouos.Theory.Program
import Yasouos.Theory.Ring
import Yasouos.Theory.Virtqueue
import Yasouos.Theory.VirtqueueBytes
import Yasouos.Theory.Tokens
import Yasouos.Drivers.VirtioNet
import Yasouos.Drivers.VirtioNetRx
import Yasouos.Drivers.E1000
import Yasouos.Drivers.E1000Rx
import Yasouos.Drivers.E1000Tx
import Yasouos.Drivers.Rtl8139
import Yasouos.Drivers.Rtl8139Rx
import Yasouos.Drivers.Rtl8139Tx
import Yasouos.Drivers.VirtioNetTx
import Yasouos.Drivers.VirtioRng
import Yasouos.Kernel.Devices
import Yasouos.Kernel.FdtDevices
import Yasouos.Kernel.Resources
import Yasouos.Net.Arp
import Yasouos.Net.Tcp
import Yasouos.Apps.HttpHello
import Yasouos.Apps.HttpReplies
import Yasouos.Net.Print
import Yasouos.Net.PrintText
import Yasouos.Net.Hexdump
import Yasouos.Net.PrintNumbers
import Yasouos.Apps.HttpStream
import Yasouos.Apps.HttpSegments
import Yasouos.Kernel.FdtBootargs
import Yasouos.Kernel.FdtSafety
import Yasouos.Kernel.FdtChosen
import Yasouos.Drivers.VirtioInit
import Yasouos.Drivers.VirtioLayout
import Yasouos.Kernel.InitApps
import Yasouos.Common.LogLevels
import Yasouos.Apps.PacketPrint
import Yasouos.Apps.PrintedPorts
import Yasouos.Apps.PingPong
import Yasouos.Apps.PayloadReads
import Yasouos.Apps.EchoReply
import Yasouos.Theory.Ranges
import Yasouos.Theory.Trace
import Yasouos.Kernel.PciConfig
import Yasouos.Kernel.PciScan
import Yasouos.Kernel.PciRiscv
import Yasouos.Kernel.PciArm64
import Yasouos.Kernel.Registry
import Yasouos.Kernel.Enumerate
import Yasouos.Apps.Netdev
import Yasouos.Kernel.ResourceCalls
import Yasouos.Drivers.VirtioNetBuffers
import Yasouos.Drivers.Rtl8139Oldest
import Yasouos.Theory.Ghost
import Yasouos.Drivers.E1000Packets
import Yasouos.Theory.Indexed
import Yasouos.Drivers.VirtioRngPrompt
import Yasouos.Apps.Random
import Yasouos.Apps.RandomLines
import Yasouos.Net.Checksums
import Yasouos.Common.LogGrammar
import Yasouos.Kernel.FdtTermination
import Yasouos.Apps.HttpResponse
import Yasouos.Apps.RandomDraws
import Yasouos.Apps.RandomRoundRobin
import Yasouos.Net.ByteOrderAsm
import Yasouos.Kernel.PciProbe
import Yasouos.Theory.Answers
import Yasouos.Apps.AnswerStorms
import Yasouos.Theory.Observed
import Yasouos.Drivers.VirtioNetSend
import Yasouos.Apps.HttpServer
import Yasouos.Drivers.VirtioHandshake
import Yasouos.Kernel.PciEnumeration
import Yasouos.Kernel.ManagedDrivers
import Yasouos.Kernel.BootPaging
import Yasouos.Drivers.E1000Init
