import CustomLinuxOs.Networking.TcpReceive
import CustomLinuxOs.Networking.TcpEndOfStream
import CustomLinuxOs.Networking.TcpAcks
import CustomLinuxOs.Networking.InitialSequence
import CustomLinuxOs.Networking.UdpRoundTrip
import CustomLinuxOs.Terminal.InputFifo
import CustomLinuxOs.Filesystem.Readers
import CustomLinuxOs.Filesystem.ReadExact
import CustomLinuxOs.Filesystem.WriteBack
import CustomLinuxOs.Filesystem.InodeOwnership
import CustomLinuxOs.Filesystem.BlockOwnership
import CustomLinuxOs.Process.HaltExecute
import CustomLinuxOs.Process.Contexts
import CustomLinuxOs.Process.Dispatch
import CustomLinuxOs.Process.Switching
import CustomLinuxOs.Process.ExecuteAtomic
import CustomLinuxOs.Terminal.CursorBounds
import CustomLinuxOs.Terminal.Scrolling
import CustomLinuxOs.Terminal.InputLine
import CustomLinuxOs.Terminal.Multiplex
import CustomLinuxOs.Networking.SegmentRoundTrip
import CustomLinuxOs.Networking.UdpListeners
import CustomLinuxOs.Networking.ArpFreshness
import CustomLinuxOs.Networking.ArpExchange
import CustomLinuxOs.Networking.IpIsolation
import CustomLinuxOs.Networking.ChecksumLaw
import CustomLinuxOs.Networking.TcpOptions
import CustomLinuxOs.Networking.DatagramBounds
import CustomLinuxOs.Networking.AdvertisedWindow
import CustomLinuxOs.Networking.Connect
import CustomLinuxOs.Networking.ConnectFailure
import CustomLinuxOs.Networking.Demultiplex
import CustomLinuxOs.Networking.SendallClose
import CustomLinuxOs.Networking.FrameSizes
import CustomLinuxOs.Networking.UdpWait
import CustomLinuxOs.Networking.UdpBounds
import CustomLinuxOs.Networking.DnsAnswers
import CustomLinuxOs.Networking.Dhcp
import CustomLinuxOs.Networking.ReplyBounds
import CustomLinuxOs.Networking.RequestBounds
import CustomLinuxOs.Devices.TransmitRing
import CustomLinuxOs.Devices.TimerInterrupt
import CustomLinuxOs.Programs.MvSafety
import CustomLinuxOs.Filesystem.DirectoryRead
import CustomLinuxOs.Filesystem.DirectoryBounds
import CustomLinuxOs.Filesystem.CreatFailure
import CustomLinuxOs.Terminal.HistoryKeys
import CustomLinuxOs.Terminal.BackspaceEcho
import CustomLinuxOs.Terminal.TabDescriptors
import CustomLinuxOs.Networking.DottedQuad
import CustomLinuxOs.Networking.HttpHeader
import CustomLinuxOs.Networking.ArpFifo
import CustomLinuxOs.Devices.RtcRate
import CustomLinuxOs.Devices.RtcPacing
import CustomLinuxOs.Devices.TimerTable
import CustomLinuxOs.Lib.Printf
import CustomLinuxOs.Lib.BlockMove
import CustomLinuxOs.Process.LoaderBounds
import CustomLinuxOs.Networking.TcpLink
import CustomLinuxOs.Filesystem.FileStore
import CustomLinuxOs.Terminal.ScreenCursor
import CustomLinuxOs.Terminal.ConsoleMemory
import CustomLinuxOs.Devices.ReceiveRing
import CustomLinuxOs.Devices.InterruptController
import CustomLinuxOs.Process.Scheduling
import CustomLinuxOs.Process.AddressSpace
import CustomLinuxOs.Programs.Grep
