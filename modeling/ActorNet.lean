import ActorNet.Net.Checksum
import ActorNet.Rpc.FrameRoundTrip
import ActorNet.Rpc.CallResolution
import ActorNet.Net.PacketRun
import ActorNet.Net.Ipv4RoundTrip
import ActorNet.Http.Shutdown
import ActorNet.Rpc.StreamDelivery
import ActorNet.Rpc.ServerAnswers
import ActorNet.Tcp.WindowAssertion
import ActorNet.Tcp.SynAcknowledged
import ActorNet.Tcp.HandshakeParameters
import ActorNet.Tcp.Backlog
import ActorNet.Tcp.Table
import ActorNet.Net.ArpResolution
import ActorNet.Net.DhcpTransactions
import ActorNet.Tcp.Reassembly
import ActorNet.Tcp.Steering
import ActorNet.Rpc.Lz4RoundTrip
import ActorNet.Virtio.Queues
import ActorNet.Tcp.Polling
import ActorNet.Tcp.Waiters
import ActorNet.Tcp.Deserted
import ActorNet.Json.Streaming
import ActorNet.Http.ContentReplace
import ActorNet.Http.FileHandler
import ActorNet.Rpc.BackPointers
import ActorNet.Net.ReassemblyComplete
import ActorNet.Net.Ipv4Buffers
import ActorNet.Net.UdpIcmp
import ActorNet.Net.ReassemblyIsolation
import ActorNet.Net.FragmentAccounts
import ActorNet.Dns.TcpContract
import ActorNet.Dns.SocketAccounts
import ActorNet.Tcp.OptionGrammar
import ActorNet.Net.ChecksumSplits
import ActorNet.Rpc.NegotiationFrame
import ActorNet.Tcp.CongestionWindow
import ActorNet.Tcp.ReceiveWindow
import ActorNet.Tcp.ReceiveAccounts
import ActorNet.Rpc.Lz4Hostile
import ActorNet.Http.QueryParameters
import ActorNet.Http.BodyFraming
import ActorNet.Http.RulePatterns
import ActorNet.Lib.OutputStream
import ActorNet.Http.ChunkedReply
import ActorNet.Net.UdpPorts
import ActorNet.Net.DhcpOptions
import ActorNet.Tcp.ReplyQueues
import ActorNet.Net.AcceptRendezvous
import ActorNet.Virtio.Notifications
import ActorNet.Virtio.RxStatistics
import ActorNet.Net.DeviceConfig
import ActorNet.Net.ProxyQueue
import ActorNet.Rpc.Lz4Reveals
import ActorNet.Http.RequestBuffers
import ActorNet.Http.ServerStop
import ActorNet.Rpc.Handlers
import ActorNet.Net.ConnectionBalance
import ActorNet.Net.TlsSession
import ActorNet.Rpc.Arguments
import ActorNet.Virtio.RxFrames
import ActorNet.Net.DpdkLimits
import ActorNet.Net.DpdkTransmit
