import BitcoinNetwork.Incremental.Element
import BitcoinNetwork.Incremental.Machine
import BitcoinNetwork.Incremental.Records
import BitcoinNetwork.Async.Program
import BitcoinNetwork.Async.Transition
import BitcoinNetwork.Async.Deliveries
import BitcoinNetwork.Async.Ordered
import BitcoinNetwork.Binary.Bytes
import BitcoinNetwork.Binary.Span
import BitcoinNetwork.Binary.Search
import BitcoinNetwork.Http.Text
import BitcoinNetwork.Http.Fields
import BitcoinNetwork.Http.FlatBuffer
import BitcoinNetwork.Http.Header
import BitcoinNetwork.Http.Framing
import BitcoinNetwork.Http.Element
import BitcoinNetwork.Http.Parser
import BitcoinNetwork.Http.ParserMachine
import BitcoinNetwork.Http.Reading
import BitcoinNetwork.Http.Limits
import BitcoinNetwork.Http.Framed
import BitcoinNetwork.Http.Serializer
import BitcoinNetwork.Http.Written
import BitcoinNetwork.Http.RoundTrip
import BitcoinNetwork.Http.Lists
import BitcoinNetwork.Http.Persistence
import BitcoinNetwork.Paths.Components
import BitcoinNetwork.Http.Target
import BitcoinNetwork.Http.ChunkLines
import BitcoinNetwork.Http.ValueLines
import BitcoinNetwork.Http.FieldFronts
import BitcoinNetwork.Http.NeedMore
import BitcoinNetwork.Http.HeaderFraming
import BitcoinNetwork.Http.Bodiless
import BitcoinNetwork.Ws.Frame
import BitcoinNetwork.Ws.FrameHeader
import BitcoinNetwork.Ws.Reader
import BitcoinNetwork.Ws.ReaderMachine
import BitcoinNetwork.Ws.Reading
import BitcoinNetwork.Ws.Utf8
import BitcoinNetwork.Ws.Encoding
import BitcoinNetwork.Ws.Frames
import BitcoinNetwork.Ws.FrameRuns
import BitcoinNetwork.Ws.Messages
import BitcoinNetwork.Ws.Sizes
import BitcoinNetwork.Ws.Socket
import BitcoinNetwork.Ws.SocketMoves
import BitcoinNetwork.Ws.SocketRuns
import BitcoinNetwork.Ws.Fragments
import BitcoinNetwork.Ws.SocketClient
import BitcoinNetwork.Tls.Codec
import BitcoinNetwork.Tls.Schedule
import BitcoinNetwork.Tls.Record
import BitcoinNetwork.Tls.Server
import BitcoinNetwork.Tls.Runs
import BitcoinNetwork.Tls.Handshake
import BitcoinNetwork.Tls.Authentication
import BitcoinNetwork.Tls.Gate
import BitcoinNetwork.Tls.SendKeys
import BitcoinNetwork.Tls.Protection
import BitcoinNetwork.Tls.Segmentation
import BitcoinNetwork.Tls.Contiguity
import BitcoinNetwork.Tls.Presentation
import BitcoinNetwork.Tls.ClientHello
import BitcoinNetwork.Tls.Negotiation
import BitcoinNetwork.Tls.Output
import BitcoinNetwork.Tls.Stream
import BitcoinNetwork.Tls.Flush
import BitcoinNetwork.Zmtp.Frame
import BitcoinNetwork.Zmtp.Codec
import BitcoinNetwork.Zmtp.Cipher
import BitcoinNetwork.Zmtp.Handshake
import BitcoinNetwork.Zmtp.Link
import BitcoinNetwork.Zmtp.Nonces
import BitcoinNetwork.Zmtp.Pairing
import BitcoinNetwork.Zmtp.Stream
import BitcoinNetwork.Zmtp.Reading
import BitcoinNetwork.Zmtp.Transparent
import BitcoinNetwork.Zmtp.Gate
import BitcoinNetwork.Zmtp.Requests
import BitcoinNetwork.Zmtp.Notifications
import BitcoinNetwork.Zmtp.Exchange
import BitcoinNetwork.Zmtp.Scatter
import BitcoinNetwork.P2ps.Cipher
import BitcoinNetwork.P2ps.Stream
import BitcoinNetwork.P2ps.Reading
import BitcoinNetwork.P2ps.Scan
import BitcoinNetwork.P2ps.Messages
import BitcoinNetwork.Net.Race
import BitcoinNetwork.Net.Races
import BitcoinNetwork.Net.Subscribers
import BitcoinNetwork.Net.Desubscriber
import BitcoinNetwork.Net.Connector
import BitcoinNetwork.Net.ConnectorRuns
import BitcoinNetwork.Config.Address
import BitcoinNetwork.Config.AddressText
import BitcoinNetwork.Config.AddressSystem
import BitcoinNetwork.Net.SocksMessage
import BitcoinNetwork.Net.Socks
import BitcoinNetwork.Net.SocksRuns
import BitcoinNetwork.Net.SocksReplies
import BitcoinNetwork.Sessions.Session
import BitcoinNetwork.Sessions.SessionRuns
import BitcoinNetwork.Sessions.Handlers
import BitcoinNetwork.Sessions.Manual
import BitcoinNetwork.Sessions.ManualRuns
import BitcoinNetwork.Sessions.Stoppers
import BitcoinNetwork.Sessions.Seed
import BitcoinNetwork.Net.Channels
import BitcoinNetwork.Net.Tallies
import BitcoinNetwork.Sessions.Peer
import BitcoinNetwork.Sessions.PeerRuns
import BitcoinNetwork.Sessions.Outbound
import BitcoinNetwork.Sessions.OutboundRuns
import BitcoinNetwork.Binary.Decoder
import BitcoinNetwork.Binary.Wire
import BitcoinNetwork.Binary.Stream
import BitcoinNetwork.Peer.AddressItem
import BitcoinNetwork.Peer.AddressCodecs
import BitcoinNetwork.Binary.Codec
import BitcoinNetwork.Peer.Registry
import BitcoinNetwork.Peer.Chain
import BitcoinNetwork.Peer.Signals
import BitcoinNetwork.Peer.Filters
import BitcoinNetwork.Peer.Inventories
import BitcoinNetwork.Peer.Blocks
import BitcoinNetwork.Peer.Notices
import BitcoinNetwork.Peer.Heading
import BitcoinNetwork.Peer.Messages
import BitcoinNetwork.Peer.HeaderHashes
import BitcoinNetwork.Peer.Heights
import BitcoinNetwork.Rpc.Dispatcher
import BitcoinNetwork.Rpc.Arguments
import BitcoinNetwork.Peer.Body
import BitcoinNetwork.Peer.Agreement
import BitcoinNetwork.Incremental.Offers
import BitcoinNetwork.Rpc.Reader
import BitcoinNetwork.Rpc.Grammar
import BitcoinNetwork.Rpc.Puts
import BitcoinNetwork.Rpc.Transport
import BitcoinNetwork.Net.Proxy
import BitcoinNetwork.Net.ProxyRuns
import BitcoinNetwork.Net.Notifications
import BitcoinNetwork.Net.Backlog
import BitcoinNetwork.Net.Growth
import BitcoinNetwork.Net.Charges
import BitcoinNetwork.Net.Pacing
import BitcoinNetwork.Async.Newest
import BitcoinNetwork.Net.Hosts
import BitcoinNetwork.Net.HostsRuns
import BitcoinNetwork.Net.HostsSaves
import BitcoinNetwork.Net.HostsFile
import BitcoinNetwork.Zmtp.Keepalive
import BitcoinNetwork.Io.Strand
import BitcoinNetwork.Io.StrandRuns
import BitcoinNetwork.Io.Timers
import BitcoinNetwork.Io.Transfers
import BitcoinNetwork.Async.Totals
import BitcoinNetwork.Io.Scheduler
import BitcoinNetwork.Io.SchedulerRuns
import BitcoinNetwork.Io.Descriptor
import BitcoinNetwork.Io.DescriptorRuns
import BitcoinNetwork.Sessions.Accept
import BitcoinNetwork.Sessions.AcceptRuns
import BitcoinNetwork.Channels.Gate
import BitcoinNetwork.Channels.GateRuns
import BitcoinNetwork.Sessions.Addresses
import BitcoinNetwork.Sessions.AddressRuns
import BitcoinNetwork.Channels.Pauses
import BitcoinNetwork.Protocols.Version
import BitcoinNetwork.Protocols.VersionRuns
import BitcoinNetwork.Protocols.VersionClock
import BitcoinNetwork.Protocols.Ping
import BitcoinNetwork.Protocols.Seed
import BitcoinNetwork.Protocols.Gossip
import BitcoinNetwork.Protocols.GossipRuns
import BitcoinNetwork.Sam.Lines
import BitcoinNetwork.Sam.Requests
import BitcoinNetwork.Sam.Acceptor
import BitcoinNetwork.Sam.AcceptorRuns
