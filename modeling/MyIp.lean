import MyIp.Foundations.Run
import MyIp.Foundations.Inevitable
import MyIp.Foundations.Bytes
import MyIp.Foundations.Locks
import MyIp.Foundations.CText
import MyIp.Foundations.Base128
import MyIp.Foundations.Ber
import MyIp.Foundations.Trie
import MyIp.Foundations.Framing
import MyIp.Foundations.Crc
import MyIp.Foundations.BoundedBuffer
import MyIp.Foundations.Registry
import MyIp.Foundations.Cbc
import MyIp.Foundations.Segments
import MyIp.Foundations.Serial
import MyIp.Foundations.TurnLoop
import MyIp.Foundations.Traced
import MyIp.Foundations.Paths
import MyIp.Foundations.Argmax
import MyIp.Foundations.Bits
import MyIp.Net.AnyAddr
import MyIp.Foundations.OnesComplement
import MyIp.Net.Checksum
import MyIp.Net.InternetChecksum
import MyIp.Net.Str
import MyIp.Net.Buffer
import MyIp.Net.Cursor
import MyIp.Snmp.Elem
import MyIp.Snmp.Data
import MyIp.Snmp.Walk
import MyIp.Snmp.Next
import MyIp.Snmp.Registration
import MyIp.Snmp.Oid
import MyIp.Snmp.OidStores
import MyIp.Snmp.Reply
import MyIp.Snmp.Request
import MyIp.Snmp.LongForm
import MyIp.Snmp.Buffers
import MyIp.Snmp.Confined
import MyIp.Snmp.Positions
import MyIp.Snmp.ReadsInside
import MyIp.Tcp.Session
import MyIp.Tcp.Segment
import MyIp.Tcp.PacketHandler
import MyIp.Tcp.Sender
import MyIp.Tcp.Stages
import MyIp.Tcp.Resend
import MyIp.Tcp.Acts
import MyIp.Tcp.LifeCycle
import MyIp.Tcp.SendStream
import MyIp.Tcp.SendData
import MyIp.Tcp.ClientSend
import MyIp.Tcp.SendBuffer
import MyIp.Tcp.ReceiveStream
import MyIp.Tcp.Flags
import MyIp.Tcp.OwnFin
import MyIp.Tcp.Handshake
import MyIp.Tcp.PeerFin
import MyIp.Tcp.AckNumbers
import MyIp.Tcp.Window
import MyIp.Tcp.EndPoints
import MyIp.Tcp.Layer
import MyIp.Tcp.LayerSteps
import MyIp.Tcp.Lookup
import MyIp.Tcp.LayerRuns
import MyIp.Tcp.Removal
import MyIp.Tcp.Cleaner
import MyIp.Tcp.NewData
import MyIp.Tcp.Options
import MyIp.Tcp.ClientPorts
import MyIp.Tcp.Callbacks
import MyIp.Tcp.LockOrder
import MyIp.Phys.Device
import MyIp.Phys.Slip
import MyIp.Phys.Kiss
import MyIp.Phys.Ppp
import MyIp.Phys.Xcp
import MyIp.Phys.Lcp
import MyIp.Phys.PppReceiver
import MyIp.Ax25.Address
import MyIp.Ax25.Packet
import MyIp.Ax25.Received
import MyIp.Ax25.Truncated
import MyIp.Phys.Bpq
import MyIp.Phys.KissLink
import MyIp.Vpn.Tunnel
import MyIp.Vpn.Fields
import MyIp.Router
import MyIp.Sctp.Chunks
import MyIp.Sctp.Sack
import MyIp.Sctp.Receive
import MyIp.Sctp.Transfer
import MyIp.Sctp.Handshake
import MyIp.Sctp.Tags
import MyIp.Sctp.SendCounters
import MyIp.Sctp.Partial
import MyIp.Sctp.Cursors
import MyIp.Foundations.KeyedList
import MyIp.Router.Table
import MyIp.Icmp6.RouterAdvertisement
import MyIp.Router.Lookup
import MyIp.Arp.AddressCache
import MyIp.Arp.MacResolver
import MyIp.Arp.Input
import MyIp.Ipv4.Forward
import MyIp.Ipv4.Demux
import MyIp.Phys.Tap
import MyIp.Arp.Network
import MyIp.Ipv4.Transmit
import MyIp.Ipv4.Path
import MyIp.Foundations.Naming
import MyIp.Irc.Nicknames
import MyIp.Irc.Channels
import MyIp.Http.Response
import MyIp.Vnc.Session
import MyIp.Vnc.Stream
import MyIp.Vnc.NextCommand
import MyIp.Vnc.Segmentation
import MyIp.Dns.Input
import MyIp.Dns.Response
import MyIp.Fifo
import MyIp.FifoStats
import MyIp.Mqtt.RemainingLength
import MyIp.Mqtt.Input
import MyIp.Mqtt.Packets
import MyIp.Mqtt.Reads
import MyIp.Mqtt.Client
import MyIp.Mqtt.Topics
import MyIp.Mqtt.Broker
import MyIp.Mqtt.InputLocks
import MyIp.Net.Layers
import MyIp.Icmp4.Echo
import MyIp.Icmp4.Unreachable
import MyIp.Icmp4.Ping
import MyIp.Udp.Transmit
import MyIp.Udp.Input
import MyIp.Udp.Path
import MyIp.Icmp6.OptionWalk
import MyIp.Icmp6.Input
import MyIp.Icmp6.Echo
import MyIp.Ipv6.Receive
import MyIp.Ipv6.Transmit
import MyIp.Ipv6.Extension
import MyIp.Dns.Names
import MyIp.Dns.Bounds
import MyIp.Dns.Request
import MyIp.Dns.Query
import MyIp.Foundations.Radix
import MyIp.Net.AddressText
import MyIp.Ntp.Timestamps
import MyIp.Mdns.Announce
import MyIp.Tcp.SegmentChecksum
import MyIp.Stats.Segment
import MyIp.Vnc.FrameBuffer
import MyIp.Vnc.Hextile
import MyIp.Vnc.Updates
import MyIp.Vnc.Client
import MyIp.Nrpe.Responses
import MyIp.Foundations.Exchange
import MyIp.Foundations.Broadcast
import MyIp.Tcp.Connection
