import CampelloNet.Lib.Run
import CampelloNet.Lib.Keyed
import CampelloNet.Lib.Bytes
import CampelloNet.Lib.Arq
import CampelloNet.Lib.Reassembly
import CampelloNet.Lib.InOrder
import CampelloNet.Lib.Writes
import CampelloNet.Lib.Recency
import CampelloNet.Lib.Ledger
import CampelloNet.Lib.Follower
import CampelloNet.Lib.Ring
import CampelloNet.Lib.SlidingWindow
import CampelloNet.Transport.Address
import CampelloNet.Transport.Packet
import CampelloNet.Transport.Interface
import CampelloNet.Crypto.ChaCha20Poly1305
import CampelloNet.Crypto.Aead
import CampelloNet.Crypto.HmacSha256
import CampelloNet.ConnectionToken
import CampelloNet.ConnectionToken.Lifetime
import CampelloNet.NetworkTime
import CampelloNet.RateLimiter
import CampelloNet.Application
import CampelloNet.Entity
import CampelloNet.Replication
import CampelloNet.Replication.Arrival
import CampelloNet.Replication.Messages
import CampelloNet.Replication.Decoding
import CampelloNet.Replication.Server
import CampelloNet.Replication.System
import CampelloNet.Replication.Acks
import CampelloNet.Replication.Interest
import CampelloNet.Replication.Convergence
import CampelloNet.Replication.History
import CampelloNet.Replication.Contents
import CampelloNet.Rpc
import CampelloNet.Manager.State
import CampelloNet.Manager.Receive
import CampelloNet.Manager.Calls
import CampelloNet.Manager.Packets
import CampelloNet.Manager.Frame
import CampelloNet.Manager.Authority
import CampelloNet.Manager.Delivery
import CampelloNet.Manager.Sending
import CampelloNet.Manager.History
import CampelloNet.Manager.Session
import CampelloNet.Manager.ClientTable
import CampelloNet.Manager.TokenReplay
import CampelloNet.Manager.RateLimit
import CampelloNet.Manager.RpcAuthority
import CampelloNet.Manager.Peers
import CampelloNet.Manager.LocalDelivery
import CampelloNet.Manager.World
import CampelloNet.Manager.HostSession
import CampelloNet.Manager.Provenance
import CampelloNet.Entity.Tables
import CampelloNet.Entity.Convergence
import CampelloNet.Entity.LateJoin
import CampelloNet.Transport.Loopback
import CampelloNet.Transport.LoopbackRouting
import CampelloNet.Transport.LoopbackReset
import CampelloNet.Transport.Queue
import CampelloNet.Transport.NetworkSimulator
import CampelloNet.Transport.SimulatorTraffic
import CampelloNet.Transport.Encrypted
import CampelloNet.Transport.EncryptedWindow
import CampelloNet.Transport.EncryptedNonces
import CampelloNet.Transport.Udp.State
import CampelloNet.Transport.Udp.Send
import CampelloNet.Transport.Udp.Receive
import CampelloNet.Transport.Udp.Interface
import CampelloNet.Manager.ClientTrust
import CampelloNet.Transport.Udp.Frame
import CampelloNet.Transport.Udp.PollSpec
import CampelloNet.Transport.Udp.ImplSpec
import CampelloNet.Transport.Udp.CallSpec
import CampelloNet.Transport.Udp.Client
import CampelloNet.Transport.Udp.World
import CampelloNet.Transport.Udp.Refinement
import CampelloNet.Transport.Udp.ReliableOrdered
import CampelloNet.Transport.Udp.ReliableUnordered
import CampelloNet.Transport.Udp.GapFilling
import CampelloNet.Transport.Udp.UnreliableSequenced
import CampelloNet.Transport.Udp.Fragmentation
import CampelloNet.Transport.Udp.Reassembly
import CampelloNet.Transport.Udp.Interleaving
import CampelloNet.Transport.Udp.Handshake
import CampelloNet.Transport.EncryptedReplay
import CampelloNet.Transport.EncryptedRun
import CampelloNet.Transport.EncryptedDelivery
import CampelloNet.Transport.EncryptedPeers
import CampelloNet.Transport.EncryptedQueue
import CampelloNet.Transport.Medium
import CampelloNet.Transport.EncryptedLink
import CampelloNet.Manager.Drain
import CampelloNet.Lib.Bits
import CampelloNet.Lib.Codec
import CampelloNet.Lib.Blob
import CampelloNet.Serialization.BitStream
import CampelloNet.Serialization.NetworkOrder
import CampelloNet.Serialization.Serializable
import CampelloNet.Serialization.Codes
import CampelloNet.Serialization.RoundTrip
import CampelloNet.Serialization.ByteOrder
import CampelloNet.Lib.Blocks
import CampelloNet.Crypto.Sha256
import CampelloNet.Transport.Udp.AckShift
import CampelloNet.Lib.Checked
import CampelloNet.Serialization.Bounds
import CampelloNet.Crypto.Poly1305
import CampelloNet.Crypto.Poly1305Limbs
import CampelloNet.Lib.Buckets
import CampelloNet.Replication.SpatialInterest
import CampelloNet.Replication.SpatialQueries
import CampelloNet.Transport.Udp.FragmentBounds
import CampelloNet.Lib.Meter
import CampelloNet.Transport.Udp.Attempts
import CampelloNet.Transport.Udp.ConnectionRun
import CampelloNet.Transport.Udp.BandwidthCaps
import CampelloNet.Transport.Udp.Retries
import CampelloNet.Lib.Leb128
import CampelloNet.Serialization.Varint
import CampelloNet.Lib.Latest
import CampelloNet.Replication.SnapshotOrder
import CampelloNet.Replication.Truncation
import CampelloNet.Replication.SnapshotWindow
import CampelloNet.Replication.Interpolation
import CampelloNet.Replication.Frames
import CampelloNet.Replication.Visibility
import CampelloNet.Entity.Handles
import CampelloNet.Manager.Routing
import CampelloNet.Lib.Attendance
import CampelloNet.Manager.Roster
import CampelloNet.Manager.Callbacks
import CampelloNet.Manager.Tracking
import CampelloNet.Manager.Ownership
import CampelloNet.Manager.Oversized
import CampelloNet.RateLimiter.Windows
import CampelloNet.RateLimiter.Drops
import CampelloNet.Lib.Slot
import CampelloNet.Prediction.InputBuffer
import CampelloNet.Prediction.LastTick
import CampelloNet.Prediction.LagCompensator
import CampelloNet.Replication.CellSize
import CampelloNet.Replication.VisibleQuery
import CampelloNet.Replication.EntityCap
import CampelloNet.Manager.Unlimited
import CampelloNet.Lib.Intervals
import CampelloNet.NetworkTime.OffsetError
import CampelloNet.NetworkClock
import CampelloNet.NetworkClock.FrameRate
import CampelloNet.NetworkClock.Alignment
import CampelloNet.Manager.TickLoops
import CampelloNet.Serialization.Tape
import CampelloNet.Serialization.Quantization
import CampelloNet.Serialization.SmallestThree
import CampelloNet.Replication.NetworkVariable
import CampelloNet.Discovery.LanDiscovery
import CampelloNet.Crypto.Poly1305Checked
import CampelloNet.Transport.Udp.Unanswered
import CampelloNet.Manager.Ghosts
import CampelloNet.Serialization.HalfFloat
import CampelloNet.Replication.Rendering
import CampelloNet.Discovery.Lan
import CampelloNet.Manager.Signals
import CampelloNet.Manager.ClockSync
import CampelloNet.Manager.Entities
import CampelloNet.Manager.EntityStates
import CampelloNet.Transport.SimulatorFaults
import CampelloNet.Transport.Udp.Hosts
import CampelloNet.Lib.Floats
