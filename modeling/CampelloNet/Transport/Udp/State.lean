import CampelloNet.Lib.Keyed
import CampelloNet.Transport.Packet
import Mathlib.Algebra.Order.Field.Rat

/-!
# The UDP transport

`UdpTransport::Impl` and the public methods of `UdpTransport`, function by function. Times and the
RTT estimate are exact rationals where the source has `double` and `float`; sequence numbers, ack
words, retry counters, fragment masks and byte counters have the source's widths.

What a method reads of the world around it is an argument: the clock and whether `sendto` accepts a
datagram (`Env`), the datagrams `recvfrom` returns during one poll (`Arrival`), and the value of
`1u << n` for `n ≥ 32`, which C++ leaves undefined (`Platform`). What it does to that world is in
its result: the datagrams handed to the network, in order. An access outside the `fragments` vector
is undefined behaviour, so `processPayload` has no result there, and neither has the call it
happened in.
-/

namespace CampelloNet.Transport.Udp

open Lib

/-- Seconds of the steady clock. -/
abbrev Time := ℚ

structure Datagram where
  dest : Address
  bytes : Bytes
  deriving DecidableEq, Repr

/-- What one call sees of the clock and of `sendto`. -/
structure Env where
  now : Time
  sendto : Datagram → Bool

/-- The compiler's choice for `1u << n` with `n` outside the width of the operand. -/
structure Platform where
  shlWide : Nat → UInt32

/-- `1u << n` -/
def Platform.oneShl (P : Platform) (n : Nat) : UInt32 :=
  if n < 32 then 1 <<< UInt32.ofNat n else P.shlWide n

/-! ### State -/

structure Pending where
  sequence : UInt16
  sendTime : Time
  retries : UInt8
  data : Bytes
  fragmented : Bool
  priority : UInt8
  deriving DecidableEq

structure BufferedPacket where
  sequence : UInt16
  fragIndex : UInt8
  fragCount : UInt8
  data : Bytes
  deriving DecidableEq

structure Channel where
  localSeq : UInt16 := 0
  remoteSeq : UInt16 := 0xFFFF
  ackBits : UInt32 := 0
  pending : List Pending := []
  receiveBuffer : List BufferedPacket := []
  /-- bytes/sec, 0 = unlimited -/
  bandwidthLimit : UInt32 := 0
  bytesSentThisSecond : UInt32 := 0
  deriving DecidableEq

/-- `Connection::State` -/
inductive ConnState
  | connecting
  | connected
  | disconnecting
  deriving DecidableEq, Repr

structure Connection where
  address : Address
  state : ConnState := .connecting
  lastRecvTime : Time := 0
  lastSendTime : Time := 0
  smoothedRtt : Time := 1 / 10
  rttVariance : Time := 1 / 20
  channels : Fin 4 → Channel := fun _ => {}
  globalBandwidthLimit : UInt32 := 0
  bytesSentThisSecond : UInt32 := 0
  lastBandwidthReset : Time := 0

/-- Write one element of the `channels` array. -/
def Connection.setChannel (conn : Connection) (ch : Fin 4) (channel : Channel) : Connection :=
  { conn with channels := Function.update conn.channels ch channel }

structure ReceivedPacket where
  sender : Address
  data : Bytes
  deriving DecidableEq

structure FragmentAssembly where
  address : Address
  baseSequence : UInt16
  fragCount : UInt8
  receivedMask : UInt8 := 0
  startTime : Time
  fragments : List Bytes
  deriving DecidableEq

inductive Mode
  | none
  | server
  | client
  deriving DecidableEq, Repr

structure Impl where
  /-- `socket_ != INVALID_SOCKET_VAL` -/
  socketOpen : Bool := false
  mode : Mode := .none
  connections : List Connection := []
  receiveQueue : List ReceivedPacket := []
  receiveReadIdx : Nat := 0
  fragmentAssemblies : List FragmentAssembly := []

/-- The part of `Impl` and of the operating system that sending on a connection uses. -/
structure Io extends Env where
  socketOpen : Bool

def Impl.io (impl : Impl) (env : Env) : Io := { env with socketOpen := impl.socketOpen }

/-! ### Socket and connection helpers -/

def sendRaw (io : Io) (dest : Address) (hdr : PacketHeader) (payload : Bytes) : Option Datagram :=
  if io.socketOpen = false then none
  else if PacketHeader.SIZE + payload.length > MAX_PACKET_SIZE then none
  else if io.sendto ⟨dest, hdr.serialize ++ payload⟩ then some ⟨dest, hdr.serialize ++ payload⟩
  else none

def findConnection (impl : Impl) (addr : Address) : Option Connection :=
  lookup Connection.address addr impl.connections

/-- The connection to `addr`, a new one in state Connecting if there is none. -/
def getOrCreateConnection (impl : Impl) (now : Time) (addr : Address) : Connection :=
  (findConnection impl addr).getD { address := addr, lastRecvTime := now }

/-- Write back a connection obtained from `getOrCreateConnection`. -/
def putConnection (impl : Impl) (conn : Connection) : Impl :=
  { impl with connections := upsert Connection.address conn impl.connections }

/-! ### Bandwidth helpers -/

def resetBandwidthCounters (conn : Connection) (currentTime : Time) : Connection :=
  if currentTime - conn.lastBandwidthReset ≥ 1 then
    { conn with
      bytesSentThisSecond := 0
      lastBandwidthReset := currentTime
      channels := fun i => { conn.channels i with bytesSentThisSecond := 0 } }
  else conn

def checkAndConsumeBandwidth (io : Io) (conn : Connection) (ch : Fin 4) (packetSize : Nat) :
    Connection × Bool :=
  let conn := resetBandwidthCounters conn io.now
  let channel := conn.channels ch
  if conn.globalBandwidthLimit > 0 ∧
      conn.bytesSentThisSecond.toNat + packetSize > conn.globalBandwidthLimit.toNat then
    (conn, false)
  else if channel.bandwidthLimit > 0 ∧
      channel.bytesSentThisSecond.toNat + packetSize > channel.bandwidthLimit.toNat then
    (conn, false)
  else
    ({ conn.setChannel ch
        { channel with bytesSentThisSecond := channel.bytesSentThisSecond + .ofNat packetSize } with
       bytesSentThisSecond := conn.bytesSentThisSecond + .ofNat packetSize }, true)

end CampelloNet.Transport.Udp
