import CampelloNet.Transport.Udp.Send

/-!
# Receiving, and the public methods of `UdpTransport`

The fragment reassembly of `process_payload`, the sequence gate and the packet types of
`process_packet`, `poll`, and the rest of the public interface.
-/

namespace CampelloNet.Transport.Udp

open Lib

/-! ### Fragments -/

/-- What the reassembly table is searched for. -/
def FragmentAssembly.key (fa : FragmentAssembly) : Address × UInt16 := (fa.address, fa.baseSequence)

/-- The assembly of `(addr, sequence)`, a new one if there is none. -/
def findOrCreateFragmentAssembly (impl : Impl) (now : Time) (addr : Address) (sequence : UInt16)
    (fragCount : UInt8) : FragmentAssembly :=
  (lookup FragmentAssembly.key (addr, sequence) impl.fragmentAssemblies).getD
    { address := addr, baseSequence := sequence, fragCount := fragCount, startTime := now,
      fragments := List.replicate fragCount.toNat [] }

/-- Write back an assembly obtained from `findOrCreateFragmentAssembly`. -/
def putFragmentAssembly (impl : Impl) (fa : FragmentAssembly) : Impl :=
  { impl with fragmentAssemblies := upsert FragmentAssembly.key fa impl.fragmentAssemblies }

def removeFragmentAssembly (impl : Impl) (addr : Address) (sequence : UInt16) : Impl :=
  { impl with
    fragmentAssemblies := impl.fragmentAssemblies.filter fun fa => fa.key ≠ (addr, sequence) }

def cleanupFragments (impl : Impl) (currentTime : Time) : Impl :=
  { impl with
    fragmentAssemblies := impl.fragmentAssemblies.filter fun fa => ¬currentTime - fa.startTime > 2 }

/-! ### Payloads and packets -/

def pushReceive (impl : Impl) (sender : Address) (data : Bytes) : Impl :=
  { impl with receiveQueue := impl.receiveQueue ++ [⟨sender, data⟩] }

/-- The payload of an accepted packet from `addr`. There is no result when
`fragments[frag_index - 1]` is outside the assembly's vector: `frag_index - 1` is an `int`, so an
index of 0 reads before its start. -/
def processPayload (P : Platform) (now : Time) (impl : Impl) (addr : Address) (hdr : PacketHeader)
    (payload : Bytes) : Option Impl :=
  if hdr.fragCount > 1 then
    let fa := findOrCreateFragmentAssembly impl now addr hdr.sequence hdr.fragCount
    if hdr.fragIndex = 0 then none
    else
      let i := hdr.fragIndex.toNat - 1
      match fa.fragments[i]? with
      | none => none
      | some (_ :: _) => some (putFragmentAssembly impl fa)
      | some [] =>
        let fa := { fa with
          fragments := fa.fragments.set i payload
          receivedMask := fa.receivedMask ||| (P.oneShl i).toUInt8 }
        if fa.receivedMask.toUInt32 = P.oneShl hdr.fragCount.toNat - 1 then
          some (removeFragmentAssembly (pushReceive (putFragmentAssembly impl fa) addr
            fa.fragments.flatten) addr hdr.sequence)
        else some (putFragmentAssembly impl fa)
  else some (pushReceive impl addr payload)

/-- The sequence gate of `process_packet`: the channel after a packet of its reliability, and
whether the payload goes on to `process_payload`. -/
def acceptPacket (channel : Channel) (hdr : PacketHeader) (payload : Bytes) : Channel × Bool :=
  let seq := hdr.sequence
  match hdr.reliability with
  | .reliableOrdered =>
    let expected := channel.remoteSeq + 1
    if seq = expected then
      ({ channel with remoteSeq := seq, ackBits := (channel.ackBits <<< 1) ||| 1 }, true)
    else if seq > expected then
      -- out of order: kept, unless fragmented, but never looked at again
      if hdr.fragCount ≤ 1 ∧ ∀ p ∈ channel.receiveBuffer, p.sequence ≠ seq then
        ({ channel with receiveBuffer := channel.receiveBuffer ++ [⟨seq, 0, 1, payload⟩] }, false)
      else (channel, false)
    else (channel, false)
  | .reliableUnordered =>
    ({ channel with remoteSeq := seq, ackBits := (channel.ackBits <<< 1) ||| 1 }, true)
  | .unreliableSequenced =>
    if seq ≤ channel.remoteSeq then (channel, false)
    else ({ channel with remoteSeq := seq }, true)
  | .unreliable => (channel, true)

/-- The sender's connection with the time of the packet noted and its acks processed, which happens
whatever the packet's type. -/
def ackedConnection (env : Env) (impl : Impl) (sender : Address) (hdr : PacketHeader) : Connection :=
  processAcks env.now { getOrCreateConnection impl env.now sender with lastRecvTime := env.now }
    hdr.channel hdr.ack hdr.ackBits

def processPacket (P : Platform) (env : Env) (impl : Impl) (sender : Address) (hdr : PacketHeader)
    (payload : Bytes) : Option (Impl × List Datagram) :=
  if hdr.protocolId ≠ PacketHeader.PROTOCOL_ID then some (impl, [])
  else
    let ch := hdr.channel
    let conn := ackedConnection env impl sender hdr
    if hdr.packetType = PacketType.handshake.toUInt8 then
      let conn := if conn.state = .connecting then { conn with state := .connected } else conn
      some (putConnection impl conn, sendHandshake (impl.io env) sender)
    else if hdr.packetType = PacketType.disconnect.toUInt8 then
      some (putConnection impl { conn with state := .disconnecting }, [])
    else if hdr.packetType = PacketType.ack.toUInt8 then
      some (putConnection impl conn, [])
    else
      let accepted := acceptPacket (conn.channels ch) hdr payload
      let impl := putConnection impl (conn.setChannel ch accepted.1)
      if accepted.2 then
        (processPayload P env.now impl sender hdr payload).map fun impl => (impl, [])
      else some (impl, [])

/-! ### Polling -/

/-- One datagram that `recvfrom` returns, and the clock and `sendto` while it is processed. -/
structure Arrival where
  sender : Address
  bytes : Bytes
  env : Env

/-- One turn of the receive loop. `recvfrom` fills a buffer of `MAX_PACKET_SIZE` bytes. -/
def receiveOne (P : Platform) (impl : Impl) (a : Arrival) : Option (Impl × List Datagram) :=
  let received := a.bytes.take MAX_PACKET_SIZE
  if received.length < PacketHeader.SIZE then some (impl, [])
  else
    match PacketHeader.deserialize received with
    | none => some (impl, [])
    | some hdr => processPacket P a.env impl a.sender hdr (received.drop PacketHeader.SIZE)

def receiveLoop (P : Platform) : Impl → List Arrival → Option (Impl × List Datagram)
  | impl, [] => some (impl, [])
  | impl, a :: arrivals => do
    let (impl, ds) ← receiveOne P impl a
    let (impl, ds') ← receiveLoop P impl arrivals
    return (impl, ds ++ ds')

/-- The turn of `poll`'s second loop for one connection. -/
def serviceConnection (io : Io) (t : Time) (conn : Connection) : Connection × List Datagram :=
  if conn.state = .connected then
    let (conn, ds) := resendPending io t conn
    if t - conn.lastSendTime > 1 / 10 then
      ({ conn with lastSendTime := t }, ds ++ sendKeepalive io conn)
    else (conn, ds)
  else (conn, [])

def service (io : Io) (t : Time) : List Connection → List Connection × List Datagram
  | [] => ([], [])
  | conn :: conns =>
    let (conn, ds) := serviceConnection io t conn
    let (conns, ds') := service io t conns
    (conn :: conns, ds ++ ds')

/-- `cleanup_connections` erases these. -/
def Connection.expired (conn : Connection) (currentTime : Time) : Bool :=
  conn.state = .disconnecting ∨ currentTime - conn.lastRecvTime > 5

def cleanupConnections (impl : Impl) (currentTime : Time) : Impl :=
  { impl with connections := impl.connections.filter fun c => !c.expired currentTime }

/-- What `poll` does after its receive loop. `t` is the time at which the poll began. -/
def finishPoll (env : Env) (t : Time) (impl : Impl) : Impl × List Datagram :=
  let (connections, ds) := service (impl.io env) t impl.connections
  (cleanupConnections (cleanupFragments { impl with connections := connections } t) t, ds)

def poll (P : Platform) (env : Env) (t : Time) (arrivals : List Arrival) (impl : Impl) :
    Option (Impl × List Datagram) :=
  if impl.socketOpen = false then some (impl, [])
  else do
    let (impl, ds) ← receiveLoop P impl arrivals
    let (impl, ds') := finishPoll env t impl
    return (impl, ds ++ ds')

/-! ### The other public methods -/

/-- Send on the connections of a list, in order. -/
def sendEach (io : Io) (data : Bytes) (r : PacketReliability) :
    List Connection → List Connection × List Datagram × Bool
  | [] => ([], [], false)
  | conn :: conns =>
    let (conn, ds, ok) := sendToConnection io conn data r 0
    let (conns, ds', ok') := sendEach io data r conns
    (conn :: conns, ds ++ ds', ok || ok')

/-- A client sends to its first connection, a server to all of them. -/
def send (env : Env) (data : Bytes) (r : PacketReliability) (impl : Impl) :
    Impl × List Datagram × Bool :=
  match impl.mode, impl.connections with
  | .client, conn :: conns =>
    let (conn, ds, ok) := sendToConnection (impl.io env) conn data r 0
    ({ impl with connections := conn :: conns }, ds, ok)
  | .server, conns =>
    let (conns, ds, ok) := sendEach (impl.io env) data r conns
    ({ impl with connections := conns }, ds, ok)
  | _, _ => (impl, [], false)

def sendWithPriority (env : Env) (address : Address) (data : Bytes) (r : PacketReliability)
    (priority : UInt8) (impl : Impl) : Impl × List Datagram × Bool :=
  match findConnection impl address with
  | none => (impl, [], false)
  | some conn =>
    let (conn, ds, ok) := sendToConnection (impl.io env) conn data r priority
    (putConnection impl conn, ds, ok)

def sendTo (env : Env) (address : Address) (data : Bytes) (r : PacketReliability) (impl : Impl) :
    Impl × List Datagram × Bool :=
  sendWithPriority env address data r 0 impl

/-- The packet read and its bytes, cut at the caller's buffer; the queue is cleared when all of it
has been read. -/
def popReceive (maxLength : Nat) (impl : Impl) : Impl × Option (Bytes × Address) :=
  match impl.receiveQueue[impl.receiveReadIdx]? with
  | none => ({ impl with receiveQueue := [], receiveReadIdx := 0 }, none)
  | some pkt =>
    ({ impl with receiveReadIdx := impl.receiveReadIdx + 1 },
      some (pkt.data.take maxLength, pkt.sender))

def disconnect (env : Env) (impl : Impl) : Impl × List Datagram :=
  ({}, (impl.connections.filter fun c => c.state = .connected).flatMap fun c =>
    sendDisconnect (impl.io env) c.address)

/-- `opened` tells whether a socket could be created and bound. -/
def bind (env : Env) (opened : Bool) (impl : Impl) : Impl × List Datagram × Bool :=
  let (impl, ds) := disconnect env impl
  if opened then ({ impl with socketOpen := true, mode := .server }, ds, true) else (impl, ds, false)

def connect (env : Env) (opened : Bool) (address : Address) (impl : Impl) :
    Impl × List Datagram × Bool :=
  let (impl, ds) := disconnect env impl
  if opened then
    let impl := { impl with
      socketOpen := true, mode := .client
      connections := [{ address := address, lastRecvTime := env.now }] }
    (impl, ds ++ sendHandshake (impl.io env) address, true)
  else (impl, ds, false)

def isConnected (impl : Impl) : Bool :=
  match impl.mode with
  | .client => impl.connections.head?.any fun c => c.state = .connected
  | .server => impl.socketOpen
  | .none => false

def setConnectionBandwidthLimit (address : Address) (bytesPerSecond : UInt32) (impl : Impl) : Impl :=
  match findConnection impl address with
  | none => impl
  | some conn => putConnection impl { conn with globalBandwidthLimit := bytesPerSecond }

def setChannelBandwidthLimit (address : Address) (r : PacketReliability) (bytesPerSecond : UInt32)
    (impl : Impl) : Impl :=
  match findConnection impl address with
  | none => impl
  | some conn =>
    putConnection impl (conn.setChannel r.index
      { conn.channels r.index with bandwidthLimit := bytesPerSecond })

end CampelloNet.Transport.Udp
