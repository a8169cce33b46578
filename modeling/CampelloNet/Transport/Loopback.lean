import CampelloNet.Lib.Keyed
import CampelloNet.Transport.Interface
import Mathlib.Algebra.Order.Field.Rat
import Mathlib.Logic.Function.Basic

/-!
# The loopback transport

`LoopbackHub` and the transports that share it. The hub is the state: a transport is an id, under
which the hub keeps its `Impl`, and the maps of the hub hold ids. The clock is a field of the hub.
The draws of a transport's random generator are a stream of which `should_drop` takes the first. The
order of a `std::map` decides only the order in which one broadcast reaches different transports,
so the maps are lists in order of insertion.
-/

namespace CampelloNet.Transport

open Lib

namespace Loopback

structure Packet where
  sender : Address
  data : Bytes
  reliability : PacketReliability
  deriving DecidableEq

structure DelayedPacket where
  deliveryTime : ℚ
  recipient : Address
  sender : Address
  data : Bytes
  reliability : PacketReliability
  broadcast : Bool := false
  deriving DecidableEq

/-- `LoopbackTransport::Impl` -/
structure Impl where
  bound : Bool := false
  connected : Bool := false
  localAddr : Address := .invalid
  remoteAddr : Address := .invalid
  pendingRecv : List Packet := []
  readyRecv : List Packet := []
  latencySec : ℚ := 0
  packetLossRatio : ℚ := 0
  rng : List ℚ := []
  delayedOutbound : List DelayedPacket := []

end Loopback

open Loopback

structure LoopbackHub where
  transports : ℕ → Impl := fun _ => {}
  servers : List (Address × ℕ) := []
  clients : List (Address × ℕ) := []
  clientToServer : List (Address × Address) := []
  nextPort : UInt16 := 50000
  now : ℚ := 0

namespace LoopbackHub

/-- Write one transport's state. -/
def set (hub : LoopbackHub) (id : ℕ) (impl : Impl) : LoopbackHub :=
  { hub with transports := Function.update hub.transports id impl }

def findTransport (hub : LoopbackHub) (addr : Address) : Option ℕ :=
  match lookup Prod.fst addr hub.clients with
  | some client => some client.2
  | none => (lookup Prod.fst addr hub.servers).map Prod.snd

def enqueuePending (hub : LoopbackHub) (id : ℕ) (pkt : Packet) : LoopbackHub :=
  hub.set id { hub.transports id with pendingRecv := (hub.transports id).pendingRecv ++ [pkt] }

def bindServer (hub : LoopbackHub) (addr : Address) (id : ℕ) : LoopbackHub :=
  { hub with servers := upsert Prod.fst (addr, id) hub.servers }

def unbindServer (hub : LoopbackHub) (addr : Address) : LoopbackHub :=
  { hub with
    servers := hub.servers.filter fun s => s.1 ≠ addr
    clients := hub.clients.filter fun c => (c.1, addr) ∉ hub.clientToServer
    clientToServer := hub.clientToServer.filter fun c => c.2 ≠ addr }

/-- The first free client port from `port`, and the port after it. -/
def freePort (clients : List (Address × ℕ)) : ℕ → UInt16 → UInt16
  | 0, port => port
  | fuel + 1, port =>
    if (lookup Prod.fst (Address.ofIPv4 127 0 0 1 port) clients).isSome then
      freePort clients fuel (port + 1)
    else port

def connectClient (hub : LoopbackHub) (serverAddr : Address) (id : ℕ) :
    LoopbackHub × Option Address :=
  if (lookup Prod.fst serverAddr hub.servers).isNone then (hub, none)
  else
    let port := freePort hub.clients (2 ^ 16) hub.nextPort
    let clientAddr := Address.ofIPv4 127 0 0 1 port
    ({ hub with
        clients := upsert Prod.fst (clientAddr, id) hub.clients
        clientToServer := upsert Prod.fst (clientAddr, serverAddr) hub.clientToServer
        nextPort := port + 1 }, some clientAddr)

def disconnectClient (hub : LoopbackHub) (clientAddr : Address) : LoopbackHub :=
  { hub with
    clients := hub.clients.filter fun c => c.1 ≠ clientAddr
    clientToServer := hub.clientToServer.filter fun c => c.1 ≠ clientAddr }

def deliver (hub : LoopbackHub) (recipient : Address) (pkt : Packet) : LoopbackHub :=
  match hub.findTransport recipient with
  | none => hub
  | some id => hub.enqueuePending id pkt

def broadcast (hub : LoopbackHub) (serverAddr : Address) (pkt : Packet) : LoopbackHub :=
  (hub.clientToServer.filter fun c => c.2 = serverAddr).foldl (fun hub c =>
    match lookup Prod.fst c.1 hub.clients with
    | none => hub
    | some client => hub.enqueuePending client.2 pkt) hub

end LoopbackHub

/-! ### The methods of transport `id` -/

namespace LoopbackTransport

variable (id : ℕ)

def bind (address : Address) (hub : LoopbackHub) : LoopbackHub × Bool :=
  let impl := hub.transports id
  if impl.bound then (hub, false)
  else ((hub.bindServer address id).set id { impl with localAddr := address, bound := true }, true)

def connect (address : Address) (hub : LoopbackHub) : LoopbackHub × Bool :=
  let impl := hub.transports id
  if impl.connected ∨ impl.bound then (hub, false)
  else
    match hub.connectClient address id with
    | (hub, none) => (hub, false)
    | (hub, some clientAddr) =>
      (hub.set id { impl with
        localAddr := clientAddr, remoteAddr := address, connected := true }, true)

def disconnect (hub : LoopbackHub) : LoopbackHub :=
  let impl := hub.transports id
  let hub := if impl.bound then hub.unbindServer impl.localAddr else hub
  let hub := if impl.connected then hub.disconnectClient impl.localAddr else hub
  hub.set id { impl with
    bound := false, connected := false, localAddr := .invalid, remoteAddr := .invalid
    pendingRecv := [], readyRecv := [] }

def isConnected (hub : LoopbackHub) : Bool := (hub.transports id).bound || (hub.transports id).connected

/-- Whether the next packet is lost; a draw is used only when packets can be lost. -/
def shouldDrop (hub : LoopbackHub) : LoopbackHub × Bool :=
  let impl := hub.transports id
  if impl.packetLossRatio ≤ 0 then (hub, false)
  else (hub.set id { impl with rng := impl.rng.tail }, impl.rng.headD 0 < impl.packetLossRatio)

def delay (dp : DelayedPacket) (hub : LoopbackHub) : LoopbackHub :=
  hub.set id { hub.transports id with
    delayedOutbound := (hub.transports id).delayedOutbound ++ [dp] }

def send (data : Bytes) (r : PacketReliability) (hub : LoopbackHub) : LoopbackHub × Bool :=
  let (hub, drop) := shouldDrop id hub
  let impl := hub.transports id
  if drop then (hub, true)
  else if impl.latencySec > 0 then
    (delay id
      { deliveryTime := hub.now + impl.latencySec
        recipient := if impl.bound then impl.localAddr else impl.remoteAddr
        sender := impl.localAddr, data := data, reliability := r, broadcast := impl.bound } hub, true)
  else if impl.bound then (hub.broadcast impl.localAddr ⟨impl.localAddr, data, r⟩, true)
  else if impl.connected then (hub.deliver impl.remoteAddr ⟨impl.localAddr, data, r⟩, true)
  else (hub, false)

def sendTo (address : Address) (data : Bytes) (r : PacketReliability) (hub : LoopbackHub) :
    LoopbackHub × Bool :=
  if (hub.transports id).bound = false then (hub, false)
  else
    let (hub, drop) := shouldDrop id hub
    let impl := hub.transports id
    if drop then (hub, true)
    else if impl.latencySec > 0 then
      (delay id
        { deliveryTime := hub.now + impl.latencySec, recipient := address
          sender := impl.localAddr, data := data, reliability := r } hub, true)
    else (hub.deliver address ⟨impl.localAddr, data, r⟩, true)

/-- Hand over the delayed packets whose time has come, and move what was pending to the queue. -/
def poll (hub : LoopbackHub) : LoopbackHub :=
  let impl := hub.transports id
  let due := impl.delayedOutbound.filter fun dp => dp.deliveryTime ≤ hub.now
  let hub := hub.set id { impl with
    delayedOutbound := impl.delayedOutbound.filter fun dp => ¬dp.deliveryTime ≤ hub.now }
  let hub := due.foldl (fun hub dp =>
    if dp.broadcast then hub.broadcast dp.sender ⟨dp.sender, dp.data, dp.reliability⟩
    else hub.deliver dp.recipient ⟨dp.sender, dp.data, dp.reliability⟩) hub
  let impl := hub.transports id
  hub.set id { impl with readyRecv := impl.readyRecv ++ impl.pendingRecv, pendingRecv := [] }

def popReceive (maxLength : ℕ) (hub : LoopbackHub) : LoopbackHub × Option (Bytes × Address) :=
  match (hub.transports id).readyRecv with
  | [] => (hub, none)
  | pkt :: rest =>
    (hub.set id { hub.transports id with readyRecv := rest }, some (pkt.data.take maxLength, pkt.sender))

def setLatency (seconds : ℚ) (hub : LoopbackHub) : LoopbackHub :=
  hub.set id { hub.transports id with latencySec := max 0 seconds }

def setPacketLoss (ratio : ℚ) (hub : LoopbackHub) : LoopbackHub :=
  hub.set id { hub.transports id with packetLossRatio := if ratio < 0 then 0 else min ratio 1 }

def iTransport : ITransport LoopbackHub where
  bind := bind id
  connect := connect id
  disconnect := disconnect id
  isConnected := isConnected id
  send := send id
  sendTo := sendTo id
  poll := poll id
  popReceive := popReceive id
  getConnectionRtt _ hub := (hub.transports id).latencySec * 2

end LoopbackTransport

/-! ### A server and a client -/

namespace LoopbackHub

def serverAddr : Address := .ofIPv4 127 0 0 1 7000

/-- Transport 0 is a bound server, transport 1 a client connected to it. -/
def connected : LoopbackHub :=
  (LoopbackTransport.connect 1 serverAddr (LoopbackTransport.bind 0 serverAddr {}).1).1

def clientAddr : Address := (connected.transports 1).localAddr

/-- The server's queue holds these packets of the client. -/
def arrived (packets : List Bytes) : LoopbackHub :=
  connected.set 0 { connected.transports 0 with
    readyRecv := packets.map fun data => ⟨clientAddr, data, .reliableOrdered⟩ }

end LoopbackHub

end CampelloNet.Transport
