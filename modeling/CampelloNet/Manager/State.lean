import CampelloNet.ConnectionToken
import CampelloNet.Entity
import CampelloNet.NetworkTime
import CampelloNet.RateLimiter
import CampelloNet.Replication
import CampelloNet.Rpc
import CampelloNet.Transport.Interface

/-!
# The state of a network manager

`NetworkManager` over a world `σ` of transports: a transport is a number, under which an interface
`ITransport σ` is known. The managers attached to it are part of its state. What a call asks of the
outside (the clock, the approval callback, the handle of a spawned entity) is the `PacketEnv` of the
packet being handled; the calls it makes into the game are listed in `calls`. Callbacks do not call
the manager back.
-/

namespace CampelloNet

open Lib Transport

namespace NetworkManager

inductive Mode
  | none
  | server
  | client
  | host
  deriving DecidableEq

structure Config where
  mode : Mode := .none
  bindAddress : Address := .invalid
  serverAddress : Address := .invalid
  maxClients : ℕ := 32
  maxPacketSize : ℕ := 8192
  /-- 0 for no limit, as for the next two -/
  maxMessagesPerSec : ℚ := 100
  maxBytesPerSec : ℚ := 1024 * 1024
  maxRpcsPerSec : ℚ := 50
  rateLimitBurst : ℚ := 10
  connectionTokenSecret : Bytes := List.replicate 32 0
  requireConnectionToken : Bool := false

/-- The statistics of one client. -/
structure ClientStats where
  bytesSent : ℕ := 0
  bytesReceived : ℕ := 0
  packetsSent : ℕ := 0
  packetsReceived : ℕ := 0
  lastBytesSent : ℕ := 0
  lastBytesReceived : ℕ := 0
  lastStatsUpdate : ℚ := 0
  bandwidthIn : ℚ := 0
  bandwidthOut : ℚ := 0

structure ClientEntry where
  id : ClientId := 0
  address : Address := .invalid
  /-- `none` for a local client -/
  transport : Option ℕ := none
  approved : Bool := false
  rateLimiter : RateLimiter := {}
  stats : ClientStats := {}

structure ReceivedMessage where
  client : ClientId := 0
  payload : Bytes
  deriving DecidableEq

/-- Which callbacks are registered. -/
structure Callbacks where
  onConnected : Bool := false
  onDisconnected : Bool := false
  onData : Bool := false
  onApproval : Bool := false

/-- Timestamps as they travel: the bits of a double and the number they stand for. -/
structure DoubleFormat where
  toBits : ℚ → UInt64
  ofBits : UInt64 → ℚ

/-- What handling one packet is told by the outside. -/
structure PacketEnv where
  now : ℚ
  /-- the answer of the approval callback -/
  approve : Bool := true
  /-- the answer of `bridge->spawn` -/
  handle : EntityHandle := 0
  format : DoubleFormat

def sysMagic : Bytes := [0xCA, 0xFE]

namespace SysType

def connectRequest : UInt8 := 0
def connectAccept : UInt8 := 1
def connectReject : UInt8 := 2
def disconnectNotify : UInt8 := 3
def timeSyncRequest : UInt8 := 4
def timeSyncResponse : UInt8 := 5
def entitySpawn : UInt8 := 0x10
def entityDestroy : UInt8 := 0x11
def entitySetOwner : UInt8 := 0x12
def entityFullState : UInt8 := 0x13
def deltaState : UInt8 := 0x20
def snapshotAck : UInt8 := 0x21
def rpc : UInt8 := 0x22

end SysType

/-- The packet of a system message. -/
def sysPacket (type : UInt8) (payload : Bytes) : Bytes := sysMagic ++ type :: payload

end NetworkManager

open NetworkManager

structure NetworkManager (σ : Type) where
  mode : Mode := .none
  config : Config := {}
  /-- the transports and the network behind them -/
  world : σ
  transport : Option ℕ := none
  additionalTransports : List ℕ := []
  clients : List ClientEntry := []
  messageQueue : List ReceivedMessage := []
  messageReadIdx : ℕ := 0
  callbacks : Callbacks := {}
  clientConnected : Bool := false
  localClientId : ClientId := 0
  netTime : NetworkTime := {}
  lastTimeSync : ℚ := 0
  awaitingAccept : Bool := false
  clientToken : Bytes := []
  hostLocalRecvQueue : List ReceivedMessage := []
  entityManager : Option NetworkEntityManager := none
  replicationManager : Option NetworkReplicationManager := none
  rpcManager : Option RpcManager := none
  /-- the calls made into the game so far -/
  calls : List AppCall := []

namespace NetworkManager

variable {σ : Type}

/-- The manager is a server with clients. -/
def serving (net : NetworkManager σ) : Bool := net.mode = .server || net.mode = .host

/-- The manager has a server. -/
def joining (net : NetworkManager σ) : Bool := net.mode = .client || net.mode = .host

def called (calls : List AppCall) (net : NetworkManager σ) : NetworkManager σ :=
  { net with calls := net.calls ++ calls }

def findClientById (id : ClientId) (net : NetworkManager σ) : Option ClientEntry :=
  lookup ClientEntry.id id net.clients

def findClientByAddress (addr : Address) (net : NetworkManager σ) : Option ClientEntry :=
  lookup ClientEntry.address addr net.clients

/-- Write through the pointer that the search by address returned. -/
def setClientByAddress (entry : ClientEntry) (net : NetworkManager σ) : NetworkManager σ :=
  { net with clients := upsert ClientEntry.address entry net.clients }

def setClientById (entry : ClientEntry) (net : NetworkManager σ) : NetworkManager σ :=
  { net with clients := upsert ClientEntry.id entry net.clients }

/-- The first unused id from `id` on, within the given number of tries. -/
def firstFreeId (clients : List ClientEntry) : ℕ → ClientId → ClientId
  | 0, id => id
  | tries + 1, id =>
    if (lookup ClientEntry.id id clients).isSome then firstFreeId clients tries (id + 1) else id

/-- A table of `n` clients leaves one of the first `n + 1` ids free. -/
def generateClientId (net : NetworkManager σ) : ClientId :=
  firstFreeId net.clients net.clients.length 1

def pushMessage (client : ClientId) (payload : Bytes) (net : NetworkManager σ) : NetworkManager σ :=
  { net with messageQueue := net.messageQueue ++ [⟨client, payload⟩] }

def pushMessageToHostLocal (client : ClientId) (payload : Bytes) (net : NetworkManager σ) :
    NetworkManager σ :=
  { net with hostLocalRecvQueue := net.hostLocalRecvQueue ++ [⟨client, payload⟩] }

def flushToCallbacks (client : ClientId) (data : Bytes) (net : NetworkManager σ) :
    NetworkManager σ :=
  if net.callbacks.onData then net.called [.onData client data] else net

def callOnConnected (client : ClientId) (net : NetworkManager σ) : NetworkManager σ :=
  if net.callbacks.onConnected then net.called [.onConnected client] else net

def callOnDisconnected (client : ClientId) (net : NetworkManager σ) : NetworkManager σ :=
  if net.callbacks.onDisconnected then net.called [.onDisconnected client] else net

/-- Erase every client with the id. -/
def eraseClient (id : ClientId) (net : NetworkManager σ) : NetworkManager σ :=
  { net with clients := net.clients.filter fun c => c.id ≠ id }

/-- A call of the attached replication manager, if there is one. -/
def tellReplication (f : NetworkReplicationManager → NetworkReplicationManager)
    (net : NetworkManager σ) : NetworkManager σ :=
  { net with replicationManager := net.replicationManager.map f }

section
variable (T : ℕ → ITransport σ)

def sendSys (t : ℕ) (address : Address) (type : UInt8) (payload : Bytes) (net : NetworkManager σ) :
    NetworkManager σ :=
  { net with world := ((T t).sendTo address (sysPacket type payload) .reliableOrdered net.world).1 }

def disconnectTransportClient (t : ℕ) (address : Address) (net : NetworkManager σ) :
    NetworkManager σ :=
  net.sendSys T t address SysType.disconnectNotify []

/-- `transport->disconnect()`, if there is a primary transport. -/
def disconnectTransport (net : NetworkManager σ) : NetworkManager σ :=
  match net.transport with
  | none => net
  | some t => { net with world := (T t).disconnect net.world }

end

end NetworkManager

end CampelloNet
