import CampelloNet.Manager.State
import CampelloNet.Crypto.HmacSha256

/-!
# Receiving

`process_system_message`, one definition for each of its cases, and the loop that takes packets from
a transport until it has no more.
-/

namespace CampelloNet.NetworkManager

open Lib Transport Crypto

variable {σ : Type} (T : ℕ → ITransport σ)

/-! ### Queries that handlers make -/

def networkTime (now : ℚ) (net : NetworkManager σ) : ℚ :=
  if net.mode = .host then now else net.netTime.localToRemote now

def clientRtt (client : ClientId) (net : NetworkManager σ) : ℚ :=
  if net.mode = .host ∧ client = net.localClientId then 0
  else
    match net.findClientById client with
    | none => 0
    | some entry =>
      match entry.transport with
      | none => 0
      | some t => (T t).getConnectionRtt entry.address net.world

def clientCount (net : NetworkManager σ) : ℕ := net.clients.countP ClientEntry.approved

/-! ### Connections -/

/-- Whether the token check lets the request pass, and the data that is left for the approval. -/
def checkToken (env : PacketEnv) (data : Bytes) (net : NetworkManager σ) : Bool × Bytes :=
  if !net.config.requireConnectionToken then (true, data)
  else if data.length < ConnectionToken.SIZE then (false, data)
  else if ConnectionToken.validate hmacSha256 (data.take ConnectionToken.SIZE)
      net.config.connectionTokenSecret (UInt32.ofInt env.now.floor) then
    (true, data.drop ConnectionToken.SIZE)
  else (false, data)

/-- The answer to a connect request, and the call that asked for it. -/
def checkApproval (env : PacketEnv) (sender : Address) (data : Bytes) (net : NetworkManager σ) :
    NetworkManager σ × Bool :=
  let (tokenValid, authData) := net.checkToken env data
  if tokenValid && net.callbacks.onApproval then
    (net.called [.onApproval sender authData], env.approve)
  else (net, tokenValid)

def rejectClient (t : ℕ) (sender : Address) (reason : Bytes) (net : NetworkManager σ) :
    NetworkManager σ :=
  (net.sendSys T t sender SysType.connectReject reason).disconnectTransportClient T t sender

def newEntry (env : PacketEnv) (t : ℕ) (sender : Address) (net : NetworkManager σ) : ClientEntry where
  id := net.generateClientId
  address := sender
  transport := some t
  approved := true
  rateLimiter :=
    { msgBucket := .configure .ieee net.config.maxMessagesPerSec net.config.rateLimitBurst env.now
      byteBucket := .configure .ieee net.config.maxBytesPerSec (net.config.rateLimitBurst * 1024) env.now
      rpcBucket := .configure .ieee net.config.maxRpcsPerSec net.config.rateLimitBurst env.now }

def admitClient (entry : ClientEntry) (t : ℕ) (net : NetworkManager σ) : NetworkManager σ :=
  let net := { net with clients := net.clients ++ [entry] }
  let net := net.sendSys T t entry.address SysType.connectAccept (be64 entry.id)
  (net.callOnConnected entry.id).tellReplication (.onClientConnected entry.id)

def onConnectRequest (env : PacketEnv) (sender : Address) (t : ℕ) (data : Bytes)
    (net : NetworkManager σ) : NetworkManager σ :=
  if !net.serving then net
  else
    match (net.findClientByAddress sender).filter ClientEntry.approved with
    | some existing => net.sendSys T t sender SysType.connectAccept (be64 existing.id)
    | none =>
      let (net, approved) := net.checkApproval env sender data
      if !approved then net.rejectClient T t sender [82, 74, 67, 84] -- "RJCT"
      else if net.clientCount ≥ net.config.maxClients then
        net.rejectClient T t sender [70, 85, 76, 76] -- "FULL"
      else net.admitClient T (net.newEntry env t sender) t

def onConnectAccept (data : Bytes) (net : NetworkManager σ) : NetworkManager σ :=
  if !net.joining then net
  else if data.length < 8 then net
  else
    let id := readBe64 data
    let net := { net with localClientId := id, clientConnected := true, awaitingAccept := false }
    (net.callOnConnected id).tellReplication (.onClientConnected id)

def onConnectReject (net : NetworkManager σ) : NetworkManager σ :=
  if !net.joining then net
  else
    { ({ net with awaitingAccept := false }.disconnectTransport T) with clientConnected := false }

/-- The removal of a client, as the game and the replication manager are told of it. -/
def dropClient (id : ClientId) (net : NetworkManager σ) : NetworkManager σ :=
  ((net.eraseClient id).callOnDisconnected id).tellReplication (.onClientDisconnected id)

def onDisconnectNotify (sender : Address) (net : NetworkManager σ) : NetworkManager σ :=
  if net.serving then
    match net.findClientByAddress sender with
    | none => net
    | some entry => net.dropClient entry.id
  else if net.mode = .client then
    let net := { net with clientConnected := false, localClientId := 0 }.disconnectTransport T
    (net.callOnDisconnected 0).tellReplication (.onClientDisconnected 0)
  else net

/-! ### Clocks -/

/-- The client's timestamp is sent back as it came. -/
def onTimeSyncRequest (env : PacketEnv) (sender : Address) (t : ℕ) (data : Bytes)
    (net : NetworkManager σ) : NetworkManager σ :=
  if !net.serving then net
  else if data.length < 8 then net
  else
    let now := be64 (env.format.toBits env.now)
    net.sendSys T t sender SysType.timeSyncResponse (data.take 8 ++ now ++ now)

def onTimeSyncResponse (env : PacketEnv) (data : Bytes) (net : NetworkManager σ) :
    NetworkManager σ :=
  if !net.joining then net
  else if data.length < 24 then net
  else
    let at' (offset : ℕ) := env.format.ofBits (readBe64 (data.drop offset))
    { net with netTime := net.netTime.recordSample (at' 0) (at' 8) (at' 16) env.now }

/-! ### The attached managers -/

def tellEntities (f : NetworkEntityManager → NetworkEntityManager × List AppCall)
    (net : NetworkManager σ) : NetworkManager σ :=
  match net.entityManager with
  | none => net
  | some em => { net with entityManager := some (f em).1 }.called (f em).2

def onDeltaState (data : Bytes) (net : NetworkManager σ) : NetworkManager σ :=
  match net.replicationManager with
  | none => net
  | some rep =>
    { net with replicationManager := some (rep.onReceiveDelta data).1 }.called
      (rep.onReceiveDelta data).2

def onSnapshotAck (senderId : ClientId) (data : Bytes) (net : NetworkManager σ) :
    NetworkManager σ :=
  if data.length ≥ 2 then net.tellReplication (.onSnapshotAck senderId (readBe16 data)) else net

/-- The limit on the RPCs of the sender. -/
def allowRpc (env : PacketEnv) (sender : Address) (net : NetworkManager σ) :
    NetworkManager σ × Bool :=
  if net.serving then
    match net.findClientByAddress sender with
    | none => (net, true)
    | some entry =>
      let (limiter, ok) := entry.rateLimiter.allowRpc .ieee env.now
      (net.setClientByAddress { entry with rateLimiter := limiter }, ok)
  else (net, true)

def onRpc (env : PacketEnv) (senderId : ClientId) (sender : Address) (data : Bytes)
    (net : NetworkManager σ) : NetworkManager σ :=
  match net.rpcManager with
  | none => net
  | some rpc =>
    let (net, allowed) := net.allowRpc env sender
    if allowed then
      let (rpc, calls) := rpc.onReceive
        ⟨env.now, net.networkTime env.now, net.clientRtt T senderId⟩ senderId data
      { net with rpcManager := some rpc }.called calls
    else net

def processSystemMessage (env : PacketEnv) (senderId : ClientId) (sender : Address) (t : ℕ)
    (type : UInt8) (data : Bytes) (net : NetworkManager σ) : NetworkManager σ :=
  if type = SysType.connectRequest then net.onConnectRequest T env sender t data
  else if type = SysType.connectAccept then net.onConnectAccept data
  else if type = SysType.connectReject then net.onConnectReject T
  else if type = SysType.disconnectNotify then net.onDisconnectNotify T sender
  else if type = SysType.timeSyncRequest then net.onTimeSyncRequest T env sender t data
  else if type = SysType.timeSyncResponse then net.onTimeSyncResponse env data
  else if type = SysType.entitySpawn then net.tellEntities fun em => em.onReceiveSpawn data env.handle
  else if type = SysType.entityDestroy then net.tellEntities fun em => em.onReceiveDestroy data
  else if type = SysType.entitySetOwner then
    net.tellEntities fun em => (em.onReceiveSetOwner data, [])
  else if type = SysType.entityFullState then
    net.tellEntities fun em => (em.onReceiveFullState data, [])
  else if type = SysType.deltaState then net.onDeltaState data
  else if type = SysType.snapshotAck then net.onSnapshotAck senderId data
  else if type = SysType.rpc then net.onRpc T env senderId sender data
  else net

/-! ### Packets -/

/-- The size of the buffer that packets are received in. -/
def BUF_SIZE : ℕ := 4096

/-- The packet begins as a system message does. -/
def isSystem (buffer : Bytes) : Bool := buffer.length ≥ 3 && buffer.take 2 == sysMagic

/-- A packet longer than `max_packet_size` costs a client its connection. -/
def onOversized (sender : Address) (net : NetworkManager σ) : NetworkManager σ :=
  if !net.serving then net
  else
    match net.findClientByAddress sender with
    | none => net
    | some entry =>
      match entry.transport with
      | none => net
      | some t =>
        if entry.id = net.localClientId then net
        else (net.disconnectTransportClient T t entry.address).dropClient entry.id

def onSystem (env : PacketEnv) (t : ℕ) (buffer : Bytes) (sender : Address)
    (net : NetworkManager σ) : NetworkManager σ :=
  let type := buffer.getD 2 0
  let payload := buffer.drop 3
  if net.serving then
    match net.findClientByAddress sender with
    | some entry => net.processSystemMessage T env entry.id sender t type payload
    | none =>
      if type = SysType.connectRequest then net.processSystemMessage T env 0 sender t type payload
      else net
  else net.processSystemMessage T env 0 sender t type payload

/-- The entry of a client after a user message of the given length was let through. -/
def countReceived (limiter : RateLimiter) (length : ℕ) (entry : ClientEntry) : ClientEntry :=
  { entry with
    rateLimiter := limiter
    stats := { entry.stats with
      bytesReceived := entry.stats.bytesReceived + length
      packetsReceived := entry.stats.packetsReceived + 1 } }

def onUser (env : PacketEnv) (buffer : Bytes) (sender : Address) (net : NetworkManager σ) :
    NetworkManager σ :=
  if net.serving then
    match net.findClientByAddress sender with
    | none => net
    | some entry =>
      let (limiter, ok) := entry.rateLimiter.allowMessage .ieee buffer.length env.now
      if ok then
        let net := net.setClientByAddress (countReceived limiter buffer.length entry)
        (net.pushMessage entry.id buffer).flushToCallbacks entry.id buffer
      else net.setClientByAddress { entry with rateLimiter := limiter }
  else if net.mode = .client then (net.pushMessage 0 buffer).flushToCallbacks 0 buffer
  else net

/-- One turn of the receive loop: `buffer` and `sender` are what `pop_receive` returned. -/
def handlePacket (env : PacketEnv) (t : ℕ) (buffer : Bytes) (sender : Address)
    (net : NetworkManager σ) : NetworkManager σ :=
  if buffer = [] then net
  else if buffer.length > net.config.maxPacketSize then net.onOversized T sender
  else if isSystem buffer then net.onSystem T env t buffer sender
  else net.onUser env buffer sender

/-- The receive loop of transport `t`, one environment for each packet; those that are left over are
returned. -/
def pollTransportReceivesFor (t : ℕ) :
    List PacketEnv → NetworkManager σ → Option (NetworkManager σ × List PacketEnv)
  | envs, net =>
    match (T t).popReceive BUF_SIZE net.world with
    | (world, none) => some ({ net with world := world }, envs)
    | (world, some (buffer, sender)) =>
      match envs with
      | [] => none
      | env :: envs =>
        pollTransportReceivesFor t envs ({ net with world := world }.handlePacket T env t buffer sender)

/-- The transports in the order in which they are polled. -/
def transports (net : NetworkManager σ) : List ℕ := net.transport.toList ++ net.additionalTransports

def pollTransportReceives :
    List ℕ → List PacketEnv → NetworkManager σ → Option (NetworkManager σ × List PacketEnv)
  | [], envs, net => some (net, envs)
  | t :: ts, envs, net =>
    (net.pollTransportReceivesFor T t envs).bind fun out => pollTransportReceives ts out.2 out.1

end CampelloNet.NetworkManager
