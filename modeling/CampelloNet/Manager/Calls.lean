import CampelloNet.Manager.Receive
import CampelloNet.Lib.Run
import CampelloNet.Transport.Loopback

/-!
# The calls of an application

The public methods of `NetworkManager`, and those of the attached managers that act through it. A
step of a system is one `Call`; `network` stands for whatever the rest of the world does to the
transports between two calls.
-/

namespace CampelloNet.NetworkManager

open Lib Transport

variable {σ : Type} (T : ℕ → ITransport σ)

/-! ### Sending -/

def countSent (length : ℕ) (entry : ClientEntry) : ClientEntry :=
  { entry with stats := { entry.stats with
      bytesSent := entry.stats.bytesSent + length, packetsSent := entry.stats.packetsSent + 1 } }

/-- Server or host: send to one client. -/
def sendToClient (client : ClientId) (data : Bytes) (r : PacketReliability)
    (net : NetworkManager σ) : NetworkManager σ × Bool :=
  if !net.serving then (net, false)
  else if net.mode = .host ∧ client = net.localClientId then
    (net.pushMessageToHostLocal client data, true)
  else
    match (net.findClientById client).filter ClientEntry.approved with
    | none => (net, false)
    | some entry =>
      match entry.transport with
      | none => ((net.pushMessage client data).flushToCallbacks client data, true)
      | some t =>
        let (world, ok) := (T t).sendTo entry.address data r net.world
        let net := { net with world := world }
        (if ok then net.setClientById (countSent data.length entry) else net, ok)

/-- What `broadcast` does for one client of the table. -/
def broadcastOne (data : Bytes) (r : PacketReliability) (exclude : ClientId) (c : ClientEntry)
    (net : NetworkManager σ) : NetworkManager σ × ClientEntry :=
  if c.id = exclude ∨ ¬c.approved ∨ c.id = net.localClientId then (net, c)
  else
    match c.transport with
    | none => ((net.pushMessage c.id data).flushToCallbacks c.id data, c)
    | some t =>
      let (world, ok) := (T t).sendTo c.address data r net.world
      ({ net with world := world }, if ok then countSent data.length c else c)

def broadcastLoop (data : Bytes) (r : PacketReliability) (exclude : ClientId) :
    List ClientEntry → NetworkManager σ → NetworkManager σ × List ClientEntry
  | [], net => (net, [])
  | c :: cs, net =>
    let (net, c) := broadcastOne T data r exclude c net
    let (net, cs) := broadcastLoop data r exclude cs net
    (net, c :: cs)

def broadcast (data : Bytes) (r : PacketReliability) (exclude : ClientId)
    (net : NetworkManager σ) : NetworkManager σ :=
  if !net.serving then net
  else
    let net :=
      if net.mode = .host ∧ net.localClientId ≠ 0 ∧ net.localClientId ≠ exclude then
        net.pushMessageToHostLocal net.localClientId data
      else net
    let (net, clients) := broadcastLoop T data r exclude net.clients net
    { net with clients := clients }

/-- Through the primary transport, if there is one. -/
def transmit (data : Bytes) (r : PacketReliability) (net : NetworkManager σ) :
    NetworkManager σ × Bool :=
  match net.transport with
  | none => (net, false)
  | some t =>
    let (world, ok) := (T t).send data r net.world
    ({ net with world := world }, ok)

/-- Client: send to the server; host: send as the local client. -/
def send (data : Bytes) (r : PacketReliability) (net : NetworkManager σ) :
    NetworkManager σ × Bool :=
  if net.mode = .client then
    if net.clientConnected then net.transmit T data r else (net, false)
  else if net.mode = .host ∧ net.localClientId ≠ 0 then
    ((net.pushMessage net.localClientId data).flushToCallbacks net.localClientId data, true)
  else (net, false)

def popMessage (net : NetworkManager σ) : NetworkManager σ × Option ReceivedMessage :=
  match net.messageQueue.drop net.messageReadIdx with
  | [] => ({ net with messageQueue := [], messageReadIdx := 0 }, none)
  | msg :: _ => ({ net with messageReadIdx := net.messageReadIdx + 1 }, some msg)

def sendConnectRequest (net : NetworkManager σ) : NetworkManager σ :=
  if net.transport.isNone then net
  else
    { (net.transmit T (sysPacket SysType.connectRequest net.clientToken) .reliableOrdered).1 with
      awaitingAccept := true }

/-! ### Connections -/

/-- `stop`, without the pause. -/
def stop (net : NetworkManager σ) : NetworkManager σ :=
  let packet := sysPacket SysType.disconnectNotify []
  let net :=
    if net.serving then
      net.clients.foldl (fun net c =>
        match c.transport with
        | none => net
        | some t =>
          if c.approved ∧ c.id ≠ net.localClientId then
            { net with world := ((T t).sendTo c.address packet .reliableOrdered net.world).1 }
          else net) net
    else if net.mode = .client ∧ net.clientConnected then
      (net.transmit T packet .reliableOrdered).1
    else net
  { net with
    world := net.transports.foldl (fun world t => (T t).disconnect world) net.world
    clients := [], messageQueue := [], messageReadIdx := 0, hostLocalRecvQueue := []
    clientConnected := false, localClientId := 0, awaitingAccept := false
    netTime := {}, mode := .none, transport := none, additionalTransports := [] }

def setTransport (t : Option ℕ) (net : NetworkManager σ) : NetworkManager σ :=
  { (if net.mode = .none then net else net.stop T) with transport := t }

def addTransport (t : ℕ) (net : NetworkManager σ) : NetworkManager σ :=
  { net with additionalTransports := net.additionalTransports ++ [t] }

/-- The entry of a client without a transport. -/
def localEntry (id : ClientId) : ClientEntry := { id := id, approved := true }

/-- `bind` or `connect`, as the mode asks. -/
def openTransport (t : ℕ) (net : NetworkManager σ) : NetworkManager σ × Bool :=
  let (world, ok) :=
    if net.serving then (T t).bind net.config.bindAddress net.world
    else if net.mode = .client then (T t).connect net.config.serverAddress net.world
    else (net.world, true)
  ({ net with world := world }, ok)

/-- The rest of `start` when the transport is open. -/
def launch (net : NetworkManager σ) : NetworkManager σ :=
  if net.mode = .client then net.sendConnectRequest T
  else if net.mode = .host then
    let id := net.generateClientId
    { net with
      clients := net.clients ++ [localEntry id]
      localClientId := id, clientConnected := true }.callOnConnected id
  else net

/-- `start`; `udp` is the transport that is made when none was set. -/
def start (config : Config) (udp : ℕ) (net : NetworkManager σ) : NetworkManager σ × Bool :=
  let net := if net.mode = .none then net else net.stop T
  let t := net.transport.getD udp
  let (net, ok) :=
    { net with config := config, mode := config.mode, transport := some t }.openTransport T t
  if ok then (net.launch T, true) else ({ net with mode := .none, transport := none }, false)

/-- The new id, or 0 outside of Server and Host mode. -/
def addLocalClient (net : NetworkManager σ) : NetworkManager σ × ClientId :=
  if !net.serving then (net, 0)
  else
    let id := net.generateClientId
    let net := { net with clients := net.clients ++ [localEntry id] }
    ((net.callOnConnected id).tellReplication (.onClientConnected id), id)

/-- `disconnect_client` and `remove_local_client`. -/
def disconnectClient (client : ClientId) (net : NetworkManager σ) : NetworkManager σ :=
  if !net.serving then net
  else
    match net.findClientById client with
    | none => net
    | some entry =>
      let net :=
        if client = net.localClientId then { net with clientConnected := false, localClientId := 0 }
        else
          match entry.transport with
          | none => net
          | some t => net.disconnectTransportClient T t entry.address
      net.dropClient client

def disconnect (net : NetworkManager σ) : NetworkManager σ :=
  if net.mode = .client then
    (if net.clientConnected then
      (net.transmit T [SysType.disconnectNotify] .reliableOrdered).1 else net).stop T
  else if net.mode = .host ∧ net.localClientId ≠ 0 then net.disconnectClient T net.localClientId
  else net

/-! ### Polling -/

structure PollEnv where
  now : ℚ
  format : DoubleFormat
  /-- one for each packet received -/
  packets : List PacketEnv

def pollClientTimeSync (env : PollEnv) (net : NetworkManager σ) : NetworkManager σ :=
  if !net.joining || !net.clientConnected then net
  else if net.lastTimeSync = 0 then { net with lastTimeSync := env.now }
  else if env.now - net.lastTimeSync > 2 then
    let net := { net with lastTimeSync := env.now }
    if net.mode = .host then
      { net with netTime := net.netTime.recordSample env.now env.now env.now env.now }
    else
      (net.transmit T (sysPacket SysType.timeSyncRequest (be64 (env.format.toBits env.now)))
        .reliableOrdered).1
  else net

/-- The bandwidth estimates of one client. -/
def updateStats (now : ℚ) (c : ClientEntry) : ClientEntry :=
  if !c.approved then c
  else
    let s := c.stats
    let dt := now - s.lastStatsUpdate
    let s :=
      if s.lastStatsUpdate > 0 ∧ dt > 0 then
        { s with
          bandwidthIn := s.bandwidthIn * (7 / 10) +
            (s.bytesReceived - s.lastBytesReceived : ℚ) / dt * (3 / 10)
          bandwidthOut := s.bandwidthOut * (7 / 10) +
            (s.bytesSent - s.lastBytesSent : ℚ) / dt * (3 / 10) }
      else s
    { c with stats := { s with
        lastBytesReceived := s.bytesReceived, lastBytesSent := s.bytesSent, lastStatsUpdate := now } }

/-- The rest of `poll` after the packets. -/
def finishPoll (env : PollEnv) (net : NetworkManager σ) : NetworkManager σ :=
  let net := net.pollClientTimeSync T env
  let net := { net with clients := net.clients.map (updateStats env.now) }
  let net :=
    if net.mode = .client ∧ ¬net.clientConnected ∧ ¬net.awaitingAccept ∧
        net.transport.any fun t => (T t).isConnected net.world then net.sendConnectRequest T
    else net
  if net.mode = .host then
    { net with messageQueue := net.messageQueue ++ net.hostLocalRecvQueue, hostLocalRecvQueue := [] }
  else net

def pollTransports (net : NetworkManager σ) : NetworkManager σ :=
  { net with world := net.transports.foldl (fun world t => (T t).poll world) net.world }

def poll (env : PollEnv) (net : NetworkManager σ) : Option (NetworkManager σ) :=
  if net.transport.isNone ∧ net.mode ≠ .host ∧ net.additionalTransports = [] then some net
  else
    ((net.pollTransports T).pollTransportReceives T net.transports env.packets).map fun out =>
      out.1.finishPoll T env

/-! ### The attached managers -/

/-- `NetworkEntityManager::spawn`; `announce` if it is given the network manager. -/
def spawnEntity (prefabId : PrefabId) (initData : Bytes) (handle : EntityHandle) (announce : Bool)
    (net : NetworkManager σ) : NetworkManager σ :=
  match net.entityManager with
  | none => net
  | some em =>
    let (em', calls, id) := em.spawn prefabId initData handle
    let net := { net with entityManager := some em' }.called calls
    if announce && !em.full then
      net.broadcast T (NetworkEntityManager.spawnMessage id prefabId initData) .reliableOrdered 0
    else net

def destroyEntity (id : NetworkId) (announce : Bool) (net : NetworkManager σ) : NetworkManager σ :=
  match net.entityManager with
  | none => net
  | some em =>
    let net' := net.tellEntities fun em => em.destroy id
    if announce && (em.find id).isSome then
      net'.broadcast T (NetworkEntityManager.destroyMessage id) .reliableOrdered 0
    else net'

def setEntityOwner (id : NetworkId) (owner : ClientId) (net : NetworkManager σ) :
    NetworkManager σ :=
  net.tellEntities fun em => (em.setOwner id owner, [])

def sendFullStateToClient (client : ClientId) (net : NetworkManager σ) : NetworkManager σ :=
  match net.entityManager with
  | none => net
  | some em =>
    em.fullStateMessages.foldl (fun net msg => (net.sendToClient T client msg .reliableOrdered).1) net

def setReplicationManager (rep : Option NetworkReplicationManager) (net : NetworkManager σ) :
    NetworkManager σ :=
  let tell (rep : NetworkReplicationManager) :=
    let rep := (net.clients.filter ClientEntry.approved).foldl
      (fun rep c => rep.onClientConnected c.id) rep
    if net.mode = .host ∧ net.localClientId ≠ 0 then rep.onClientConnected net.localClientId else rep
  { net with replicationManager := rep.map tell }

/-- What the bridge and the filter answer while one snapshot is built. -/
structure SnapshotEnv where
  serialize : NetworkId → Option Bytes
  interested : NetworkId → ClientId → Bool := fun _ _ => true

def tickEnv (net : NetworkManager σ) (env : SnapshotEnv) : TickEnv where
  serialize := env.serialize
  interested := env.interested
  connected client := (net.findClientById client).any ClientEntry.approved
  entities := (net.entityManager.map fun em => em.entities.map Entity.netId).getD []

def serverTick (deltaTime : ℚ) (envs : List SnapshotEnv) (net : NetworkManager σ) :
    Option (NetworkManager σ) :=
  match net.replicationManager with
  | none => some net
  | some rep =>
    if !net.serving then some net
    else
      (rep.serverTick deltaTime (envs.map net.tickEnv)).map fun out =>
        out.2.foldl (fun net msg => (net.sendToClient T msg.1 msg.2 .unreliable).1)
          { net with replicationManager := some out.1 }

def clientTick (deltaTime : ℚ) (turns : ℕ) (net : NetworkManager σ) : Option (NetworkManager σ) :=
  match net.replicationManager with
  | none => some net
  | some rep =>
    if !net.joining then some net
    else
      (rep.clientTick deltaTime turns).map fun out =>
        out.2.foldl (fun net msg => (net.send T msg .unreliable).1)
          { net with replicationManager := some out.1 }

/-- The ways to invoke an RPC. -/
inductive RpcTarget
  | client (client : ClientId)
  | server
  | broadcast
  | owner (entity : NetworkId)
  | notOwner (entity : NetworkId)

def sendRpc (client : ClientId) (packet : Bytes) (net : NetworkManager σ) : NetworkManager σ :=
  if packet = [] then net
  else if net.serving then (net.sendToClient T client packet .reliableOrdered).1
  else if net.mode = .client then (net.send T packet .reliableOrdered).1
  else net

/-- An invocation with a stream of arguments. `invoke_broadcast` alone does not look whether the
packet is empty. -/
def invokeRpc (target : RpcTarget) (rpcId : UInt16) (args : Bytes) (net : NetworkManager σ) :
    NetworkManager σ :=
  match net.rpcManager with
  | none => net
  | some rpc =>
    let packet := rpc.buildRpcPacket rpcId args
    let owner (entity : NetworkId) := (net.entityManager.map fun em => em.owner entity).getD 0
    if !rpc.hasNet then net
    else
      match target with
      | .client client => net.sendRpc T client packet
      | .server => net.sendRpc T 0 packet
      | .broadcast => net.broadcast T packet .reliableOrdered 0
      | .owner entity =>
        if !rpc.hasEntityMgr || owner entity == 0 then net
        else net.sendRpc T (owner entity) packet
      | .notOwner entity =>
        if !rpc.hasEntityMgr || packet.isEmpty then net
        else net.broadcast T packet .reliableOrdered (owner entity)

/-! ### Steps -/

inductive Call (σ : Type)
  /-- anything happens to the transports outside of the manager -/
  | network (world : σ)
  | setTransport (t : Option ℕ)
  | addTransport (t : ℕ)
  | start (config : Config) (udp : ℕ)
  | stop
  | poll (env : PollEnv)
  | addLocalClient
  | disconnectClient (client : ClientId)
  | disconnect
  | sendToClient (client : ClientId) (data : Bytes) (r : PacketReliability)
  | broadcast (data : Bytes) (r : PacketReliability) (exclude : ClientId)
  | send (data : Bytes) (r : PacketReliability)
  | popMessage
  | setCallbacks (callbacks : Callbacks)
  | setConnectionToken (token : Bytes)
  | setReplicationManager (rep : Option NetworkReplicationManager)
  | setRpcManager (rpc : Option RpcManager)
  | spawn (prefabId : PrefabId) (initData : Bytes) (handle : EntityHandle) (announce : Bool)
  | destroy (id : NetworkId) (announce : Bool)
  | setOwner (id : NetworkId) (owner : ClientId)
  | sendFullState (client : ClientId)
  | markDirty (id : NetworkId)
  | serverTick (deltaTime : ℚ) (envs : List SnapshotEnv)
  | clientTick (deltaTime : ℚ) (turns : ℕ)
  | invokeRpc (target : RpcTarget) (rpcId : UInt16) (args : Bytes)

def step (net : NetworkManager σ) : Call σ → Option (NetworkManager σ)
  | .network world => some { net with world := world }
  | .setTransport t => some (net.setTransport T t)
  | .addTransport t => some (net.addTransport t)
  | .start config udp => some (net.start T config udp).1
  | .stop => some (net.stop T)
  | .poll env => net.poll T env
  | .addLocalClient => some net.addLocalClient.1
  | .disconnectClient client => some (net.disconnectClient T client)
  | .disconnect => some (net.disconnect T)
  | .sendToClient client data r => some (net.sendToClient T client data r).1
  | .broadcast data r exclude => some (net.broadcast T data r exclude)
  | .send data r => some (net.send T data r).1
  | .popMessage => some net.popMessage.1
  | .setCallbacks callbacks => some { net with callbacks := callbacks }
  | .setConnectionToken token => some { net with clientToken := token }
  | .setReplicationManager rep => some (net.setReplicationManager rep)
  | .setRpcManager rpc => some { net with rpcManager := rpc }
  | .spawn prefabId initData handle announce =>
    some (net.spawnEntity T prefabId initData handle announce)
  | .destroy id announce => some (net.destroyEntity T id announce)
  | .setOwner id owner => some (net.setEntityOwner id owner)
  | .sendFullState client => some (net.sendFullStateToClient T client)
  | .markDirty id => some (net.tellReplication (.markDirty id))
  | .serverTick deltaTime envs => net.serverTick T deltaTime envs
  | .clientTick deltaTime turns => net.clientTick T deltaTime turns
  | .invokeRpc target rpcId args => some (net.invokeRpc T target rpcId args)

/-! ### A server with one client -/

/-- Every transport of the loopback hub. -/
def loopback : ℕ → ITransport LoopbackHub := LoopbackTransport.iTransport

/-- The only timestamp that is used is 0. -/
def zeroFormat : DoubleFormat := ⟨fun _ => 0, fun _ => 0⟩

def packetEnv : PacketEnv := { now := 0, format := zeroFormat }

/-- A server with one client and managers attached; the packets of the client are in its queue. -/
def served (packets : List Bytes) : NetworkManager LoopbackHub where
  mode := .server
  world := LoopbackHub.arrived packets
  transport := some 0
  clients :=
    [{ ({ world := {} : NetworkManager LoopbackHub }.newEntry packetEnv 0 LoopbackHub.clientAddr) with
      id := 1 }]
  callbacks := { onData := true }
  entityManager := some { hasBridge := true }
  replicationManager := some { hasBridge := true, hasEntityMgr := true, clientStates := [(1, {})] }
  rpcManager := some { hasNet := true }

/-- The server polls and handles so many packets. -/
def pollCall (packets : ℕ) : Call LoopbackHub :=
  .poll { now := 0, format := zeroFormat, packets := List.replicate packets packetEnv }

end CampelloNet.NetworkManager
