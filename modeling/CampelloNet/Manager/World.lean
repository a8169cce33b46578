import CampelloNet.Manager.Oversized

/-!
# What managers do to the world

A predicate on the world of transports is kept by a manager if it is kept by sending what the manager
sends: the parcels of the attached managers and of the application, and its own housekeeping. Whatever
the library sends on its own account is framed: it begins as a system message does, or is empty. The one
exception is the byte that `disconnect` sends.
-/

namespace CampelloNet

open Lib Transport
open List hiding lookup

/-! ### What the library sends -/

/-- The bytes are a system message, or none at all. -/
def Framed (data : Bytes) : Prop := data = [] ∨ NetworkManager.isSystem data

theorem framed_append (type : UInt8) (payload : Bytes) : Framed (0xCA :: 0xFE :: type :: payload) := by
  refine .inr ?_
  simp [NetworkManager.isSystem, NetworkManager.sysMagic]

theorem framed_sysPacket (type : UInt8) (payload : Bytes) :
    Framed (NetworkManager.sysPacket type payload) := framed_append type payload

/-- The bytes are a message by which managers keep up their connections and their clocks. -/
def Housekeeping (data : Bytes) : Prop :=
  ∃ type ≤ NetworkManager.SysType.timeSyncResponse, ∃ payload,
    data = NetworkManager.sysPacket type payload

/-- The bytes are a message by which managers keep up their connections. -/
def Connecting (data : Bytes) : Prop :=
  ∃ type ≤ NetworkManager.SysType.disconnectNotify, ∃ payload,
    data = NetworkManager.sysPacket type payload

theorem Housekeeping.framed {data : Bytes} (h : Housekeeping data) : Framed data := by
  obtain ⟨type, -, payload, rfl⟩ := h
  exact framed_sysPacket type payload

theorem Connecting.housekeeping {data : Bytes} (h : Connecting data) : Housekeeping data := by
  obtain ⟨type, htype, payload, rfl⟩ := h
  have hle : NetworkManager.SysType.disconnectNotify ≤ NetworkManager.SysType.timeSyncResponse := by decide
  exact ⟨type, UInt8.le_trans htype hle, payload, rfl⟩

/-- The receive buffer holds enough of a datagram to tell. -/
theorem isSystem_take {data : Bytes} (h : NetworkManager.isSystem data) :
    NetworkManager.isSystem (data.take NetworkManager.BUF_SIZE) := by
  unfold NetworkManager.isSystem NetworkManager.BUF_SIZE at *
  simp only [Bool.and_eq_true, decide_eq_true_eq, beq_iff_eq, length_take, take_take] at *
  exact ⟨by omega, by simpa using h.2⟩

/-- The bytes are a system message of the given type, or none at all. -/
def Signal (type : UInt8) (data : Bytes) : Prop :=
  data = [] ∨ ∃ payload, data = NetworkManager.sysPacket type payload

theorem Signal.framed {type : UInt8} {data : Bytes} (h : Signal type data) : Framed data := by
  rcases h with h | ⟨payload, rfl⟩
  · exact .inl h
  · exact framed_sysPacket type payload

theorem signal_append (type : UInt8) (payload : Bytes) : Signal type (0xCA :: 0xFE :: type :: payload) :=
  .inr ⟨payload, rfl⟩

theorem RpcManager.signal_buildRpcPacket (rpc : RpcManager) (rpcId : UInt16) (args : Bytes) :
    Signal NetworkManager.SysType.rpc (rpc.buildRpcPacket rpcId args) := by
  unfold buildRpcPacket
  split_ifs
  · exact .inl rfl
  · exact signal_append _ _

namespace NetworkReplicationManager

theorem signal_buildAndSendSnapshot {env : TickEnv} {rep : NetworkReplicationManager}
    {msg : ClientId × Bytes} (h : msg ∈ (rep.buildAndSendSnapshot env).2) :
    Signal NetworkManager.SysType.deltaState msg.2 := by
  unfold buildAndSendSnapshot at h
  split_ifs at h
  · cases h
  · obtain ⟨sent, -, rfl⟩ := mem_map.mp h
    exact signal_append _ _

theorem signal_serverTickLoop {envs : List TickEnv} {rep : NetworkReplicationManager}
    {out : NetworkReplicationManager × List (ClientId × Bytes)}
    (h : rep.serverTickLoop envs = some out) :
    ∀ msg ∈ out.2, Signal NetworkManager.SysType.deltaState msg.2 := by
  induction envs generalizing rep out with
  | nil =>
    unfold serverTickLoop at h
    split_ifs at h
    cases h
    exact fun _ hmsg => absurd hmsg not_mem_nil
  | cons env envs ih =>
    unfold serverTickLoop at h
    split_ifs at h
    · obtain ⟨rest, hrest, rfl⟩ := Option.map_eq_some_iff.mp h
      intro msg hmsg
      rcases mem_append.mp hmsg with hmsg | hmsg
      · exact signal_buildAndSendSnapshot hmsg
      · exact ih hrest msg hmsg
    · cases h
      exact fun _ hmsg => absurd hmsg not_mem_nil

theorem signal_serverTick {deltaTime : ℚ} {envs : List TickEnv} {rep : NetworkReplicationManager}
    {out : NetworkReplicationManager × List (ClientId × Bytes)}
    (h : rep.serverTick deltaTime envs = some out) :
    ∀ msg ∈ out.2, Signal NetworkManager.SysType.deltaState msg.2 := by
  unfold serverTick at h
  split_ifs at h
  · exact signal_serverTickLoop h
  · cases h
    exact fun _ hmsg => absurd hmsg not_mem_nil

theorem signal_clientTickLoop {turns : ℕ} {rep : NetworkReplicationManager}
    {out : NetworkReplicationManager × List Bytes} (h : rep.clientTickLoop turns = some out) :
    ∀ msg ∈ out.2, Signal NetworkManager.SysType.snapshotAck msg := by
  induction turns generalizing rep out with
  | zero =>
    unfold clientTickLoop at h
    split_ifs at h
    cases h
    exact fun _ hmsg => absurd hmsg not_mem_nil
  | succ turns ih =>
    unfold clientTickLoop at h
    split_ifs at h
    · obtain ⟨rest, hrest, rfl⟩ := Option.map_eq_some_iff.mp h
      intro msg hmsg
      rcases mem_cons.mp hmsg with rfl | hmsg
      · exact signal_append _ _
      · exact ih hrest msg hmsg
    · obtain ⟨rest, hrest, rfl⟩ := Option.map_eq_some_iff.mp h
      exact ih hrest
    · cases h
      exact fun _ hmsg => absurd hmsg not_mem_nil

end NetworkReplicationManager

namespace NetworkManager

variable {σ : Type}

/-- The type of the messages that a call makes an attached manager send. -/
def Call.signal : Call σ → Option UInt8
  | .spawn .. => some SysType.entitySpawn
  | .destroy .. => some SysType.entityDestroy
  | .sendFullState _ => some SysType.entitySpawn
  | .serverTick .. => some SysType.deltaState
  | .clientTick .. => some SysType.snapshotAck
  | .invokeRpc .. => some SysType.rpc
  | _ => none

theorem emitted_invokeRpc {net : NetworkManager σ} {target : RpcTarget} {rpcId : UInt16} {args : Bytes}
    {p : Parcel} (h : p ∈ net.emitted (.invokeRpc target rpcId args)) :
    ∃ rpc ∈ net.rpcManager, p.data = rpc.buildRpcPacket rpcId args := by
  unfold emitted at h
  dsimp only at h
  split at h
  · cases h
  · rename_i rpc hrpc
    refine ⟨rpc, hrpc, ?_⟩
    by_cases hnet : (!rpc.hasNet) = true
    · rw [if_pos hnet] at h
      cases h
    · rw [if_neg hnet] at h
      cases target with
      | client client => exact (mem_rpcParcels net h).1
      | server => exact (mem_rpcParcels net h).1
      | broadcast => rw [mem_singleton.mp h]
      | owner entity =>
        dsimp only at h
        split_ifs at h
        · cases h
        · exact (mem_rpcParcels net h).1
      | notOwner entity =>
        dsimp only at h
        split_ifs at h
        · cases h
        · rw [mem_singleton.mp h]

/-- Every message of the attached managers is of the type that belongs to the call. -/
theorem emitted_signal {net : NetworkManager σ} {call : Call σ} {p : Parcel}
    (h : p ∈ net.emitted call) : ∃ type ∈ call.signal, Signal type p.data := by
  cases call with
  | spawn prefabId initData handle announce =>
    refine ⟨_, rfl, ?_⟩
    unfold emitted at h
    dsimp only at h
    split at h
    · cases h
    · split_ifs at h
      · rw [mem_singleton.mp h]
        exact signal_append _ _
      · cases h
  | destroy id announce =>
    refine ⟨_, rfl, ?_⟩
    unfold emitted at h
    dsimp only at h
    split at h
    · cases h
    · split_ifs at h
      · rw [mem_singleton.mp h]
        exact signal_append _ _
      · cases h
  | sendFullState client =>
    refine ⟨_, rfl, ?_⟩
    unfold emitted at h
    dsimp only at h
    split at h
    · cases h
    · obtain ⟨msg, hmsg, rfl⟩ := mem_map.mp h
      obtain ⟨ent, -, rfl⟩ := mem_map.mp hmsg
      exact signal_append _ _
  | serverTick deltaTime envs =>
    refine ⟨_, rfl, ?_⟩
    unfold emitted at h
    dsimp only at h
    split at h
    · cases h
    · rename_i rep _
      split_ifs at h
      · cases h
      · rcases hout : rep.serverTick deltaTime (envs.map net.tickEnv) with _ | out
        · rw [hout] at h
          cases h
        · rw [hout] at h
          obtain ⟨msg, hmsg, rfl⟩ := mem_map.mp h
          exact NetworkReplicationManager.signal_serverTick hout msg hmsg
  | clientTick deltaTime turns =>
    refine ⟨_, rfl, ?_⟩
    unfold emitted at h
    dsimp only at h
    split at h
    · cases h
    · rename_i rep _
      split_ifs at h
      · cases h
      · rcases hout : rep.clientTick deltaTime turns with _ | out
        · rw [hout] at h
          cases h
        · rw [hout] at h
          obtain ⟨msg, hmsg, rfl⟩ := mem_map.mp h
          exact NetworkReplicationManager.signal_clientTickLoop hout msg hmsg
  | invokeRpc target rpcId args =>
    obtain ⟨rpc, -, hdata⟩ := emitted_invokeRpc h
    rw [hdata]
    exact ⟨_, rfl, rpc.signal_buildRpcPacket rpcId args⟩
  | _ => cases h

/-- Every message of the attached managers is framed. -/
theorem framed_emitted {net : NetworkManager σ} {call : Call σ} {p : Parcel}
    (h : p ∈ net.emitted call) : Framed p.data := by
  obtain ⟨type, -, hsignal⟩ := emitted_signal h
  exact hsignal.framed

/-! ### What sending does to the world -/

/-- `B` is not broken by sending what `ok` admits. -/
structure SendsAt (T : ℕ → ITransport σ) (ok : ℕ → Bytes → Prop) (B : σ → Prop) : Prop where
  send : ∀ t data r w, ok t data → B w → B ((T t).send data r w).1
  sendTo : ∀ t address data r w, ok t data → B w → B ((T t).sendTo address data r w).1

/-- The transports that a parcel may leave by. -/
def routes (net : NetworkManager σ) : Target → List ℕ
  | .client client => ((net.findClientById client).bind ClientEntry.transport).toList
  | .others _ => net.clients.filterMap ClientEntry.transport
  | .server => if net.mode = .client then net.transport.toList else []

/-- The routes depend on the connections. -/
theorem routes_congr {net net' : NetworkManager σ} (hmode : net'.mode = net.mode)
    (htransport : net'.transport = net.transport)
    (h : net'.clients.map ClientEntry.connection = net.clients.map ClientEntry.connection)
    (target : Target) : net'.routes target = net.routes target := by
  cases target with
  | client client =>
    have hfind : ∀ n : NetworkManager σ, (n.findClientById client).bind ClientEntry.transport =
        (lookup Prod.fst client (n.clients.map ClientEntry.connection)).bind fun c => c.2.2.1 := by
      intro n
      rw [lookup_map fun _ => rfl, Option.bind_map]
      rfl
    show ((net'.findClientById client).bind ClientEntry.transport).toList = _
    rw [hfind, h, ← hfind]
    rfl
  | others exclude =>
    have hall : ∀ n : NetworkManager σ, n.clients.filterMap ClientEntry.transport =
        (n.clients.map ClientEntry.connection).filterMap fun c => c.2.2.1 := by
      intro n
      rw [filterMap_map]
      rfl
    show net'.clients.filterMap ClientEntry.transport = _
    rw [hall, h, ← hall]
    rfl
  | server =>
    show (if net'.mode = .client then net'.transport.toList else []) = _
    rw [hmode, htransport]
    rfl

section
variable {T : ℕ → ITransport σ} {ok : ℕ → Bytes → Prop} {B : σ → Prop} (hs : SendsAt T ok B)
  {net : NetworkManager σ}

theorem sent_postAll (parcels : List Parcel) : Sent T net (net.postAll T parcels) := by
  induction parcels generalizing net with
  | nil => exact .refl net
  | cons p parcels ih => exact (sent_post net p).trans ih

include hs

theorem world_sendToClient {client : ClientId} {data : Bytes}
    (hok : ∀ t ∈ net.routes (.client client), ok t data) (r : PacketReliability) (h : B net.world) :
    B (net.sendToClient T client data r).1.world := by
  have hlocal : ∀ n : NetworkManager σ, (n.flushToCallbacks client data).world = n.world := by
    intro n
    unfold flushToCallbacks
    split_ifs <;> rfl
  unfold sendToClient
  split_ifs
  · exact h
  · exact h
  · split
    · exact h
    · rename_i entry hentry
      obtain ⟨hfind, -⟩ := Option.filter_eq_some_iff.mp hentry
      rcases htransport : entry.transport with _ | t
      · exact (hlocal (net.pushMessage client data)).symm ▸ h
      · have hroute : t ∈ net.routes (.client client) := by
          show t ∈ ((net.findClientById client).bind ClientEntry.transport).toList
          rw [hfind, Option.bind_some, htransport]
          exact mem_singleton_self t
        have hsent := hs.sendTo t entry.address data r _ (hok t hroute) h
        dsimp only
        split_ifs
        · exact hsent
        · exact hsent

theorem world_broadcastLoop {data : Bytes} (r : PacketReliability) (exclude : ClientId)
    {cs : List ClientEntry} (hok : ∀ t ∈ cs.filterMap ClientEntry.transport, ok t data)
    (h : B net.world) : B (broadcastLoop T data r exclude cs net).1.world := by
  induction cs generalizing net with
  | nil => exact h
  | cons c cs ih =>
    have hone : B (broadcastOne T data r exclude c net).1.world := by
      unfold broadcastOne
      split_ifs
      · exact h
      · rcases htransport : c.transport with _ | t
        · dsimp only
          unfold flushToCallbacks
          split_ifs <;> exact h
        · refine hs.sendTo t c.address data r _ (hok t ?_) h
          rw [filterMap_cons_some htransport]
          exact mem_cons_self
    refine ih (fun t ht => hok t ?_) hone
    rw [filterMap_cons]
    split
    · exact ht
    · exact mem_cons_of_mem _ ht

theorem world_transmit {data : Bytes} (hok : ∀ t ∈ net.transport, ok t data)
    (r : PacketReliability) (h : B net.world) : B (net.transmit T data r).1.world := by
  unfold transmit
  split
  · exact h
  · rename_i t ht
    exact hs.send t data r _ (hok t ht) h

theorem world_post {p : Parcel} (hok : ∀ t ∈ net.routes p.target, ok t p.data) (h : B net.world) :
    B (p.post T net).world := by
  obtain ⟨target, data, r⟩ := p
  cases target with
  | client client => exact world_sendToClient hs hok r h
  | others exclude =>
    show B (net.broadcast T data r exclude).world
    unfold broadcast
    dsimp only
    split_ifs
    · exact h
    · exact world_broadcastLoop hs r exclude hok h
    · exact world_broadcastLoop hs r exclude hok h
  | server =>
    show B (net.send T data r).1.world
    unfold send
    split_ifs with hclient
    · refine world_transmit hs (fun t ht => hok t ?_) r h
      unfold routes
      rw [if_pos hclient]
      exact Option.mem_toList.mpr ht
    · exact h
    · show B ((net.pushMessage _ data).flushToCallbacks _ data).world
      unfold flushToCallbacks
      split_ifs <;> exact h
    · exact h

theorem world_postAll {parcels : List Parcel}
    (hok : ∀ p ∈ parcels, ∀ t ∈ net.routes p.target, ok t p.data) (h : B net.world) :
    B (net.postAll T parcels).world := by
  induction parcels generalizing net with
  | nil => exact h
  | cons p parcels ih =>
    have hsent : Sent T net (p.post T net) := sent_post net p
    refine ih (fun p' hp' t ht => hok p' (mem_cons_of_mem _ hp') t ?_) ?_
    · rwa [routes_congr hsent.mode hsent.transport hsent.connections] at ht
    · exact world_post hs (fun t ht => hok p mem_cons_self t ht) h

/-- What the attached managers do to the world when they send. -/
theorem world_posts {net' : NetworkManager σ} {parcels : List Parcel}
    (hposts : Posts T parcels net net') (hquiet : Quiet T net net')
    (hok : ∀ p ∈ parcels, ∀ t ∈ net.routes p.target, ok t p.data) (h : B net.world) : B net'.world := by
  obtain ⟨n, -, hworld, -, rfl⟩ := hposts
  have hsent : Sent T n (n.postAll T parcels) := sent_postAll parcels
  have hroutes : ∀ target, n.routes target = net.routes target := fun target =>
    (routes_congr hsent.mode hsent.transport hsent.connections target).symm.trans
      (routes_congr hquiet.mode hquiet.transport hquiet.connections target)
  refine world_postAll hs (fun p hp t ht => hok p hp t ?_) (hworld ▸ h)
  rwa [hroutes] at ht

end

/-! ### What packets do to the world -/

/-- The answer to a request for the time. -/
def timeAnswer (env : PacketEnv) (data : Bytes) : Bytes :=
  sysPacket SysType.timeSyncResponse
    (data.take 8 ++ be64 (env.format.toBits env.now) ++ be64 (env.format.toBits env.now))

/-- The request for the time at the end of a poll. -/
def timeRequest (env : PollEnv) : Bytes :=
  sysPacket SysType.timeSyncRequest (be64 (env.format.toBits env.now))

theorem housekeeping_timeAnswer (env : PacketEnv) (data : Bytes) : Housekeeping (timeAnswer env data) :=
  ⟨_, by decide, _, rfl⟩

theorem housekeeping_timeRequest (env : PollEnv) : Housekeeping (timeRequest env) :=
  ⟨_, by decide, _, rfl⟩

/-- The packet is a request for the time that the manager answers. -/
def AnswersTime (net : NetworkManager σ) (buffer : Bytes) : Prop :=
  net.serving ∧ net.SystemMessage SysType.timeSyncRequest buffer ∧ 8 ≤ (buffer.drop 3).length

section
variable {T : ℕ → ITransport σ} {ok : ℕ → Bytes → Prop} {B : σ → Prop} (hs : SendsAt T ok B)
  (hok : ∀ t data, Connecting data → ok t data) {net : NetworkManager σ}

theorem world_callOnConnected (client : ClientId) :
    (net.callOnConnected client).world = net.world := by
  unfold callOnConnected
  split_ifs <;> rfl

theorem world_callOnDisconnected (client : ClientId) :
    (net.callOnDisconnected client).world = net.world := by
  unfold callOnDisconnected
  split_ifs <;> rfl

theorem world_dropClient (id : ClientId) : (net.dropClient id).world = net.world := by
  unfold dropClient
  show ((net.eraseClient id).callOnDisconnected id).world = net.world
  rw [world_callOnDisconnected]
  rfl

theorem world_tellEntities (f : NetworkEntityManager → NetworkEntityManager × List AppCall) :
    (net.tellEntities f).world = net.world := by
  unfold tellEntities
  split <;> rfl

theorem world_allowRpc (env : PacketEnv) (sender : Address) :
    (net.allowRpc env sender).1.world = net.world := by
  unfold allowRpc
  split_ifs
  · split <;> rfl
  · rfl

theorem world_onRpc (env : PacketEnv) (senderId : ClientId) (sender : Address) (data : Bytes) :
    (net.onRpc T env senderId sender data).world = net.world := by
  have hallow : (net.allowRpc env sender).1.world = net.world := world_allowRpc env sender
  unfold onRpc
  split
  · rfl
  · dsimp only
    split_ifs
    · exact hallow
    · exact hallow

theorem world_onUser (env : PacketEnv) (buffer : Bytes) (sender : Address) :
    (net.onUser env buffer sender).world = net.world := by
  have hflush : ∀ (n : NetworkManager σ) (client : ClientId),
      (n.flushToCallbacks client buffer).world = n.world := by
    intro n client
    unfold flushToCallbacks
    split_ifs <;> rfl
  unfold onUser
  split_ifs
  · split
    · rfl
    · dsimp only
      split_ifs
      · exact hflush _ _
      · rfl
  · exact hflush _ _
  · rfl

include hs hok

theorem world_sendSys (t : ℕ) (address : Address) {type : UInt8} (payload : Bytes)
    (htype : type ≤ SysType.disconnectNotify) (h : B net.world) :
    B (net.sendSys T t address type payload).world :=
  hs.sendTo t address _ _ _ (hok t _ ⟨type, htype, payload, rfl⟩) h

theorem world_onConnectRequest (env : PacketEnv) (sender : Address) (t : ℕ) (data : Bytes)
    (h : B net.world) : B (net.onConnectRequest T env sender t data).world := by
  have happroval : B (net.checkApproval env sender data).1.world := by
    obtain ⟨calls, hcalls⟩ := net.checkApproval_called env sender data
    rw [hcalls]
    exact h
  have hreject : ∀ (n : NetworkManager σ) (reason : Bytes), B n.world →
      B (n.rejectClient T t sender reason).world := fun n reason hn =>
    world_sendSys hs hok t sender _ (by decide) (world_sendSys hs hok t sender _ (by decide) hn)
  have hadmitted : ∀ (n : NetworkManager σ) (entry : ClientEntry), B n.world →
      B (n.admitClient T entry t).world := by
    intro n entry hn
    show B (callOnConnected _ _).world
    rw [world_callOnConnected]
    exact world_sendSys hs hok t entry.address _ (by decide) hn
  unfold onConnectRequest
  split_ifs
  · exact h
  · split
    · exact world_sendSys hs hok t sender _ (by decide) h
    · dsimp only
      split_ifs
      · exact hreject _ _ happroval
      · exact hreject _ _ happroval
      · exact hadmitted _ _ happroval

theorem world_onOversized (sender : Address) (h : B net.world) :
    B (net.onOversized T sender).world := by
  unfold onOversized
  split_ifs
  · exact h
  · split
    · exact h
    · split
      · exact h
      · split_ifs
        · exact h
        · rw [world_dropClient]
          exact world_sendSys hs hok _ _ _ (by decide) h

/-- A packet may make the manager close its transport. -/
def MayClose (net : NetworkManager σ) (buffer : Bytes) (sender : Address) : Prop :=
  net.mode = .client ∨ net.SystemMessage SysType.connectReject buffer ∧
    (net.serving → (net.findClientByAddress sender).isSome)

omit hs hok in
theorem world_disconnectTransport (hclose : ∀ t ∈ net.transport, ∀ w, B w → B ((T t).disconnect w))
    (h : B net.world) : B (net.disconnectTransport T).world := by
  unfold disconnectTransport
  split
  · exact h
  · rename_i t ht
    exact hclose t ht _ h

theorem world_processSystemMessage {env : PacketEnv} {senderId : ClientId} {sender : Address}
    {t : ℕ} {type : UInt8} {data : Bytes}
    (hclose : net.mode = .client ∨ type = SysType.connectReject →
      ∀ t ∈ net.transport, ∀ w, B w → B ((T t).disconnect w))
    (hanswer : net.serving → type = SysType.timeSyncRequest → 8 ≤ data.length →
      ok t (timeAnswer env data))
    (h : B net.world) : B (net.processSystemMessage T env senderId sender t type data).world := by
  apply processSystemMessage_cases (P := fun next => B next.world)
  case connectRequest => exact fun _ => world_onConnectRequest hs hok env sender t data h
  case connectAccept =>
    intro _
    unfold onConnectAccept
    split_ifs
    · exact h
    · exact h
    · show B (callOnConnected _ _).world
      rw [world_callOnConnected]
      exact h
  case connectReject =>
    intro htype
    unfold onConnectReject
    split_ifs
    · exact h
    · exact world_disconnectTransport
        (hclose (.inr htype)) h
  case disconnectNotify =>
    intro _
    unfold onDisconnectNotify
    split_ifs with _ hclient
    · split
      · exact h
      · rw [world_dropClient]
        exact h
    · show B (callOnDisconnected _ _).world
      rw [world_callOnDisconnected]
      exact world_disconnectTransport
        (hclose (.inl hclient)) h
    · exact h
  case timeSyncRequest =>
    intro htype
    unfold onTimeSyncRequest
    split_ifs with hserving hshort
    · exact h
    · exact h
    · exact hs.sendTo t sender _ _ _ (hanswer (by simpa using hserving) htype (not_lt.mp hshort)) h
  case timeSyncResponse =>
    intro _
    unfold onTimeSyncResponse
    split_ifs <;> exact h
  case entitySpawn => exact fun _ => (world_tellEntities _).symm ▸ h
  case entityDestroy => exact fun _ => (world_tellEntities _).symm ▸ h
  case entitySetOwner => exact fun _ => (world_tellEntities _).symm ▸ h
  case entityFullState => exact fun _ => (world_tellEntities _).symm ▸ h
  case deltaState =>
    intro _
    unfold onDeltaState
    split <;> exact h
  case snapshotAck =>
    intro _
    unfold onSnapshotAck
    split_ifs <;> exact h
  case rpc => exact fun _ => (world_onRpc env senderId sender data).symm ▸ h
  case unknown => exact h

/-- What a packet does to the world. -/
theorem world_packet (env : PacketEnv) (t : ℕ) {buffer : Bytes} {sender : Address}
    (hclose : net.MayClose buffer sender → ∀ t ∈ net.transport, ∀ w, B w → B ((T t).disconnect w))
    (hanswer : net.AnswersTime buffer → ok t (timeAnswer env (buffer.drop 3)))
    (h : B net.world) : B (net.handlePacket T env t buffer sender).world := by
  unfold handlePacket
  split_ifs with hne hfits hsys
  · exact h
  · exact world_onOversized hs hok sender h
  · have hreject : (net.serving → (net.findClientByAddress sender).isSome) →
        net.mode = .client ∨ buffer.getD 2 0 = SysType.connectReject →
        ∀ t ∈ net.transport, ∀ w, B w → B ((T t).disconnect w) := by
      intro hknown htype
      refine hclose (htype.imp_right fun htype => ⟨⟨?_, hsys, htype⟩, hknown⟩)
      exact not_lt.mp hfits
    have htime : net.serving → buffer.getD 2 0 = SysType.timeSyncRequest → 8 ≤ (buffer.drop 3).length →
        ok t (timeAnswer env (buffer.drop 3)) := fun hserving htype hlong =>
      hanswer ⟨hserving, ⟨not_lt.mp hfits, hsys, htype⟩, hlong⟩
    unfold onSystem
    dsimp only
    by_cases hserving : net.serving
    · rw [if_pos hserving]
      have hserver : net.mode ≠ .client := by
        intro hclient
        simp [serving, hclient] at hserving
      rcases hfind : net.findClientByAddress sender with _ | entry
      · dsimp only
        split_ifs with htype
        · refine world_processSystemMessage hs hok (fun hno => ?_) htime h
          rcases hno with hno | hno
          · exact absurd hno hserver
          · rw [htype] at hno
            cases hno
        · exact h
      · exact world_processSystemMessage hs hok (hreject fun _ => by rw [hfind]; rfl) htime h
    · rw [if_neg hserving]
      exact world_processSystemMessage hs hok (hreject fun hs => absurd hs hserving) htime h
  · rw [world_onUser]
    exact h

/-! ### What other calls do to the world -/

theorem world_disconnectClient (client : ClientId) (h : B net.world) :
    B (net.disconnectClient T client).world := by
  unfold disconnectClient
  by_cases hserving : net.serving
  · rw [if_neg (by simp [hserving])]
    rcases net.findClientById client with _ | entry
    · exact h
    · dsimp only
      rw [world_dropClient]
      split_ifs
      · exact h
      · split
        · exact h
        · exact world_sendSys hs hok _ _ _ (by decide) h
  · rw [if_pos (by simp [hserving])]
    exact h

theorem world_sendConnectRequest (h : B net.world) : B (net.sendConnectRequest T).world := by
  unfold sendConnectRequest
  split_ifs
  · exact h
  · exact world_transmit hs (fun t _ => hok t _ ⟨_, by decide, _, rfl⟩) _ h

theorem world_pollEnd {env : PollEnv} (hrequest : net.mode = .client → ∀ t, ok t (timeRequest env))
    (h : B net.world) : B (net.finishPoll T env).world := by
  have hsync : B (net.pollClientTimeSync T env).world := by
    unfold pollClientTimeSync
    dsimp only
    split_ifs with hjoining _ _ hhost
    · exact h
    · exact h
    · exact h
    · have hclient : net.mode = .client := by
        by_contra hmode
        exact hjoining (by simp [joining, hmode, hhost])
      exact world_transmit hs (fun t _ => hrequest hclient t) _ h
    · exact h
  have hask : ∀ n : NetworkManager σ, B n.world → B (n.sendConnectRequest T).world := fun n hn =>
    world_sendConnectRequest hs hok hn
  unfold finishPoll
  dsimp only
  split_ifs
  · exact hask _ hsync
  · exact hask _ hsync
  · exact hsync
  · exact hsync

end

section
variable {T : ℕ → ITransport σ} {ok : ℕ → Bytes → Prop} {B : σ → Prop} (hs : SendsAt T ok B)
  (hok : ∀ t data, Housekeeping data → ok t data) {net : NetworkManager σ}
include hs hok

theorem world_handlePacket (env : PacketEnv) (t : ℕ) {buffer : Bytes} {sender : Address}
    (hclose : net.MayClose buffer sender → ∀ t ∈ net.transport, ∀ w, B w → B ((T t).disconnect w))
    (h : B net.world) : B (net.handlePacket T env t buffer sender).world :=
  world_packet hs (fun t data hdata => hok t data hdata.housekeeping) env t hclose
    (fun _ => hok t _ (housekeeping_timeAnswer env _)) h

theorem world_finishPoll (env : PollEnv) (h : B net.world) : B (net.finishPoll T env).world :=
  world_pollEnd hs (fun t data hdata => hok t data hdata.housekeeping)
    (fun _ t => hok t _ (housekeeping_timeRequest env)) h

end

/-- A packet leaves the mode as it is. -/
theorem mode_handlePacket {T : ℕ → ITransport σ} (net : NetworkManager σ) (env : PacketEnv) (t : ℕ)
    (buffer : Bytes) (sender : Address) :
    (net.handlePacket T env t buffer sender).mode = net.mode := by
  have heffect := net.packetEffect_handlePacket (T := T) env t buffer sender
  show (net.handlePacket T env t buffer sender).session.mode = net.mode
  generalize (net.handlePacket T env t buffer sender).session = next at heffect
  cases heffect <;> rfl

/-! ### Runs -/

/-- `B` is not broken by the other methods of a transport. -/
structure Inert (T : ℕ → ITransport σ) (B : σ → Prop) : Prop where
  bind : ∀ t address w, B w → B ((T t).bind address w).1
  connect : ∀ t address w, B w → B ((T t).connect address w).1
  disconnect : ∀ t w, B w → B ((T t).disconnect w)
  poll : ∀ t w, B w → B ((T t).poll w)
  popReceive : ∀ t n w, B w → B ((T t).popReceive n w).1

/-- A client that is connected calls `disconnect`: it sends one byte that is not framed. -/
def SendsRaw (net : NetworkManager σ) (call : Call σ) : Prop :=
  call = .disconnect ∧ net.mode = .client ∧ net.clientConnected ∧ net.transport.isSome

section
variable {T : ℕ → ITransport σ} {ok : ℕ → Bytes → Prop} {B : σ → Prop} (hs : SendsAt T ok B)
  (hi : Inert T B) (hok : ∀ t data, Connecting data → ok t data) {net net' : NetworkManager σ}

theorem world_transports {f : ℕ → σ → σ} (hf : ∀ t w, B w → B (f t w)) (ts : List ℕ) {w : σ}
    (h : B w) : B (ts.foldl (fun world t => f t world) w) := by
  induction ts generalizing w with
  | nil => exact h
  | cons t ts ih => exact ih (hf t w h)

include hs hi hok

theorem world_stop (h : B net.world) : B (net.stop T).world := by
  have hpacket : Connecting (sysPacket SysType.disconnectNotify []) := ⟨_, by decide, [], rfl⟩
  have hclose : ∀ n : NetworkManager σ, B n.world →
      B (n.transports.foldl (fun world t => (T t).disconnect world) n.world) := fun n hn =>
    world_transports (f := fun t world => (T t).disconnect world) hi.disconnect _ hn
  unfold stop
  dsimp only
  split_ifs
  · apply hclose
    refine foldlRecOn (motive := fun n : NetworkManager σ => B n.world) net.clients _ h ?_
    intro n hn c _
    split
    · exact hn
    · split_ifs
      · exact hs.sendTo _ _ _ _ _ (hok _ _ hpacket) hn
      · exact hn
  · exact hclose _ (world_transmit hs (fun t _ => hok t _ hpacket) _ h)
  · exact hclose _ h

theorem world_start (config : Config) (udp : ℕ) (h : B net.world) :
    B (net.start T config udp).1.world := by
  have hstop : B (if net.mode = .none then net else net.stop T).world := by
    split_ifs
    · exact h
    · exact world_stop hs hi hok h
  have hopen : ∀ (n : NetworkManager σ) (t : ℕ), B n.world → B (n.openTransport T t).1.world := by
    intro n t hn
    unfold openTransport
    dsimp only
    split_ifs
    · exact hi.bind _ _ _ hn
    · exact hi.connect _ _ _ hn
    · exact hn
  have hlaunch : ∀ n : NetworkManager σ, B n.world → B (n.launch T).world := by
    intro n hn
    unfold launch
    split_ifs
    · exact world_sendConnectRequest hs hok hn
    · dsimp only
      rw [world_callOnConnected]
      exact hn
    · exact hn
  unfold start
  dsimp only
  generalize (if net.mode = .none then net else net.stop T) = stopped at hstop
  split_ifs
  · exact hlaunch _ (hopen _ _ hstop)
  · exact hopen _ _ hstop

/-- In a poll `B` holds whenever a packet is handled and at the end. -/
theorem world_poll {env : PollEnv} (hanswer : ∀ p ∈ net.handled T (.poll env),
      p.net.AnswersTime p.buffer → ok p.transport (timeAnswer p.env (p.buffer.drop 3)))
    (hrequest : net.mode = .client → ∀ t, ok t (timeRequest env))
    (hstep : net.poll T env = some net') (h : B net.world) :
    (∀ p ∈ net.handled T (.poll env), B p.net.world ∧ p.net.mode = net.mode) ∧ B net'.world := by
  unfold handled at hanswer ⊢
  unfold poll at hstep
  split_ifs at hstep hanswer ⊢
  · cases hstep
    exact ⟨fun p hp => absurd hp not_mem_nil, h⟩
  · obtain ⟨out, hout, rfl⟩ := Option.map_eq_some_iff.mp hstep
    have hpolled : B (net.pollTransports T).world :=
      world_transports (f := fun t world => (T t).poll world) hi.poll _ h
    obtain ⟨hin, hall⟩ := handledOf_invariant (T := T) (I := fun n => B n.world ∧ n.mode = net.mode)
      (fun n t hn => ⟨hi.popReceive t _ _ hn.1, hn.2⟩)
      (fun p hp hI => ⟨world_packet hs hok p.env p.transport (fun _ t _ w hw => hi.disconnect t w hw)
          (hanswer p hp) (hi.popReceive _ _ _ hI.1),
        (mode_handlePacket (p.before T) p.env p.transport p.buffer p.sender).trans hI.2⟩)
      ⟨hpolled, rfl⟩
    obtain ⟨hworld, hmode⟩ := hall out hout
    exact ⟨hin, world_pollEnd hs hok (fun hclient => hrequest (hmode.symm.trans hclient)) hworld⟩

/-- The calls by which an attached manager sends. -/
def Call.Attached : Call σ → Prop
  | .spawn .. | .destroy .. | .sendFullState _ | .serverTick .. | .clientTick .. | .invokeRpc .. => True
  | _ => False

omit hs hi hok in
theorem Call.Attached.plain {call : Call σ} (h : call.Attached) : call.Plain := by
  cases call <;> trivial

omit hs hi hok in
theorem posts_step {call : Call σ} (hcall : call.Attached) (hstep : net.step T call = some net') :
    Posts T (net.emitted call) net net' := by
  cases call with
  | spawn prefabId initData handle announce =>
    cases hstep
    exact posts_spawnEntity prefabId initData handle announce
  | destroy id announce =>
    cases hstep
    exact posts_destroyEntity id announce
  | sendFullState client =>
    cases hstep
    exact posts_sendFullStateToClient client
  | serverTick deltaTime envs => exact posts_serverTick hstep
  | clientTick deltaTime turns => exact posts_clientTick hstep
  | invokeRpc target rpcId args =>
    cases hstep
    exact posts_invokeRpc target rpcId args
  | _ => cases hcall

/-- What any call does to the world: `B` holds whenever a packet is handled and at the end. -/
theorem world_call {call : Call σ} (hraw : net.SendsRaw call → ∀ t, ok t [SysType.disconnectNotify])
    (hnetwork : ∀ world, call = .network world → B world)
    (hparcels : ∀ p ∈ net.emitted call ++ userParcels call, ∀ t ∈ net.routes p.target, ok t p.data)
    (hanswer : ∀ p ∈ net.handled T call, p.net.AnswersTime p.buffer →
      ok p.transport (timeAnswer p.env (p.buffer.drop 3)))
    (hrequest : ∀ env, call = .poll env → net.mode = .client → ∀ t, ok t (timeRequest env))
    (hstep : net.step T call = some net') (h : B net.world) :
    (∀ p ∈ net.handled T call, B p.net.world ∧ p.net.mode = net.mode) ∧ B net'.world := by
  by_cases hpoll : ∃ env, call = .poll env
  · obtain ⟨env, rfl⟩ := hpoll
    exact world_poll hs hi hok hanswer (hrequest env rfl) hstep h
  refine ⟨fun p hp => ?_, ?_⟩
  · cases call with
    | poll env => exact absurd ⟨env, rfl⟩ hpoll
    | _ => cases hp
  by_cases hattached : call.Attached
  · exact world_posts hs (posts_step hattached hstep) (quiet_step net hattached.plain hstep)
      (fun p hp => hparcels p (mem_append_left _ hp)) h
  cases call with
  | poll env => exact absurd ⟨env, rfl⟩ hpoll
  | network world => cases hstep; exact hnetwork world rfl
  | setTransport t =>
    cases hstep
    unfold setTransport
    dsimp only
    split_ifs
    · exact h
    · exact world_stop hs hi hok h
  | addTransport t => cases hstep; exact h
  | start config udp => cases hstep; exact world_start hs hi hok config udp h
  | stop => cases hstep; exact world_stop hs hi hok h
  | addLocalClient =>
    cases hstep
    unfold addLocalClient
    split_ifs
    · exact h
    · show B (callOnConnected _ _).world
      rw [world_callOnConnected]
      exact h
  | disconnectClient client => cases hstep; exact world_disconnectClient hs hok client h
  | disconnect =>
    cases hstep
    unfold disconnect
    split_ifs with hclient hconnected
    · refine world_stop hs hi hok (world_transmit hs (fun t ht => hraw ?_ t) _ h)
      exact ⟨rfl, hclient, hconnected, Option.isSome_iff_exists.mpr ⟨t, ht⟩⟩
    · exact world_stop hs hi hok h
    · exact world_disconnectClient hs hok _ h
    · exact h
  | sendToClient client data r =>
    cases hstep
    exact world_sendToClient hs (hparcels _ (mem_append_right _ mem_cons_self)) r h
  | broadcast data r exclude =>
    cases hstep
    exact world_post (p := ⟨.others exclude, data, r⟩) hs (hparcels _ (mem_append_right _ mem_cons_self)) h
  | send data r =>
    cases hstep
    exact world_post (p := ⟨.server, data, r⟩) hs (hparcels _ (mem_append_right _ mem_cons_self)) h
  | popMessage =>
    cases hstep
    unfold popMessage
    split <;> exact h
  | setCallbacks callbacks => cases hstep; exact h
  | setConnectionToken token => cases hstep; exact h
  | setReplicationManager rep => cases hstep; exact h
  | setRpcManager rpc => cases hstep; exact h
  | setOwner id owner =>
    cases hstep
    unfold setEntityOwner
    rw [world_tellEntities]
    exact h
  | markDirty id => cases hstep; exact h
  | _ => exact absurd trivial hattached

end

/-- The same where all that is framed may be sent. -/
theorem world_step {T : ℕ → ITransport σ} {ok : ℕ → Bytes → Prop} {B : σ → Prop}
    (hs : SendsAt T ok B) (hi : Inert T B) (hok : ∀ t data, Framed data → ok t data)
    {net net' : NetworkManager σ} {call : Call σ} (hraw : ¬net.SendsRaw call)
    (hnetwork : ∀ world, call = .network world → B world)
    (huser : ∀ p ∈ userParcels call, ∀ t ∈ net.routes p.target, ok t p.data)
    (hstep : net.step T call = some net') (h : B net.world) :
    (∀ p ∈ net.handled T call, B p.net.world) ∧ B net'.world := by
  have hown : ∀ t data, Housekeeping data → ok t data := fun t data hdata => hok t data hdata.framed
  have hall := world_call hs hi (fun t data hdata => hown t data hdata.housekeeping)
    (fun hno => absurd hno hraw) hnetwork (fun p hp t ht => ?_)
    (fun p _ _ => hown _ _ (housekeeping_timeAnswer p.env _))
    (fun env _ _ t => hown t _ (housekeeping_timeRequest env)) hstep h
  · exact ⟨fun p hp => (hall.1 p hp).1, hall.2⟩
  · rcases mem_append.mp hp with hp | hp
    · exact hok t _ (framed_emitted hp)
    · exact huser p hp t ht

end NetworkManager

end CampelloNet
