import CampelloNet.Manager.Frame

/-!
# What sending leaves alone

Sending hands bytes to the transports, queues what is for a local client, and counts. It neither
reads the attached managers nor changes who is connected, and of the game it calls the data callback
only.
-/

namespace CampelloNet.NetworkManager

open Lib Transport

variable {σ : Type}

/-- What the manager knows of a client's connection. -/
def ClientEntry.connection (entry : ClientEntry) : ClientId × Address × Option ℕ × Bool :=
  (entry.id, entry.address, entry.transport, entry.approved)

/-- `B` is not broken by sending. -/
structure SendsKeep (T : ℕ → ITransport σ) (B : σ → Prop) : Prop where
  send : ∀ t data r w, B w → B ((T t).send data r w).1
  sendTo : ∀ t address data r w, B w → B ((T t).sendTo address data r w).1

/-- `net'` is `net` after some sending. -/
structure Sent (T : ℕ → ITransport σ) (net net' : NetworkManager σ) : Prop where
  mode : net'.mode = net.mode
  config : net'.config = net.config
  transport : net'.transport = net.transport
  additionalTransports : net'.additionalTransports = net.additionalTransports
  connections : net'.clients.map ClientEntry.connection = net.clients.map ClientEntry.connection
  callbacks : net'.callbacks = net.callbacks
  clientConnected : net'.clientConnected = net.clientConnected
  localClientId : net'.localClientId = net.localClientId
  entityManager : net'.entityManager = net.entityManager
  replicationManager : net'.replicationManager = net.replicationManager
  rpcManager : net'.rpcManager = net.rpcManager
  calls : ∃ calls, net'.calls = net.calls ++ calls ∧ ∀ c ∈ calls, AppCall.kind c = .data
  world : ∀ B, SendsKeep T B → B net.world → B net'.world

namespace Sent

variable {T : ℕ → ITransport σ} {net net₁ net₂ : NetworkManager σ}

theorem refl (net : NetworkManager σ) : Sent T net net :=
  ⟨rfl, rfl, rfl, rfl, rfl, rfl, rfl, rfl, rfl, rfl, rfl,
    ⟨[], (List.append_nil _).symm, fun _ hc => absurd hc List.not_mem_nil⟩, fun _ _ h => h⟩

theorem trans (h₁ : Sent T net net₁) (h₂ : Sent T net₁ net₂) : Sent T net net₂ where
  mode := h₂.mode.trans h₁.mode
  config := h₂.config.trans h₁.config
  transport := h₂.transport.trans h₁.transport
  additionalTransports := h₂.additionalTransports.trans h₁.additionalTransports
  connections := h₂.connections.trans h₁.connections
  callbacks := h₂.callbacks.trans h₁.callbacks
  clientConnected := h₂.clientConnected.trans h₁.clientConnected
  localClientId := h₂.localClientId.trans h₁.localClientId
  entityManager := h₂.entityManager.trans h₁.entityManager
  replicationManager := h₂.replicationManager.trans h₁.replicationManager
  rpcManager := h₂.rpcManager.trans h₁.rpcManager
  calls := by
    obtain ⟨calls₁, heq₁, hall₁⟩ := h₁.calls
    obtain ⟨calls₂, heq₂, hall₂⟩ := h₂.calls
    refine ⟨calls₁ ++ calls₂, by rw [heq₂, heq₁, List.append_assoc], ?_⟩
    intro c hc
    rcases List.mem_append.mp hc with hc | hc
    · exact hall₁ c hc
    · exact hall₂ c hc
  world := fun B hB h => h₂.world B hB (h₁.world B hB h)

theorem foldl {α : Type*} {f : α → NetworkManager σ → NetworkManager σ}
    (hf : ∀ a net, Sent T net (f a net)) (l : List α) (net : NetworkManager σ) :
    Sent T net (l.foldl (fun net a => f a net) net) := by
  induction l generalizing net with
  | nil => exact refl net
  | cons a l ih => exact (hf a net).trans (ih (f a net))

end Sent

variable {T : ℕ → ITransport σ} (net : NetworkManager σ)

/-! ### The ways to send -/

theorem sent_world {world : σ} (h : ∀ B, SendsKeep T B → B net.world → B world) :
    Sent T net { net with world := world } :=
  { Sent.refl (T := T) net with world := h }

theorem sent_sendTo (t : ℕ) (address : Address) (data : Bytes) (r : PacketReliability) :
    Sent T net { net with world := ((T t).sendTo address data r net.world).1 } :=
  sent_world net fun _ hB h => hB.sendTo t address data r _ h

theorem sent_local (client : ClientId) (data : Bytes) :
    Sent T net ((net.pushMessage client data).flushToCallbacks client data) := by
  unfold flushToCallbacks
  split_ifs
  · refine { Sent.refl net with calls := ⟨[.onData client data], rfl, ?_⟩ }
    intro c hc
    obtain rfl := List.mem_singleton.mp hc
    rfl
  · exact { Sent.refl net with }

theorem sent_hostLocal (client : ClientId) (data : Bytes) :
    Sent T net (net.pushMessageToHostLocal client data) := { Sent.refl net with }

theorem sent_transmit (data : Bytes) (r : PacketReliability) :
    Sent T net (net.transmit T data r).1 := by
  unfold transmit
  split
  · exact .refl net
  · rename_i t _
    exact sent_world net fun _ hB h => hB.send t data r _ h

/-- Counting what was sent to a client changes its statistics only. -/
theorem sent_count {length : ℕ} {entry : ClientEntry}
    (h : net.findClientById entry.id = some entry) :
    Sent T net (net.setClientById (countSent length entry)) :=
  { Sent.refl net with
    connections := map_upsert_of_lookup (f := ClientEntry.connection) (a := countSent length entry)
      h rfl }

theorem sent_sendToClient (client : ClientId) (data : Bytes) (r : PacketReliability) :
    Sent T net (net.sendToClient T client data r).1 := by
  unfold sendToClient
  split_ifs
  · exact .refl net
  · exact sent_hostLocal net client data
  · split
    · exact .refl net
    · rename_i entry hentry
      obtain ⟨hfind, -⟩ := Option.filter_eq_some_iff.mp hentry
      split
      · exact sent_local net client data
      · rename_i t _
        have hsend := sent_sendTo (T := T) net t entry.address data r
        have hid : entry.id = client := lookup_key hfind
        dsimp only
        split_ifs
        · apply hsend.trans
          apply sent_count
          rw [hid]
          exact hfind
        · exact hsend

theorem sent_broadcastOne (data : Bytes) (r : PacketReliability) (exclude : ClientId)
    (c : ClientEntry) : Sent T net (broadcastOne T data r exclude c net).1 ∧
      (broadcastOne T data r exclude c net).2.connection = c.connection := by
  unfold broadcastOne
  split_ifs
  · exact ⟨.refl net, rfl⟩
  · split
    · exact ⟨sent_local net c.id data, rfl⟩
    · rename_i t _
      refine ⟨sent_sendTo net t c.address data r, ?_⟩
      dsimp only
      split_ifs <;> rfl

theorem sent_broadcastLoop (data : Bytes) (r : PacketReliability) (exclude : ClientId)
    (cs : List ClientEntry) : Sent T net (broadcastLoop T data r exclude cs net).1 ∧
      (broadcastLoop T data r exclude cs net).2.map ClientEntry.connection =
        cs.map ClientEntry.connection := by
  induction cs generalizing net with
  | nil => exact ⟨.refl net, rfl⟩
  | cons c cs ih =>
    obtain ⟨hone, hc⟩ := sent_broadcastOne (T := T) net data r exclude c
    obtain ⟨hloop, hcs⟩ := ih (broadcastOne T data r exclude c net).1
    refine ⟨hone.trans hloop, ?_⟩
    rw [broadcastLoop, List.map_cons, List.map_cons, hc, hcs]

theorem sent_broadcast (data : Bytes) (r : PacketReliability) (exclude : ClientId) :
    Sent T net (net.broadcast T data r exclude) := by
  have hloop : ∀ net' : NetworkManager σ, Sent T net net' →
      Sent T net { (broadcastLoop T data r exclude net'.clients net').1 with
        clients := (broadcastLoop T data r exclude net'.clients net').2 } := by
    intro net' h
    obtain ⟨hsent, hconn⟩ := sent_broadcastLoop (T := T) net' data r exclude net'.clients
    exact { h.trans hsent with connections := hconn.trans h.connections }
  unfold broadcast
  dsimp only
  split_ifs
  · exact .refl net
  · exact hloop _ (sent_hostLocal net net.localClientId data)
  · exact hloop net (.refl net)

theorem sent_send (data : Bytes) (r : PacketReliability) : Sent T net (net.send T data r).1 := by
  unfold send
  split_ifs
  · exact sent_transmit net data r
  · exact .refl net
  · exact sent_local net net.localClientId data
  · exact .refl net

theorem sent_sendConnectRequest : Sent T net (net.sendConnectRequest T) := by
  unfold sendConnectRequest
  split_ifs
  · exact .refl net
  · exact { sent_transmit net _ _ with }

theorem sent_sendRpc (client : ClientId) (packet : Bytes) :
    Sent T net (net.sendRpc T client packet) := by
  unfold sendRpc
  split_ifs
  · exact .refl net
  · exact sent_sendToClient net client packet _
  · exact sent_send net packet _
  · exact .refl net

theorem sent_invokeRpc (target : RpcTarget) (rpcId : UInt16) (args : Bytes) :
    Sent T net (net.invokeRpc T target rpcId args) := by
  unfold invokeRpc
  rcases net.rpcManager with _ | rpc
  · exact .refl net
  · dsimp only
    by_cases hnet : rpc.hasNet
    · rw [if_neg (by simp [hnet])]
      cases target with
      | client client => exact sent_sendRpc net client _
      | server => exact sent_sendRpc net 0 _
      | broadcast => exact sent_broadcast net _ _ 0
      | owner entity =>
        dsimp only
        split_ifs
        · exact .refl net
        · exact sent_sendRpc net _ _
      | notOwner entity =>
        dsimp only
        split_ifs
        · exact .refl net
        · exact sent_broadcast net _ _ _
    · rw [if_pos (by simp [hnet])]
      exact .refl net

theorem sent_sendFullStateToClient (client : ClientId) :
    Sent T net (net.sendFullStateToClient T client) := by
  unfold sendFullStateToClient
  split
  · exact .refl net
  · exact Sent.foldl (f := fun msg net => (net.sendToClient T client msg .reliableOrdered).1)
      (fun msg net => sent_sendToClient net client msg _) _ net

theorem sent_pollClientTimeSync (env : PollEnv) : Sent T net (net.pollClientTimeSync T env) := by
  unfold pollClientTimeSync
  dsimp only
  split_ifs
  · exact .refl net
  · exact { Sent.refl net with }
  · exact { Sent.refl net with }
  · exact { sent_transmit { net with lastTimeSync := env.now } _ _ with }
  · exact .refl net

/-! ### Calls that are about no connection -/

/-- The call neither starts nor ends a session, neither adds nor removes a client, and takes no
packets. -/
def Call.Plain : Call σ → Prop
  | .network _ | .setTransport _ | .addTransport _ | .start _ _ | .stop | .poll _ | .addLocalClient
  | .disconnectClient _ | .disconnect => False
  | .sendToClient _ _ _ | .broadcast _ _ _ | .send _ _ | .popMessage | .setCallbacks _
  | .setConnectionToken _ | .setReplicationManager _ | .setRpcManager _ | .spawn _ _ _ _
  | .destroy _ _ | .setOwner _ _ | .sendFullState _ | .markDirty _ | .serverTick _ _
  | .clientTick _ _ | .invokeRpc _ _ _ => True

/-- `net'` has the connections of `net`: what was called in between are the data callback and the
bridge that spawns entities, and the transports were sent through. -/
structure Quiet (T : ℕ → ITransport σ) (net net' : NetworkManager σ) : Prop where
  mode : net'.mode = net.mode
  config : net'.config = net.config
  transport : net'.transport = net.transport
  connections : net'.clients.map ClientEntry.connection = net.clients.map ClientEntry.connection
  clientConnected : net'.clientConnected = net.clientConnected
  localClientId : net'.localClientId = net.localClientId
  calls : ∃ calls, net'.calls = net.calls ++ calls ∧
    ∀ c ∈ calls, AppCall.kind c = .data ∨ AppCall.kind c = .lifecycle
  world : ∀ B, SendsKeep T B → B net.world → B net'.world

namespace Quiet

variable {T : ℕ → ITransport σ} {net net₁ net₂ : NetworkManager σ}

theorem refl (net : NetworkManager σ) : Quiet T net net :=
  ⟨rfl, rfl, rfl, rfl, rfl, rfl,
    ⟨[], (List.append_nil _).symm, fun _ hc => absurd hc List.not_mem_nil⟩, fun _ _ h => h⟩

theorem trans (h₁ : Quiet T net net₁) (h₂ : Quiet T net₁ net₂) : Quiet T net net₂ where
  mode := h₂.mode.trans h₁.mode
  config := h₂.config.trans h₁.config
  transport := h₂.transport.trans h₁.transport
  connections := h₂.connections.trans h₁.connections
  clientConnected := h₂.clientConnected.trans h₁.clientConnected
  localClientId := h₂.localClientId.trans h₁.localClientId
  calls := by
    obtain ⟨calls₁, heq₁, hall₁⟩ := h₁.calls
    obtain ⟨calls₂, heq₂, hall₂⟩ := h₂.calls
    refine ⟨calls₁ ++ calls₂, by rw [heq₂, heq₁, List.append_assoc], ?_⟩
    intro c hc
    rcases List.mem_append.mp hc with hc | hc
    · exact hall₁ c hc
    · exact hall₂ c hc
  world := fun B hB h => h₂.world B hB (h₁.world B hB h)

theorem called {calls : List AppCall} (h : ∀ c ∈ calls, c.kind = .lifecycle) :
    Quiet T net (net.called calls) :=
  { refl (T := T) net with calls := ⟨calls, rfl, fun c hc => .inr (h c hc)⟩ }

end Quiet

theorem Sent.quiet {net net' : NetworkManager σ} (h : Sent T net net') : Quiet T net net' where
  mode := h.mode
  config := h.config
  transport := h.transport
  connections := h.connections
  clientConnected := h.clientConnected
  localClientId := h.localClientId
  calls := by
    obtain ⟨calls, heq, hall⟩ := h.calls
    exact ⟨calls, heq, fun c hc => .inl (hall c hc)⟩
  world := h.world

theorem quiet_tellEntities {f : NetworkEntityManager → NetworkEntityManager × List AppCall}
    (hf : ∀ em, ∀ c ∈ (f em).2, AppCall.kind c = .lifecycle) : Quiet T net (net.tellEntities f) := by
  unfold tellEntities
  split
  · exact .refl net
  · rename_i em _
    have hem : Quiet T net { net with entityManager := some (f em).1 } :=
      { Quiet.refl (T := T) net with }
    exact hem.trans (.called (hf em))

theorem quiet_spawnEntity (prefabId : PrefabId) (initData : Bytes) (handle : EntityHandle)
    (announce : Bool) : Quiet T net (net.spawnEntity T prefabId initData handle announce) := by
  unfold spawnEntity
  split
  · exact .refl net
  · rename_i em _
    have hem : Quiet T net { net with entityManager := some (em.spawn prefabId initData handle).1 } :=
      { Quiet.refl (T := T) net with }
    have hlifecycle : ∀ c ∈ (em.spawn prefabId initData handle).2.1, c.kind = .lifecycle :=
      fun c hc => NetworkEntityManager.spawn_calls hc
    have hspawn := hem.trans (.called hlifecycle)
    dsimp only
    split_ifs
    · exact hspawn.trans (sent_broadcast _ _ _ _).quiet
    · exact hspawn

theorem quiet_destroyEntity (id : NetworkId) (announce : Bool) :
    Quiet T net (net.destroyEntity T id announce) := by
  have htell := quiet_tellEntities (T := T) net (f := fun em => em.destroy id) fun em c hc =>
    NetworkEntityManager.destroy_calls hc
  unfold destroyEntity
  split
  · exact .refl net
  · dsimp only
    split_ifs
    · exact htell.trans (sent_broadcast _ _ _ _).quiet
    · exact htell

theorem quiet_serverTick {deltaTime : ℚ} {envs : List SnapshotEnv} {net' : NetworkManager σ}
    (h : net.serverTick T deltaTime envs = some net') : Quiet T net net' := by
  unfold serverTick at h
  split at h
  · cases h
    exact .refl net
  · split_ifs at h
    · cases h
      exact .refl net
    · obtain ⟨out, -, rfl⟩ := Option.map_eq_some_iff.mp h
      have hrep : Quiet T net { net with replicationManager := some out.1 } :=
        { Quiet.refl (T := T) net with }
      exact hrep.trans (Sent.foldl
        (f := fun (msg : ClientId × Bytes) net => (net.sendToClient T msg.1 msg.2 .unreliable).1)
        (fun msg net => sent_sendToClient net _ _ _) out.2 _).quiet

theorem quiet_clientTick {deltaTime : ℚ} {turns : ℕ} {net' : NetworkManager σ}
    (h : net.clientTick T deltaTime turns = some net') : Quiet T net net' := by
  unfold clientTick at h
  split at h
  · cases h
    exact .refl net
  · split_ifs at h
    · cases h
      exact .refl net
    · obtain ⟨out, -, rfl⟩ := Option.map_eq_some_iff.mp h
      have hrep : Quiet T net { net with replicationManager := some out.1 } :=
        { Quiet.refl (T := T) net with }
      exact hrep.trans (Sent.foldl (f := fun msg net => (net.send T msg .unreliable).1)
        (fun msg net => sent_send net _ _) out.2 _).quiet

/-- What a call that is about no connection leaves alone. -/
theorem quiet_step {call : Call σ} {net' : NetworkManager σ} (hplain : call.Plain)
    (h : net.step T call = some net') : Quiet T net net' := by
  cases call with
  | sendToClient client data r => cases h; exact (sent_sendToClient net _ _ _).quiet
  | broadcast data r exclude => cases h; exact (sent_broadcast net _ _ _).quiet
  | send data r => cases h; exact (sent_send net _ _).quiet
  | popMessage =>
    cases h
    unfold popMessage
    split <;> exact { Quiet.refl (T := T) net with }
  | setCallbacks callbacks => cases h; exact { Quiet.refl (T := T) net with }
  | setConnectionToken token => cases h; exact { Quiet.refl (T := T) net with }
  | setReplicationManager rep => cases h; exact { Quiet.refl (T := T) net with }
  | setRpcManager rpc => cases h; exact { Quiet.refl (T := T) net with }
  | spawn prefabId initData handle announce => cases h; exact quiet_spawnEntity net _ _ _ _
  | destroy id announce => cases h; exact quiet_destroyEntity net id announce
  | setOwner id owner =>
    cases h
    exact quiet_tellEntities net fun em c hc => absurd hc List.not_mem_nil
  | sendFullState client => cases h; exact (sent_sendFullStateToClient net _).quiet
  | markDirty id => cases h; exact { Quiet.refl (T := T) net with }
  | serverTick deltaTime envs => exact quiet_serverTick net h
  | clientTick deltaTime turns => exact quiet_clientTick net h
  | invokeRpc target rpcId args => cases h; exact (sent_invokeRpc net _ _ _).quiet
  | _ => exact hplain.elim

end CampelloNet.NetworkManager
