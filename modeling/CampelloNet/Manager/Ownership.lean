import CampelloNet.Manager.Authority
import CampelloNet.Manager.Roster

/-!
# Whose the entities are

The entity table knows owners by their client ids. An id is given to another client when the first
one has gone, and the entity table is not told, so a client can come into the entities of one that
had its id before. In runs in which the ids given out own nothing, and in which no client gives
entities away itself, every owner has been made one since it connected.
-/

namespace CampelloNet

open Lib Transport

/-! ### Owners in the entity table -/

namespace NetworkEntityManager

variable (em : NetworkEntityManager)

theorem owner_put (ent : Entity) (id : NetworkId) :
    (em.put ent).owner id = if ent.netId = id then ent.ownerId else em.owner id := by
  unfold owner find put
  split_ifs with h
  · subst h
    rw [lookup_upsert_self]
  · rw [lookup_upsert_ne ent em.entities h]

theorem owner_create (prefabId : PrefabId) (netId : NetworkId) (initData : Bytes)
    (handle : EntityHandle) (id : NetworkId) :
    (em.create prefabId netId initData handle).1.owner id = em.owner id ∨
      (em.create prefabId netId initData handle).1.owner id = 0 := by
  unfold create
  split_ifs
  all_goals
    dsimp only
    rw [owner_put]
    split_ifs
    · exact .inr rfl
    · exact .inl rfl

theorem owner_spawn (prefabId : PrefabId) (initData : Bytes) (handle : EntityHandle)
    (id : NetworkId) :
    (em.spawn prefabId initData handle).1.owner id = em.owner id ∨
      (em.spawn prefabId initData handle).1.owner id = 0 := by
  unfold spawn
  split_ifs
  · exact .inl rfl
  · exact owner_create { em with nextId := em.nextId + 1 } prefabId em.nextId initData handle id

theorem owner_destroy (netId id : NetworkId) :
    (em.destroy netId).1.owner id = em.owner id ∨ (em.destroy netId).1.owner id = 0 := by
  unfold destroy
  rcases h : em.find netId with _ | ent
  · exact .inl rfl
  · show (em.erase ent.netId).owner id = _ ∨ (em.erase ent.netId).owner id = 0
    unfold owner find erase
    dsimp only
    by_cases hid : ent.netId = id
    · subst hid
      rw [lookup_erased]
      exact .inr rfl
    · rw [lookup_erased_ne (Ne.symm hid)]
      exact .inl rfl

theorem owner_setOwner (netId : NetworkId) (client : ClientId) (id : NetworkId) :
    (em.setOwner netId client).owner id = em.owner id ∨
      id = netId ∧ (em.setOwner netId client).owner id = client := by
  unfold setOwner
  rcases h : em.find netId with _ | ent
  · exact .inl rfl
  · have hid : ent.netId = netId := lookup_key h
    dsimp only
    unfold assign
    rw [owner_put]
    split_ifs with heq
    · exact .inr ⟨heq.symm.trans hid, rfl⟩
    · exact .inl rfl

theorem owner_onReceiveSpawn (data : Bytes) (handle : EntityHandle) (id : NetworkId) :
    (em.onReceiveSpawn data handle).1.owner id = em.owner id ∨
      (em.onReceiveSpawn data handle).1.owner id = 0 := by
  unfold onReceiveSpawn
  dsimp only
  split_ifs
  · exact .inl rfl
  · exact .inl rfl
  · exact .inl rfl
  · exact .inl rfl
  · exact em.owner_create _ _ _ handle id

theorem owner_onReceiveDestroy (data : Bytes) (id : NetworkId) :
    (em.onReceiveDestroy data).1.owner id = em.owner id ∨
      (em.onReceiveDestroy data).1.owner id = 0 := by
  unfold onReceiveDestroy
  split_ifs
  · exact .inl rfl
  · exact em.owner_destroy _ id

theorem owner_onReceiveSetOwner (data : Bytes) (id : NetworkId) :
    (em.onReceiveSetOwner data).owner id = em.owner id ∨
      em.Reassigns data ∧ (em.onReceiveSetOwner data).owner id = readBe64 (data.drop 8) := by
  by_cases h : em.Reassigns data
  · have hlen : ¬data.length < 16 := not_lt.mpr h.1
    unfold onReceiveSetOwner
    rw [if_neg hlen]
    exact (em.owner_setOwner _ _ id).imp_right fun hset => ⟨h, hset.2⟩
  · rw [onReceiveSetOwner_eq_iff.mpr h]
    exact .inl rfl

/-- A call of the server makes an owner by `set_owner` only. -/
theorem owner_ownCall {σ : Type} (call : NetworkManager.Call σ) (id : NetworkId) :
    (NetworkManager.ownCall em call).owner id = em.owner id ∨
      (NetworkManager.ownCall em call).owner id = 0 ∨
      ∃ client, call = .setOwner id client ∧
        (NetworkManager.ownCall em call).owner id = client := by
  cases call with
  | spawn prefabId initData handle announce =>
    exact (em.owner_spawn prefabId initData handle id).imp_right .inl
  | destroy netId announce => exact (em.owner_destroy netId id).imp_right .inl
  | setOwner netId client =>
    refine (em.owner_setOwner netId client id).imp_right fun h => .inr ?_
    obtain ⟨rfl, hset⟩ := h
    exact ⟨client, rfl, hset⟩
  | _ => exact .inl rfl

end NetworkEntityManager

namespace NetworkManager

variable {σ : Type}

/-- A client of the table goes by the id. -/
def Session.Has (id : ClientId) (s : Session) : Prop := ∃ c ∈ s.clients, c.id = id

instance (id : ClientId) (s : Session) : Decidable (s.Has id) :=
  inferInstanceAs (Decidable (∃ c ∈ s.clients, c.id = id))

/-- The owner of an entity, 0 without an entity manager. -/
def ownerOf (entity : NetworkId) (net : NetworkManager σ) : ClientId :=
  (net.entityManager.map fun em => em.owner entity).getD 0

/-! ### Grants -/

/-- The call ends every connection before it goes on. -/
def Restarts (net : NetworkManager σ) : Call σ → Prop
  | .start _ _ => net.mode ≠ .none
  | _ => False

/-- The call makes the client the owner. -/
def Call.Grants (entity : NetworkId) (client : ClientId) : Call σ → Prop
  | .setOwner id owner => id = entity ∧ owner = client
  | _ => False

instance (net : NetworkManager σ) : ∀ call, Decidable (net.Restarts call)
  | .start _ _ => inferInstanceAs (Decidable (net.mode ≠ .none))
  | .network _ | .setTransport _ | .addTransport _ | .stop | .poll _ | .addLocalClient
  | .disconnectClient _ | .disconnect | .sendToClient _ _ _ | .broadcast _ _ _ | .send _ _
  | .popMessage | .setCallbacks _ | .setConnectionToken _ | .setReplicationManager _
  | .setRpcManager _ | .spawn _ _ _ _ | .destroy _ _ | .setOwner _ _ | .sendFullState _
  | .markDirty _ | .serverTick _ _ | .clientTick _ _ | .invokeRpc _ _ _ => isFalse id

instance (entity : NetworkId) (client : ClientId) : ∀ call : Call σ,
    Decidable (call.Grants entity client)
  | .setOwner id owner => inferInstanceAs (Decidable (id = entity ∧ owner = client))
  | .network _ | .setTransport _ | .addTransport _ | .start _ _ | .stop | .poll _ | .addLocalClient
  | .disconnectClient _ | .disconnect | .sendToClient _ _ _ | .broadcast _ _ _ | .send _ _
  | .popMessage | .setCallbacks _ | .setConnectionToken _ | .setReplicationManager _
  | .setRpcManager _ | .spawn _ _ _ _ | .destroy _ _ | .sendFullState _ | .markDirty _
  | .serverTick _ _ | .clientTick _ _ | .invokeRpc _ _ _ => isFalse id

section
variable (T : ℕ → ITransport σ) (entity : NetworkId) (client : ClientId)

/-- The client is in the table all along the run, by one connection. -/
def Stays : NetworkManager σ → List (Call σ) → Prop
  | net, [] => net.session.Has client
  | net, call :: run =>
    net.session.Has client ∧ ¬net.Restarts call ∧
      (∀ p ∈ net.handled T call, (p.after T).session.Has client) ∧
      ∀ mid ∈ net.step T call, Stays mid run

/-- `set_owner` makes the client the owner in the course of the run, and from then on it stays. -/
def Granted : NetworkManager σ → List (Call σ) → Prop
  | _, [] => False
  | net, call :: run =>
    call.Grants entity client ∧ Stays T client net (call :: run) ∨
      ∃ mid ∈ net.step T call, Granted mid run

instance decidableStays : ∀ (net : NetworkManager σ) run, Decidable (Stays T client net run)
  | net, [] => inferInstanceAs (Decidable (net.session.Has client))
  | net, call :: run =>
    have : DecidablePred fun mid => Stays T client mid run := fun mid => decidableStays mid run
    inferInstanceAs (Decidable (net.session.Has client ∧ ¬net.Restarts call ∧
      (∀ p ∈ net.handled T call, (p.after T).session.Has client) ∧
      ∀ mid ∈ net.step T call, Stays T client mid run))

instance decidableGranted :
    ∀ (net : NetworkManager σ) run, Decidable (Granted T entity client net run)
  | _, [] => isFalse id
  | net, call :: run =>
    have : DecidablePred fun mid => Granted T entity client mid run := fun mid =>
      decidableGranted mid run
    inferInstanceAs (Decidable (call.Grants entity client ∧ Stays T client net (call :: run) ∨
      ∃ mid ∈ net.step T call, Granted T entity client mid run))

/-- An `invoke_owner` for the entity is sent to a client of the table. -/
def InvokesOwner (rpcId : UInt16) (args : Bytes) (net : NetworkManager σ) : Prop :=
  ∃ rpc ∈ net.rpcManager, rpc.hasNet ∧ rpc.hasEntityMgr ∧ net.ownerOf entity = client ∧
    client ≠ 0 ∧ net.serving ∧ rpc.buildRpcPacket rpcId args ≠ [] ∧ net.session.Has client ∧
    (net.sendToClient T client (rpc.buildRpcPacket rpcId args) .reliableOrdered).2

instance (rpcId : UInt16) (args : Bytes) (net : NetworkManager σ) :
    Decidable (net.InvokesOwner T entity client rpcId args) :=
  inferInstanceAs (Decidable (∃ rpc ∈ net.rpcManager, _ ∧ _ ∧ _ ∧ _ ∧ _ ∧ _ ∧ _ ∧ _))

variable {T entity client}

/-- What such an invocation does is to send to the client. -/
theorem invokeRpc_invokesOwner {rpcId : UInt16} {args : Bytes} {net : NetworkManager σ}
    (h : net.InvokesOwner T entity client rpcId args) :
    ∃ packet, net.invokeRpc T (.owner entity) rpcId args =
        (net.sendToClient T client packet .reliableOrdered).1 ∧
      (net.sendToClient T client packet .reliableOrdered).2 = true := by
  obtain ⟨rpc, hrpc, hnet, hem, howner, hzero, hserving, hpacket, -, hsent⟩ := h
  subst howner
  refine ⟨rpc.buildRpcPacket rpcId args, ?_, hsent⟩
  unfold ownerOf at hzero ⊢
  unfold invokeRpc
  rw [Option.mem_def.mp hrpc]
  dsimp only
  rw [if_neg (by simp [hnet]), if_neg (by simp [hem, hzero])]
  unfold sendRpc
  rw [if_neg hpacket, if_pos hserving]

end

/-! ### Ids that own something -/

/-- The id owns no entity. -/
def Vacant (id : ClientId) (net : NetworkManager σ) : Prop :=
  ∀ em ∈ net.entityManager, ∀ ent ∈ em.entities, em.owner ent.netId ≠ id

/-- The id that a call gives to a client that it adds. -/
def given (T : ℕ → ITransport σ) (net : NetworkManager σ) : Call σ → Option ClientId
  | .addLocalClient => if net.serving then some net.generateClientId else none
  | .start config udp =>
    if config.mode = .host ∧ net.opens T config udp then
      some (net.launching T config udp).generateClientId
    else none
  | _ => none

/-- The call gives out ids that own nothing. -/
def Disowned (T : ℕ → ITransport σ) (net : NetworkManager σ) (call : Call σ) : Prop :=
  ∀ id ∈ net.given T call, net.Vacant id

/-- The packet has its sender admitted under an id that owns something. -/
def Recycles (env : PacketEnv) (buffer : Bytes) (sender : Address) (net : NetworkManager σ) : Prop :=
  net.Admission env buffer sender ∧ ¬net.Vacant net.generateClientId

instance (id : ClientId) (net : NetworkManager σ) : Decidable (net.Vacant id) :=
  inferInstanceAs (Decidable (∀ em ∈ net.entityManager, ∀ ent ∈ em.entities, _))

instance (T : ℕ → ITransport σ) (net : NetworkManager σ) (call : Call σ) :
    Decidable (net.Disowned T call) :=
  Option.decidableForallMem (net.given T call)

/-- The packet makes a client of the table the owner of an entity. -/
def Bestows (buffer : Bytes) (sender : Address) (net : NetworkManager σ) : Prop :=
  net.Dispatched buffer sender ∧ buffer.getD 2 0 = SysType.entitySetOwner ∧
    (∃ em ∈ net.entityManager, em.Reassigns (buffer.drop 3)) ∧
    net.session.Has (readBe64 ((buffer.drop 3).drop 8))

section
variable {T : ℕ → ITransport σ} {net net' : NetworkManager σ} {entity : NetworkId}
  {client : ClientId}

theorem ownerOf_ne_of_vacant (h : net.Vacant client) (hzero : client ≠ 0) :
    net.ownerOf entity ≠ client := by
  intro howner
  unfold ownerOf at howner
  rcases hem : net.entityManager with _ | em
  · rw [hem] at howner
    exact hzero howner.symm
  · rw [hem] at howner
    change em.owner entity = client at howner
    rcases hfind : em.find entity with _ | ent
    · unfold NetworkEntityManager.owner at howner
      rw [hfind] at howner
      exact hzero howner.symm
    · have hid : ent.netId = entity := lookup_key hfind
      exact h em hem ent (lookup_mem hfind) (by rwa [hid])

theorem ownerOf_tellEntities (f : NetworkEntityManager → NetworkEntityManager × List AppCall) :
    (net.tellEntities f).ownerOf entity =
      (net.entityManager.map fun em => (f em).1.owner entity).getD 0 := by
  unfold tellEntities ownerOf
  rcases hem : net.entityManager with _ | em
  · dsimp only
    rw [hem]
    rfl
  · rfl

/-! ### Packets -/

/-- A packet makes an owner by an `EntitySetOwner` only. -/
theorem ownerOf_processSystemMessage (env : PacketEnv) (senderId : ClientId) (sender : Address)
    (t : ℕ) (type : UInt8) (data : Bytes) :
    (net.processSystemMessage T env senderId sender t type data).ownerOf entity =
        net.ownerOf entity ∨
      (net.processSystemMessage T env senderId sender t type data).ownerOf entity = 0 ∨
      type = SysType.entitySetOwner ∧ (∃ em ∈ net.entityManager, em.Reassigns data) ∧
        (net.processSystemMessage T env senderId sender t type data).ownerOf entity =
          readBe64 (data.drop 8) := by
  have hsame : ∀ {next : NetworkManager σ}, Incidental net next →
      next.ownerOf entity = net.ownerOf entity := by
    intro next h
    unfold ownerOf
    rw [h.entityManager]
  have htold : ∀ {f : NetworkEntityManager → NetworkEntityManager × List AppCall},
      (∀ em, (f em).1.owner entity = em.owner entity ∨ (f em).1.owner entity = 0) →
      (net.tellEntities f).ownerOf entity = net.ownerOf entity ∨
        (net.tellEntities f).ownerOf entity = 0 := by
    intro f hf
    rw [ownerOf_tellEntities]
    unfold ownerOf
    rcases net.entityManager with _ | em
    · exact .inl rfl
    · exact hf em
  apply processSystemMessage_cases (P := fun next : NetworkManager σ =>
    next.ownerOf entity = net.ownerOf entity ∨ next.ownerOf entity = 0 ∨
      type = SysType.entitySetOwner ∧ (∃ em ∈ net.entityManager, em.Reassigns data) ∧
        next.ownerOf entity = readBe64 (data.drop 8))
  case connectRequest => exact fun _ => .inl (hsame (incidental_onConnectRequest net env sender t data))
  case connectAccept => exact fun _ => .inl (hsame (incidental_onConnectAccept net data))
  case connectReject => exact fun _ => .inl (hsame (incidental_onConnectReject net))
  case disconnectNotify => exact fun _ => .inl (hsame (incidental_onDisconnectNotify net sender))
  case timeSyncRequest =>
    exact fun _ => .inl (hsame (incidental_onTimeSyncRequest net env sender t data))
  case timeSyncResponse => exact fun _ => .inl (hsame (incidental_onTimeSyncResponse net env data))
  case entitySpawn =>
    exact fun _ => (htold fun em => em.owner_onReceiveSpawn data env.handle entity).imp_right .inl
  case entityDestroy =>
    exact fun _ => (htold fun em => em.owner_onReceiveDestroy data entity).imp_right .inl
  case entitySetOwner =>
    intro htype
    rw [ownerOf_tellEntities]
    unfold ownerOf
    rcases net.entityManager with _ | em
    · exact .inl rfl
    · refine (em.owner_onReceiveSetOwner data entity).imp_right fun h => .inr ?_
      exact ⟨htype, ⟨em, rfl, h.1⟩, h.2⟩
  case entityFullState => exact fun _ => (htold fun em => .inl rfl).imp_right .inl
  case deltaState =>
    intro _
    left
    unfold onDeltaState
    split <;> rfl
  case snapshotAck => exact fun _ => .inl (hsame (incidental_onSnapshotAck net senderId data))
  case rpc => exact fun _ => .inl (hsame (incidental_onRpc net env senderId sender data))
  case unknown => exact .inl rfl

theorem ownerOf_handlePacket (env : PacketEnv) (t : ℕ) (buffer : Bytes) (sender : Address) :
    (net.handlePacket T env t buffer sender).ownerOf entity = net.ownerOf entity ∨
      (net.handlePacket T env t buffer sender).ownerOf entity = 0 ∨
      net.Dispatched buffer sender ∧ buffer.getD 2 0 = SysType.entitySetOwner ∧
        (∃ em ∈ net.entityManager, em.Reassigns (buffer.drop 3)) ∧
        (net.handlePacket T env t buffer sender).ownerOf entity =
          readBe64 ((buffer.drop 3).drop 8) := by
  have hsame : ∀ {next : NetworkManager σ}, next.entityManager = net.entityManager →
      next.ownerOf entity = net.ownerOf entity := by
    intro next h
    unfold ownerOf
    rw [h]
  unfold handlePacket
  split_ifs with hnil hlong hsys
  · exact .inl rfl
  · exact .inl (hsame (incidental_onOversized net sender).entityManager)
  · unfold onSystem
    dsimp only
    by_cases hs : net.serving
    · rw [if_pos hs]
      rcases hfind : net.findClientByAddress sender with _ | entry
      · dsimp only
        split_ifs with htype
        · refine (ownerOf_processSystemMessage env 0 sender t _ _).imp_right fun h =>
            h.imp_right fun h => ?_
          rw [htype] at h
          cases h.1
        · exact .inl rfl
      · refine (ownerOf_processSystemMessage env entry.id sender t _ _).imp_right fun h =>
          h.imp_right fun h => ?_
        exact ⟨⟨not_lt.mp hlong, hsys, fun _ => by rw [hfind]; rfl⟩, h⟩
    · rw [if_neg hs]
      refine (ownerOf_processSystemMessage env 0 sender t _ _).imp_right fun h =>
        h.imp_right fun h => ?_
      exact ⟨⟨not_lt.mp hlong, hsys, fun h => absurd h hs⟩, h⟩
  · exact .inl (hsame (congrArg Prod.fst (authority_onUser net env buffer sender)))

/-- A packet adds no client to the table but the one that it admits. -/
theorem has_handlePacket {env : PacketEnv} {t : ℕ} {buffer : Bytes} {sender : Address}
    (h : (net.handlePacket T env t buffer sender).session.Has client) :
    net.session.Has client ∨ net.Admission env buffer sender ∧ net.generateClientId = client := by
  have he : net.PacketEffect env t buffer sender (net.handlePacket T env t buffer sender).session :=
    packetEffect_handlePacket env t buffer sender
  generalize (net.handlePacket T env t buffer sender).session = s at he h
  obtain ⟨c, hc, hid⟩ := h
  cases he with
  | keep => exact .inl ⟨c, hc, hid⟩
  | enroll hadm =>
    rcases List.mem_append.mp hc with hc | hc
    · exact .inl ⟨c, hc, hid⟩
    · obtain rfl := List.mem_singleton.mp hc
      exact .inr ⟨hadm, hid⟩
  | drop _ _ _ => exact .inl ⟨c, (List.mem_filter.mp hc).1, hid⟩
  | accept _ _ _ _ => exact .inl ⟨c, hc, hid⟩
  | leave _ _ => exact .inl ⟨c, hc, hid⟩

/-- The client is in the table and owns the entity. -/
def Owns (entity : NetworkId) (client : ClientId) (net : NetworkManager σ) : Prop :=
  net.session.Has client ∧ net.ownerOf entity = client

/-- A packet makes no client of the table an owner, and no owner a client. -/
theorem owns_handlePacket {env : PacketEnv} {t : ℕ} {buffer : Bytes} {sender : Address}
    (hzero : client ≠ 0) (hrecycles : ¬net.Recycles env buffer sender)
    (hbestows : ¬net.Bestows buffer sender)
    (h : (net.handlePacket T env t buffer sender).Owns entity client) : net.Owns entity client := by
  obtain ⟨hhas, howner⟩ := h
  have hafter : (net.handlePacket T env t buffer sender).ownerOf entity = net.ownerOf entity ∨
      (net.handlePacket T env t buffer sender).ownerOf entity = 0 ∨
      net.Dispatched buffer sender ∧ buffer.getD 2 0 = SysType.entitySetOwner ∧
        (∃ em ∈ net.entityManager, em.Reassigns (buffer.drop 3)) ∧
        (net.handlePacket T env t buffer sender).ownerOf entity =
          readBe64 ((buffer.drop 3).drop 8) := ownerOf_handlePacket env t buffer sender
  rcases has_handlePacket hhas with hhas' | ⟨hadm, rfl⟩
  · refine ⟨hhas', ?_⟩
    rcases hafter with hsame | hnone | ⟨hdispatched, htype, hreassigns, howner'⟩
    · exact hsame.symm.trans howner
    · exact absurd (howner.symm.trans hnone) hzero
    · refine absurd ⟨hdispatched, htype, hreassigns, ?_⟩ hbestows
      rwa [← howner', howner]
  · exfalso
    rcases hafter with hsame | hnone | ⟨-, htype, -⟩
    · refine hrecycles ⟨hadm, fun hvacant => ?_⟩
      exact ownerOf_ne_of_vacant hvacant hzero (hsame.symm.trans howner)
    · exact hzero (howner.symm.trans hnone)
    · have hrequest := hadm.request
      rw [htype] at hrequest
      cases hrequest

/-! ### Calls -/

theorem has_addLocalClient (h : net.addLocalClient.1.session.Has client) :
    net.session.Has client ∨ client ∈ net.given T .addLocalClient := by
  unfold addLocalClient at h
  by_cases hs : net.serving
  · unfold given
    rw [if_pos hs]
    rw [if_neg (by simp [hs])] at h
    dsimp only at h
    rw [session_tellReplication, session_callOnConnected] at h
    obtain ⟨c, hc, hid⟩ := h
    change c ∈ (net.clients ++ [localEntry net.generateClientId]).map ClientEntry.toConnection at hc
    rw [List.map_append] at hc
    rcases List.mem_append.mp hc with hc | hc
    · exact .inl ⟨c, hc, hid⟩
    · obtain rfl := List.mem_singleton.mp hc
      exact .inr (congrArg some hid)
  · rw [if_pos (by simp [hs])] at h
    exact .inl h

/-- When the manager starts there is nobody but those who were there before it, and its own
client. -/
theorem has_start {config : Config} {udp : ℕ}
    (h : (net.start T config udp).1.session.Has client) :
    net.session.Has client ∧ net.mode = .none ∨ client ∈ net.given T (.start config udp) := by
  have hlaunching : (net.launching T config udp).session = net.session.launch config :=
    congrArg Roster.session (roster_launching config udp)
  have hbefore : (net.session.launch config).Has client →
      net.session.Has client ∧ net.mode = .none := by
    rintro ⟨c, hc, hid⟩
    unfold Session.launch at hc
    dsimp only at hc
    split_ifs at hc with hmode
    · exact ⟨⟨c, hc, hid⟩, hmode⟩
    · cases hc
  have hstart : net.start T config udp =
      if net.opens T config udp then
        (launch T ((net.launching T config udp).openTransport T
          ((if net.mode = .none then net else net.stop T).transport.getD udp)).1, true)
      else ({ ((net.launching T config udp).openTransport T
          ((if net.mode = .none then net else net.stop T).transport.getD udp)).1 with
            mode := .none, transport := none }, false) := rfl
  have hopen : ((net.launching T config udp).openTransport T
      ((if net.mode = .none then net else net.stop T).transport.getD udp)).1.session =
        net.session.launch config := hlaunching
  have hfree : ((net.launching T config udp).openTransport T
      ((if net.mode = .none then net else net.stop T).transport.getD udp)).1.generateClientId =
        (net.launching T config udp).generateClientId := rfl
  rw [hstart] at h
  generalize ((net.launching T config udp).openTransport T
    ((if net.mode = .none then net else net.stop T).transport.getD udp)).1 = opened at hopen hfree h
  split_ifs at h with hok
  · unfold launch at h
    split_ifs at h with hclient hhost
    · rw [session_sent _ (sent_sendConnectRequest _), hopen] at h
      exact .inl (hbefore h)
    · have hmode : config.mode = .host := (congrArg Session.mode hopen).symm.trans hhost
      rw [session_callOnConnected] at h
      obtain ⟨c, hc, hid⟩ := h
      change c ∈ (opened.clients ++ [localEntry opened.generateClientId]).map
        ClientEntry.toConnection at hc
      rw [List.map_append] at hc
      rcases List.mem_append.mp hc with hc | hc
      · exact .inl (hbefore (hopen ▸ ⟨c, hc, hid⟩))
      · obtain rfl := List.mem_singleton.mp hc
        right
        show (if config.mode = .host ∧ net.opens T config udp then
          some (net.launching T config udp).generateClientId else none) = some client
        rw [if_pos ⟨hmode, hok⟩, ← hfree]
        exact congrArg some hid
    · exact .inl (hbefore (hopen ▸ h))
  · have hsame : ({ opened with mode := .none, transport := none } : NetworkManager σ).session.clients =
        opened.session.clients := rfl
    obtain ⟨c, hc, hid⟩ := h
    change c ∈ opened.session.clients at hc
    exact .inl (hbefore (hopen ▸ ⟨c, hc, hid⟩))

/-- A call adds no client to the table but the one that it gives an id to. -/
theorem has_step {call : Call σ} (hstep : net.step T call = some net')
    (hpoll : ∀ env, call ≠ .poll env) (h : net'.session.Has client) :
    net.session.Has client ∧ ¬net.Restarts call ∨ client ∈ net.given T call := by
  by_cases hstart : ∃ config udp, call = .start config udp
  · obtain ⟨config, udp, rfl⟩ := hstart
    cases hstep
    exact (has_start h).imp_left fun hbefore => ⟨hbefore.1, not_not_intro hbefore.2⟩
  · have hrestarts : ¬net.Restarts call := by
      cases call with
      | start config udp => exact absurd ⟨config, udp, rfl⟩ hstart
      | _ => exact not_false
    by_cases hadd : call = .addLocalClient
    · subst hadd
      cases hstep
      exact (has_addLocalClient h).imp_left fun hbefore => ⟨hbefore, hrestarts⟩
    · have he : net.CallEffect call net'.session := callEffect_step hstep hpoll
      generalize net'.session = s at he h
      obtain ⟨c, hc, hid⟩ := h
      cases he with
      | keep => exact .inl ⟨⟨c, hc, hid⟩, hrestarts⟩
      | close _ => cases hc
      | fail => exact absurd ⟨_, _, rfl⟩ hstart
      | launch => exact absurd ⟨_, _, rfl⟩ hstart
      | host _ _ => exact absurd ⟨_, _, rfl⟩ hstart
      | addLocal _ _ => exact absurd rfl hadd
      | leave _ => exact .inl ⟨⟨c, (List.mem_filter.mp hc).1, hid⟩, hrestarts⟩
      | drop _ => exact .inl ⟨⟨c, (List.mem_filter.mp hc).1, hid⟩, hrestarts⟩

theorem obeyed_of_not_poll {call : Call σ} (hpoll : ∀ env, call ≠ .poll env) :
    net.Obeyed T call := by
  cases call with
  | poll env => exact absurd rfl (hpoll env)
  | _ => exact trivial

theorem handled_of_not_poll {call : Call σ} (hpoll : ∀ env, call ≠ .poll env) :
    net.handled T call = [] := by
  cases call with
  | poll env => exact absurd rfl (hpoll env)
  | _ => rfl

/-- A call makes a client of the table an owner by `set_owner` only, and no owner a client. -/
theorem owns_call {call : Call σ} (hzero : client ≠ 0) (hdisowned : net.Disowned T call)
    (hstep : net.step T call = some net') (hpoll : ∀ env, call ≠ .poll env)
    (h : net'.Owns entity client) :
    (net.session.Has client ∧ ¬net.Restarts call) ∧
      (call.Grants entity client ∨ net.ownerOf entity = client) := by
  obtain ⟨hhas, howner⟩ := h
  have hem : net'.entityManager = net.entityManager.map fun em => ownCall em call :=
    congrArg Prod.fst (authority_step hstep (obeyed_of_not_poll hpoll))
  have hcall : net'.ownerOf entity = net.ownerOf entity ∨ net'.ownerOf entity = 0 ∨
      ∃ owner, call = .setOwner entity owner ∧ net'.ownerOf entity = owner := by
    unfold ownerOf
    rw [hem]
    rcases net.entityManager with _ | em
    · exact .inl rfl
    · exact em.owner_ownCall call entity
  have howner' : call.Grants entity client ∨ net.ownerOf entity = client := by
    rcases hcall with hsame | hnone | ⟨owner, rfl, hset⟩
    · exact .inr (hsame.symm.trans howner)
    · exact absurd (howner.symm.trans hnone) hzero
    · exact .inl ⟨rfl, hset.symm.trans howner⟩
  refine ⟨?_, howner'⟩
  rcases has_step hstep hpoll hhas with hbefore | hgiven
  · exact hbefore
  · exfalso
    have hvacant : net.Vacant client := hdisowned client hgiven
    rcases howner' with hgrants | howned
    · cases call with
      | setOwner id owner => cases hgiven
      | _ => exact hgrants
    · exact ownerOf_ne_of_vacant hvacant hzero howned

/-! ### Polls -/

/-- The packet gives out an id that owns something, or gives an entity away. -/
def Handled.Misplaces (p : Handled σ) : Prop :=
  p.net.Recycles p.env p.buffer p.sender ∨ p.net.Bestows p.buffer p.sender

theorem owns_after {p : Handled σ} (hzero : client ≠ 0) (hok : ¬p.Misplaces)
    (h : (p.after T).Owns entity client) : p.net.Owns entity client := by
  have hrecycles : ¬(p.before T).Recycles p.env p.buffer p.sender := by
    rintro ⟨hadm, howned⟩
    refine hok (.inl ⟨?_, howned⟩)
    exact ⟨hadm.serving, hadm.fits, hadm.system, hadm.request, hadm.unknown, hadm.token,
      hadm.approval, hadm.room⟩
  have hbestows : ¬(p.before T).Bestows p.buffer p.sender := fun hb => hok (.inr hb)
  have hbefore : (p.before T).Owns entity client := owns_handlePacket hzero hrecycles hbestows h
  exact hbefore

/-- A client that owns an entity after a poll has owned it before, and was there all the time. -/
theorem owns_poll {env : PollEnv} (hzero : client ≠ 0) (hstep : net.poll T env = some net')
    (hpackets : ∀ p ∈ net.handled T (.poll env), ¬p.Misplaces) (h : net'.Owns entity client) :
    net.Owns entity client ∧ ∀ p ∈ net.handled T (.poll env), (p.after T).session.Has client := by
  unfold handled at hpackets ⊢
  unfold poll at hstep
  split_ifs at hstep hpackets ⊢
  · cases hstep
    exact ⟨h, fun p hp => absurd hp List.not_mem_nil⟩
  · obtain ⟨out, hout, rfl⟩ := Option.map_eq_some_iff.mp hstep
    have hpolled : out.1.Owns entity client → net.Owns entity client ∧
        ∀ p ∈ handledOf T net.transports env.packets (net.pollTransports T),
          (p.after T).session.Has client := by
      have hbase : (net.pollTransports T).Owns entity client → net.Owns entity client ∧
          ∀ p ∈ ([] : List (Handled σ)), (p.after T).session.Has client :=
        fun hn => ⟨hn, fun p hp => absurd hp List.not_mem_nil⟩
      refine (handledOf_past (J := fun past n => n.Owns entity client → net.Owns entity client ∧
        ∀ p ∈ past, (p.after T).session.Has client) (fun past n t hn => hn) []
        (fun before p after heq hbefore hafter => ?_) hbase).2 out hout
      have hp : p ∈ handledOf T net.transports env.packets (net.pollTransports T) := by
        rw [heq]
        exact List.mem_append_right _ List.mem_cons_self
      obtain ⟨hnet, hpast⟩ := hbefore (owns_after hzero (hpackets p hp) hafter)
      refine ⟨hnet, fun q hq => ?_⟩
      rcases List.mem_append.mp hq with hq | hq
      · exact hpast q hq
      · obtain rfl := List.mem_singleton.mp hq
        exact hafter.1
    apply hpolled
    obtain ⟨hhas, howner⟩ := h
    rw [session_finishPoll] at hhas
    refine ⟨hhas, ?_⟩
    have hem : (finishPoll T env out.1).entityManager = out.1.entityManager :=
      congrArg Prod.fst (authority_finishPoll out.1 env)
    unfold ownerOf at howner ⊢
    rwa [← hem]

/-! ### Runs -/

/-- A client that owns an entity after a run was given it in the run, or before the run and has been
there since. -/
theorem owns_run (hzero : client ≠ 0) {run : List (Call σ)}
    (h : Run.exec (step T) net run = some net') (hcalls : Run.Admits (step T) (Disowned T) net run)
    (hpackets : ∀ p ∈ net.history T run, ¬p.Misplaces) (howns : net'.Owns entity client) :
    Granted T entity client net run ∨ net.Owns entity client ∧ Stays T client net run := by
  induction run generalizing net with
  | nil =>
    cases h
    exact .inr ⟨howns, howns.1⟩
  | cons call run ih =>
    obtain ⟨mid, hmid, h⟩ := Option.bind_eq_some_iff.mp h
    unfold history at hpackets
    rw [hmid, Option.map_some, Option.getD_some] at hpackets
    rcases ih h (hcalls.2 mid hmid) (fun p hp => hpackets p (List.mem_append_right _ hp)) with
      hgranted | ⟨hown, hstays⟩
    · exact .inl (.inr ⟨mid, hmid, hgranted⟩)
    · have hmids : ∀ next ∈ net.step T call, Stays T client next run := by
        intro next hnext
        rw [Option.mem_unique hnext hmid]
        exact hstays
      by_cases hcall : ∃ env, call = .poll env
      · obtain ⟨env, rfl⟩ := hcall
        obtain ⟨hnet, hhandled⟩ := owns_poll hzero hmid
          (fun p hp => hpackets p (List.mem_append_left _ hp)) hown
        exact .inr ⟨hnet, hnet.1, not_false, hhandled, hmids⟩
      · have hpoll : ∀ env, call ≠ .poll env := fun env he => hcall ⟨env, he⟩
        obtain ⟨⟨hhas, hrestarts⟩, howner⟩ := owns_call hzero hcalls.1 hmid hpoll hown
        have hall : Stays T client net (call :: run) := by
          refine ⟨hhas, hrestarts, fun p hp => ?_, hmids⟩
          rw [handled_of_not_poll hpoll] at hp
          cases hp
        rcases howner with hgrants | howned
        · exact .inl (.inl ⟨hgrants, hall⟩)
        · exact .inr ⟨⟨hhas, howned⟩, hall⟩

end

/-- In a run in which the ids given out own nothing and no client gives entities away, a client that
owns an entity was made its owner by `set_owner` while it was connected as it is now. -/
theorem owners_granted (T : ℕ → ITransport σ) (net net' : NetworkManager σ) (run : List (Call σ))
    (hclients : net.clients = []) (h : Run.exec (step T) net run = some net')
    (hcalls : Run.Admits (step T) (Disowned T) net run)
    (hpackets : ∀ p ∈ net.history T run, ¬p.Misplaces) (entity : NetworkId) (client : ClientId)
    (hzero : client ≠ 0) :
    (net'.ownerOf entity = client → net'.session.Has client → Granted T entity client net run) ∧
      ∀ rpcId args, net'.InvokesOwner T entity client rpcId args →
        Granted T entity client net run := by
  have hgranted : net'.ownerOf entity = client → net'.session.Has client →
      Granted T entity client net run := by
    intro howner hhas
    rcases owns_run hzero h hcalls hpackets ⟨hhas, howner⟩ with hgranted | ⟨⟨⟨c, hc, -⟩, -⟩, -⟩
    · exact hgranted
    · change c ∈ net.clients.map ClientEntry.toConnection at hc
      rw [hclients] at hc
      cases hc
  refine ⟨hgranted, fun rpcId args hinvokes => ?_⟩
  obtain ⟨rpc, -, -, -, howner, -, -, -, hhas, -⟩ := hinvokes
  exact hgranted howner hhas

/-! ### A client that comes back -/

def entities : NetworkManager LoopbackHub where
  world := {}
  entityManager := some {}

/-- A local client is given an entity and leaves. -/
def ownerLeaves : List (Call LoopbackHub) :=
  [.setRpcManager (some { hasNet := true, hasEntityMgr := true }),
    .start { mode := .server, bindAddress := LoopbackHub.serverAddr } 0,
    .spawn 1 [] 0 true, .addLocalClient, .setOwner 1 1, .disconnectClient 1]

/-- The server takes the entity back, and gives it to the next client with the id. -/
def handedOn : List (Call LoopbackHub) :=
  ownerLeaves ++ [.setOwner 1 0, .addLocalClient, .setOwner 1 1,
    .network (LoopbackHub.arrived [sysPacket SysType.connectRequest []]), pollCall 1]

theorem owners_granted_handedOn : ∃ net', Run.exec (step loopback) entities handedOn = some net' ∧
    net'.ownerOf 1 = 1 ∧ Granted loopback 1 1 entities handedOn := by
  have hexec : (Run.exec (step loopback) entities handedOn).map
      (fun net => (net.ownerOf 1, decide (net.session.Has 1))) = some (1, true) := by
    decide +kernel
  obtain ⟨net', h, heq⟩ := Option.map_eq_some_iff.mp hexec
  obtain ⟨howner, hhas⟩ := Prod.mk.inj heq
  have hcalls : Run.Admits (step loopback) (Disowned loopback) entities handedOn := by
    decide +kernel
  have hvacant : ∀ p ∈ entities.history loopback handedOn, p.net.Vacant p.net.generateClientId ∧
      p.buffer.getD 2 0 ≠ SysType.entitySetOwner := by
    decide +kernel
  have hpackets : ∀ p ∈ entities.history loopback handedOn, ¬p.Misplaces := by
    intro p hp hmisplaces
    rcases hmisplaces with hrecycles | hbestows
    · exact hrecycles.2 (hvacant p hp).1
    · exact (hvacant p hp).2 hbestows.2.1
  exact ⟨net', h, howner, (owners_granted loopback entities net' handedOn rfl h hcalls hpackets 1 1
    (by decide)).1 howner (of_decide_eq_true hhas)⟩

/-- The next client with the id is called as the owner of an entity that it was never given. -/
theorem owners_inherited : ∃ net', Run.exec (step loopback) entities
    (ownerLeaves ++ [.addLocalClient]) = some net' ∧ net'.InvokesOwner loopback 1 1 7 [] ∧
    ¬Granted loopback 1 1 entities (ownerLeaves ++ [.addLocalClient]) := by
  have hexec : (Run.exec (step loopback) entities (ownerLeaves ++ [.addLocalClient])).map
      (fun net => decide (net.InvokesOwner loopback 1 1 7 [])) = some true := by
    decide +kernel
  obtain ⟨net', h, hinvokes⟩ := Option.map_eq_some_iff.mp hexec
  refine ⟨net', h, of_decide_eq_true hinvokes, ?_⟩
  decide +kernel

end NetworkManager

end CampelloNet
