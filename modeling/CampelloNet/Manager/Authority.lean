import CampelloNet.Manager.Frame

/-!
# Server authority

What the server alone may decide is the entity table and what is written into entities through the
replication bridge: the `authority` of a manager. None of the four handlers of entity and delta
messages looks at who sent them, so a client's packet can change it; `Meddles` says when one does.
In a run without such packets the table is what the server's own calls make of it.
-/

namespace CampelloNet

open Lib Transport

/-! ### The effect of a message on the entity table -/

namespace NetworkEntityManager

variable (em : NetworkEntityManager) (data : Bytes)

/-- The message creates an entity. -/
def Spawns : Prop :=
  14 + (readBe16 (data.drop 12)).toNat ≤ data.length ∧ em.find (readBe64 data) = none ∧ em.full = false

/-- The message destroys an entity. -/
def Destroys : Prop := 8 ≤ data.length ∧ (em.find (readBe64 data)).isSome

/-- The message gives an entity another owner. -/
def Reassigns : Prop :=
  16 ≤ data.length ∧ ∃ ent ∈ em.find (readBe64 data), ent.ownerId ≠ readBe64 (data.drop 8)

instance : Decidable (em.Spawns data) := inferInstanceAs (Decidable (_ ∧ _ ∧ _))
instance : Decidable (em.Destroys data) := inferInstanceAs (Decidable (_ ∧ _))
instance : Decidable (em.Reassigns data) := inferInstanceAs (Decidable (_ ∧ _))

variable {em data}

theorem put_ne {ent : Entity} (h : em.find ent.netId = none) : em.put ent ≠ em := by
  intro heq
  have hlen := congrArg (fun em => em.entities.length) heq
  simp only [put, upsert_of_lookup_none h, List.length_append, List.length_singleton] at hlen
  omega

theorem create_ne {prefabId : PrefabId} {netId : NetworkId} (initData : Bytes)
    (handle : EntityHandle) (h : em.find netId = none) :
    (em.create prefabId netId initData handle).1 ≠ em := by
  unfold create
  split_ifs
  · exact put_ne h
  · exact put_ne h

theorem erase_ne {netId : NetworkId} (h : (em.find netId).isSome) : em.erase netId ≠ em := by
  intro heq
  obtain ⟨ent, hent⟩ := Option.isSome_iff_exists.mp h
  have hmem : ent ∈ (em.erase netId).entities := by
    rw [heq]
    exact lookup_mem hent
  have hne := (List.mem_filter.mp hmem).2
  simp [lookup_key hent] at hne

theorem onReceiveSpawn_eq_iff (handle : EntityHandle) :
    (em.onReceiveSpawn data handle).1 = em ↔ ¬em.Spawns data := by
  unfold onReceiveSpawn Spawns
  dsimp only
  split_ifs with h₁ h₂ h₃ h₄
  · exact iff_of_true rfl fun h => by omega
  · exact iff_of_true rfl fun h => by omega
  · exact iff_of_true rfl fun h => by simp [h.2.1] at h₃
  · exact iff_of_true rfl fun h => by simp [h.2.2] at h₄
  · have hnone : em.find (readBe64 data) = none := by simpa using h₃
    exact iff_of_false (create_ne _ handle hnone)
      (not_not_intro ⟨not_lt.mp h₂, hnone, by simpa using h₄⟩)

theorem destroy_eq_iff {netId : NetworkId} :
    (em.destroy netId).1 = em ↔ ¬(em.find netId).isSome := by
  unfold destroy
  rcases h : em.find netId with _ | ent
  · simp
  · have hid : ent.netId = netId := lookup_key h
    have hne : em.erase ent.netId ≠ em := erase_ne (by rw [hid, h]; rfl)
    simpa [remove] using hne

theorem onReceiveDestroy_eq_iff : (em.onReceiveDestroy data).1 = em ↔ ¬em.Destroys data := by
  unfold onReceiveDestroy Destroys
  split_ifs with h
  · exact iff_of_true rfl fun hd => by omega
  · rw [destroy_eq_iff, not_iff_not]
    exact ⟨fun hs => ⟨not_lt.mp h, hs⟩, And.right⟩

theorem assign_eq_iff {ent : Entity} {owner : ClientId} (h : em.find ent.netId = some ent) :
    em.assign ent owner = em ↔ ent.ownerId = owner := by
  constructor
  · intro heq
    have hput : lookup Entity.netId ent.netId
        (upsert Entity.netId { ent with ownerId := owner } em.entities) =
          some { ent with ownerId := owner } :=
      @lookup_upsert_self _ _ _ Entity.netId { ent with ownerId := owner } em.entities
    have hfind : em.find ent.netId = some { ent with ownerId := owner } := by
      rw [← heq]
      exact hput
    rw [h, Option.some.injEq] at hfind
    exact congrArg Entity.ownerId hfind
  · rintro rfl
    unfold find at h
    unfold assign put
    rw [upsert_of_lookup h]

theorem onReceiveSetOwner_eq_iff : em.onReceiveSetOwner data = em ↔ ¬em.Reassigns data := by
  unfold onReceiveSetOwner Reassigns setOwner
  split_ifs with h
  · exact iff_of_true rfl fun hd => by omega
  · rcases hf : em.find (readBe64 data) with _ | ent
    · simp
    · have hid : ent.netId = readBe64 data := lookup_key hf
      rw [assign_eq_iff (by rw [hid, hf])]
      simp only [Option.mem_some_iff, exists_eq_left', not_and, not_not]
      exact ⟨fun heq _ => heq, fun heq => heq (not_lt.mp h)⟩

end NetworkEntityManager

/-! ### The effect of a message on the entities -/

namespace NetworkReplicationManager

variable (rep : NetworkReplicationManager) (data : Bytes)

/-- The message hands an entity to `deserialize_entity`. -/
def Deserializes : Prop :=
  rep.hasBridge ∧ ¬(rep.predictionMode ∧ rep.hasSnapshotCb) ∧ ¬rep.interpolationEnabled ∧
    4 ≤ data.length ∧ deltaEntities data ≠ []

instance : Decidable (rep.Deserializes data) := inferInstanceAs (Decidable (_ ∧ _ ∧ _ ∧ _ ∧ _))

variable {rep data}

theorem onReceiveDelta_calls :
    (rep.onReceiveDelta data).2.filter (fun c => c.IsDeserialize) = [] ↔ ¬rep.Deserializes data := by
  unfold onReceiveDelta applyDelta Deserializes
  simp only [List.filter_eq_nil_iff, decide_eq_true_eq]
  split_ifs with h₁ h₂ h₃ h₄
  · exact iff_of_true (fun c hc => nomatch hc) fun h => by omega
  · refine iff_of_true (fun c hc => ?_) fun h => h.2.1 (by simpa [noteReceived] using h₂)
    obtain ⟨ent, -, rfl⟩ := List.mem_map.mp hc
    exact not_false
  · exact iff_of_true (fun c hc => nomatch hc) fun h => h.2.2.1 h₃
  · constructor
    · intro hall hd
      obtain ⟨ent, hent⟩ := List.exists_mem_of_ne_nil _ hd.2.2.2.2
      exact hall _ (List.mem_map_of_mem hent) trivial
    · intro hd c hc
      obtain ⟨ent, hent, rfl⟩ := List.mem_map.mp hc
      refine absurd ⟨h₄, ?_, h₃, not_lt.mp h₁, List.ne_nil_of_mem hent⟩ hd
      simpa [noteReceived] using h₂
  · exact iff_of_true (fun c hc => nomatch hc) fun h => h₄ h.1

end NetworkReplicationManager

namespace NetworkManager

variable {σ : Type} (T : ℕ → ITransport σ)

/-- What the server alone decides: the entity table, and the bytes handed to the bridge. -/
def authority (net : NetworkManager σ) : Option NetworkEntityManager × List AppCall :=
  (net.entityManager, net.calls.filter fun c => c.IsDeserialize)

/-- The packet is taken for a system message and dispatched. -/
def Dispatched (buffer : Bytes) (sender : Address) (net : NetworkManager σ) : Prop :=
  buffer.length ≤ net.config.maxPacketSize ∧ isSystem buffer ∧
    (net.serving → (net.findClientByAddress sender).isSome)

/-- The message is one that only a server may send, and it has an effect. -/
def Decides (type : UInt8) (data : Bytes) (net : NetworkManager σ) : Prop :=
  (type = SysType.entitySpawn ∧ ∃ em ∈ net.entityManager, em.Spawns data) ∨
    (type = SysType.entityDestroy ∧ ∃ em ∈ net.entityManager, em.Destroys data) ∨
    (type = SysType.entitySetOwner ∧ ∃ em ∈ net.entityManager, em.Reassigns data) ∨
    type = SysType.deltaState ∧ ∃ rep ∈ net.replicationManager, rep.Deserializes data

/-- The packet reaches the handlers as a message that only a server may send, and has an effect. -/
def Meddles (buffer : Bytes) (sender : Address) (net : NetworkManager σ) : Prop :=
  net.Dispatched buffer sender ∧ net.Decides (buffer.getD 2 0) (buffer.drop 3)

instance (buffer : Bytes) (sender : Address) (net : NetworkManager σ) :
    Decidable (net.Dispatched buffer sender) := inferInstanceAs (Decidable (_ ∧ _ ∧ _))

instance (type : UInt8) (data : Bytes) (net : NetworkManager σ) :
    Decidable (net.Decides type data) := inferInstanceAs (Decidable (_ ∨ _ ∨ _ ∨ _))

instance (buffer : Bytes) (sender : Address) (net : NetworkManager σ) :
    Decidable (net.Meddles buffer sender) := inferInstanceAs (Decidable (_ ∧ _))

/-! ### What leaves the authority alone -/

section
variable {T} (net : NetworkManager σ)

theorem authority_called {calls : List AppCall} (h : ∀ c ∈ calls, ¬c.IsDeserialize) :
    (net.called calls).authority = net.authority := by
  have hnil : (calls.filter fun c => c.IsDeserialize) = [] :=
    List.filter_eq_nil_iff.mpr fun c hc => by simpa using h c hc
  unfold authority called
  rw [List.filter_append, hnil, List.append_nil]

theorem authority_called_one {c : AppCall} (h : ¬c.IsDeserialize) :
    (net.called [c]).authority = net.authority :=
  authority_called net fun d hd => by rwa [List.mem_singleton.mp hd]

@[simp] theorem authority_flushToCallbacks (client : ClientId) (data : Bytes) :
    (net.flushToCallbacks client data).authority = net.authority := by
  unfold flushToCallbacks
  split_ifs
  · exact authority_called_one net not_false
  · rfl

theorem authority_incidental {net net' : NetworkManager σ} (h : Incidental net net') :
    net'.authority = net.authority :=
  Prod.ext h.entityManager (h.filter_calls fun c hc =>
    decide_eq_false (AppCall.not_isDeserialize hc (by decide)))

@[simp] theorem authority_transmit (data : Bytes) (r : PacketReliability) :
    (net.transmit T data r).1.authority = net.authority := by
  unfold transmit
  split <;> rfl

@[simp] theorem authority_sendToClient (client : ClientId) (data : Bytes) (r : PacketReliability) :
    (net.sendToClient T client data r).1.authority = net.authority := by
  unfold sendToClient
  split_ifs
  · rfl
  · rfl
  · split
    · rfl
    · split
      · exact authority_flushToCallbacks (net.pushMessage client data) client data
      · dsimp only
        split_ifs <;> rfl

theorem authority_broadcastOne (data : Bytes) (r : PacketReliability) (exclude : ClientId)
    (c : ClientEntry) : (broadcastOne T data r exclude c net).1.authority = net.authority := by
  unfold broadcastOne
  split_ifs
  · rfl
  · split
    · exact authority_flushToCallbacks (net.pushMessage c.id data) c.id data
    · rfl

theorem authority_broadcastLoop (data : Bytes) (r : PacketReliability) (exclude : ClientId)
    (cs : List ClientEntry) :
    (broadcastLoop T data r exclude cs net).1.authority = net.authority := by
  induction cs generalizing net with
  | nil => rfl
  | cons c cs ih =>
    show (broadcastLoop T data r exclude cs (broadcastOne T data r exclude c net).1).1.authority = _
    rw [ih, authority_broadcastOne]

@[simp] theorem authority_broadcast (data : Bytes) (r : PacketReliability) (exclude : ClientId) :
    (net.broadcast T data r exclude).authority = net.authority := by
  unfold broadcast
  split_ifs
  · rfl
  · exact authority_broadcastLoop (net.pushMessageToHostLocal net.localClientId data) data r
      exclude net.clients
  · exact authority_broadcastLoop net data r exclude net.clients

@[simp] theorem authority_send (data : Bytes) (r : PacketReliability) :
    (net.send T data r).1.authority = net.authority := by
  unfold send
  split_ifs
  · exact authority_transmit net data r
  · rfl
  · exact authority_flushToCallbacks (net.pushMessage net.localClientId data) net.localClientId data
  · rfl

/-! ### The handlers of entities and deltas -/

theorem authority_tellEntities {f : NetworkEntityManager → NetworkEntityManager × List AppCall}
    (hf : ∀ em, ∀ c ∈ (f em).2, ¬c.IsDeserialize) :
    (net.tellEntities f).authority = net.authority ↔ ∀ em ∈ net.entityManager, (f em).1 = em := by
  unfold tellEntities
  rcases hem : net.entityManager with _ | em
  · simp
  · rw [authority_called _ (hf em)]
    unfold authority
    simp [hem]

theorem authority_onDeltaState (data : Bytes) :
    (net.onDeltaState data).authority = net.authority ↔
      ¬∃ rep ∈ net.replicationManager, rep.Deserializes data := by
  unfold onDeltaState
  rcases hrep : net.replicationManager with _ | rep
  · simp
  · unfold authority called
    rw [List.filter_append, Prod.mk.injEq, List.append_right_eq_self]
    have hcalls : (rep.onReceiveDelta data).2.filter (fun c => c.IsDeserialize) = [] ↔
        ¬rep.Deserializes data := NetworkReplicationManager.onReceiveDelta_calls
    simpa using hcalls

/-- A system message leaves the authority alone unless it decides something. -/
theorem authority_processSystemMessage (env : PacketEnv) (senderId : ClientId) (sender : Address)
    (t : ℕ) (type : UInt8) (data : Bytes) :
    (net.processSystemMessage T env senderId sender t type data).authority = net.authority ↔
      ¬net.Decides type data := by
  by_cases h₁ : type = SysType.entitySpawn
  · subst h₁
    refine (authority_tellEntities net fun em c hc => AppCall.not_isDeserialize (em.onReceiveSpawn_calls hc) (by decide)).trans ?_
    simp [Decides, NetworkEntityManager.onReceiveSpawn_eq_iff, SysType.entitySpawn,
      SysType.entityDestroy, SysType.entitySetOwner, SysType.deltaState]
  by_cases h₂ : type = SysType.entityDestroy
  · subst h₂
    refine (authority_tellEntities net fun em c hc => AppCall.not_isDeserialize (em.onReceiveDestroy_calls hc) (by decide)).trans ?_
    simp [Decides, NetworkEntityManager.onReceiveDestroy_eq_iff, SysType.entitySpawn,
      SysType.entityDestroy, SysType.entitySetOwner, SysType.deltaState]
  by_cases h₃ : type = SysType.entitySetOwner
  · subst h₃
    refine (authority_tellEntities net fun em c hc => absurd hc List.not_mem_nil).trans ?_
    simp [Decides, NetworkEntityManager.onReceiveSetOwner_eq_iff, SysType.entitySpawn,
      SysType.entityDestroy, SysType.entitySetOwner, SysType.deltaState]
  by_cases h₄ : type = SysType.deltaState
  · subst h₄
    refine (authority_onDeltaState net data).trans ?_
    simp [Decides, SysType.entitySpawn, SysType.entityDestroy, SysType.entitySetOwner,
      SysType.deltaState]
  refine iff_of_true ?_ (by simp [Decides, h₁, h₂, h₃, h₄])
  unfold processSystemMessage
  simp only [if_neg h₁, if_neg h₂, if_neg h₃, if_neg h₄]
  split_ifs
  · exact authority_incidental (incidental_onConnectRequest net env sender t data)
  · exact authority_incidental (incidental_onConnectAccept net data)
  · exact authority_incidental (incidental_onConnectReject net)
  · exact authority_incidental (incidental_onDisconnectNotify net sender)
  · exact authority_incidental (incidental_onTimeSyncRequest net env sender t data)
  · exact authority_incidental (incidental_onTimeSyncResponse net env data)
  · exact (authority_tellEntities net fun em c hc => absurd hc List.not_mem_nil).mpr fun em _ => rfl
  · exact authority_incidental (incidental_onSnapshotAck net senderId data)
  · exact authority_incidental (incidental_onRpc net env senderId sender data)
  · rfl

theorem authority_onSystem (env : PacketEnv) (t : ℕ) (buffer : Bytes) (sender : Address) :
    (net.onSystem T env t buffer sender).authority = net.authority ↔
      ¬((net.serving → (net.findClientByAddress sender).isSome) ∧
        net.Decides (buffer.getD 2 0) (buffer.drop 3)) := by
  unfold onSystem
  dsimp only
  by_cases hs : net.serving
  · rw [if_pos hs]
    rcases hfind : net.findClientByAddress sender with _ | entry
    · refine iff_of_true ?_ (by simp [hs])
      dsimp only
      split_ifs with ht
      · rw [authority_processSystemMessage, ht]
        simp [Decides, SysType.connectRequest, SysType.entitySpawn, SysType.entityDestroy,
          SysType.entitySetOwner, SysType.deltaState]
      · rfl
    · dsimp only
      rw [authority_processSystemMessage]
      simp
  · rw [if_neg hs, authority_processSystemMessage]
    simp [hs]

theorem authority_onUser (env : PacketEnv) (buffer : Bytes) (sender : Address) :
    (net.onUser env buffer sender).authority = net.authority := by
  unfold onUser
  split_ifs
  · split
    · rfl
    · dsimp only
      split_ifs
      · exact authority_flushToCallbacks _ _ _
      · rfl
  · exact authority_flushToCallbacks _ _ _
  · rfl

/-- A packet leaves the authority alone unless it meddles with it. -/
theorem authority_handlePacket (env : PacketEnv) (t : ℕ) (buffer : Bytes) (sender : Address) :
    (net.handlePacket T env t buffer sender).authority = net.authority ↔
      ¬net.Meddles buffer sender := by
  unfold handlePacket Meddles Dispatched
  split_ifs with h₁ h₂ h₃
  · subst h₁
    exact iff_of_true rfl fun h => by simp [isSystem] at h
  · exact iff_of_true (authority_incidental (incidental_onOversized net sender)) fun h => absurd h.1.1 (not_le.mpr h₂)
  · rw [authority_onSystem]
    simp [h₃, not_lt.mp h₂]
  · exact iff_of_true (authority_onUser net env buffer sender) fun h => absurd h.1.2.1 h₃

/-! ### The other calls -/

theorem authority_sendConnectRequest :
    (net.sendConnectRequest T).authority = net.authority := by
  unfold sendConnectRequest
  split_ifs
  · rfl
  · exact authority_transmit net _ _

theorem authority_stop : (net.stop T).authority = net.authority := by
  unfold stop
  dsimp only
  split_ifs
  · refine List.foldlRecOn (motive := fun n => authority n = net.authority) net.clients _ rfl ?_
    intro n hn c _
    split
    · exact hn
    · split_ifs <;> exact hn
  · exact authority_transmit net _ _
  · rfl

theorem authority_setTransport (t : Option ℕ) :
    (net.setTransport T t).authority = net.authority := by
  unfold setTransport
  split_ifs
  · rfl
  · exact authority_stop net

theorem authority_launch : (net.launch T).authority = net.authority := by
  unfold launch
  split_ifs
  · exact authority_sendConnectRequest net
  · refine (authority_incidental (incidental_callOnConnected _ _)).trans ?_
    rfl
  · rfl

theorem authority_start (config : Config) (udp : ℕ) :
    (net.start T config udp).1.authority = net.authority := by
  have hstop : (if net.mode = .none then net else net.stop T).authority = net.authority := by
    split_ifs
    · rfl
    · exact authority_stop net
  unfold start
  dsimp only
  generalize (if net.mode = .none then net else net.stop T) = stopped at hstop
  split_ifs
  · exact (authority_launch _).trans hstop
  · exact hstop

theorem authority_addLocalClient : net.addLocalClient.1.authority = net.authority := by
  unfold addLocalClient
  split_ifs
  · rfl
  · dsimp only
    refine (authority_incidental (incidental_tellReplication _ _)).trans ?_
    refine (authority_incidental (incidental_callOnConnected _ _)).trans ?_
    rfl

theorem authority_disconnectClient (client : ClientId) :
    (net.disconnectClient T client).authority = net.authority := by
  unfold disconnectClient
  by_cases hs : net.serving
  · rw [if_neg (by simp [hs])]
    rcases net.findClientById client with _ | entry
    · rfl
    · dsimp only
      rw [authority_incidental (incidental_dropClient _ _)]
      split_ifs
      · rfl
      · split <;> rfl
  · rw [if_pos (by simp [hs])]

theorem authority_disconnect : (net.disconnect T).authority = net.authority := by
  unfold disconnect
  split_ifs
  · exact (authority_stop _).trans (authority_transmit net _ _)
  · exact authority_stop net
  · exact authority_disconnectClient net _
  · rfl

theorem authority_finishPoll (env : PollEnv) :
    (net.finishPoll T env).authority = net.authority := by
  have hsync : (net.pollClientTimeSync T env).authority = net.authority := by
    unfold pollClientTimeSync
    dsimp only
    split_ifs
    · rfl
    · rfl
    · rfl
    · exact authority_transmit _ _ _
    · rfl
  unfold finishPoll
  dsimp only
  split_ifs
  all_goals first
    | exact hsync
    | exact (authority_sendConnectRequest _).trans hsync

theorem authority_sendRpc (client : ClientId) (packet : Bytes) :
    (net.sendRpc T client packet).authority = net.authority := by
  unfold sendRpc
  split_ifs
  · rfl
  · exact authority_sendToClient net _ _ _
  · exact authority_send net _ _
  · rfl

theorem authority_invokeRpc (target : RpcTarget) (rpcId : UInt16) (args : Bytes) :
    (net.invokeRpc T target rpcId args).authority = net.authority := by
  unfold invokeRpc
  rcases net.rpcManager with _ | rpc
  · rfl
  · dsimp only
    by_cases hnet : rpc.hasNet
    · rw [if_neg (by simp [hnet])]
      cases target with
      | client client => exact authority_sendRpc net _ _
      | server => exact authority_sendRpc net _ _
      | broadcast => exact authority_broadcast net _ _ _
      | owner entity =>
        dsimp only
        split_ifs
        · rfl
        · exact authority_sendRpc net _ _
      | notOwner entity =>
        dsimp only
        split_ifs
        · rfl
        · exact authority_broadcast net _ _ _
    · rw [if_pos (by simp [hnet])]

theorem authority_foldl_send {α : Type*} (f : α → NetworkManager σ → NetworkManager σ)
    (hf : ∀ a net, (f a net).authority = net.authority) (l : List α) :
    (l.foldl (fun net a => f a net) net).authority = net.authority := by
  induction l generalizing net with
  | nil => rfl
  | cons a l ih => rw [List.foldl_cons, ih, hf]

theorem authority_sendFullStateToClient (client : ClientId) :
    (net.sendFullStateToClient T client).authority = net.authority := by
  unfold sendFullStateToClient
  split
  · rfl
  · exact authority_foldl_send net (fun msg net => (net.sendToClient T client msg .reliableOrdered).1)
      (fun msg net => authority_sendToClient net client msg _) _

theorem authority_serverTick {deltaTime : ℚ} {envs : List SnapshotEnv} {net' : NetworkManager σ}
    (h : net.serverTick T deltaTime envs = some net') : net'.authority = net.authority := by
  unfold serverTick at h
  split at h
  · cases h
    rfl
  · split_ifs at h
    · cases h
      rfl
    · obtain ⟨out, -, rfl⟩ := Option.map_eq_some_iff.mp h
      exact authority_foldl_send _
        (fun (msg : ClientId × Bytes) net => (net.sendToClient T msg.1 msg.2 .unreliable).1)
        (fun msg net => authority_sendToClient net _ _ _) _

theorem authority_clientTick {deltaTime : ℚ} {turns : ℕ} {net' : NetworkManager σ}
    (h : net.clientTick T deltaTime turns = some net') : net'.authority = net.authority := by
  unfold clientTick at h
  split at h
  · cases h
    rfl
  · split_ifs at h
    · cases h
      rfl
    · obtain ⟨out, -, rfl⟩ := Option.map_eq_some_iff.mp h
      exact authority_foldl_send _ (fun msg net => (net.send T msg .unreliable).1)
        (fun msg net => authority_send net _ _) _

end

/-! ### Runs -/

/-- What a server's own call makes of its entity table. -/
def ownCall (em : NetworkEntityManager) : Call σ → NetworkEntityManager
  | .spawn prefabId initData handle _ => (em.spawn prefabId initData handle).1
  | .destroy id _ => (em.destroy id).1
  | .setOwner id owner => em.setOwner id owner
  | _ => em

/-- No packet handled by the call meddles with the authority. -/
def Obeyed (net : NetworkManager σ) (call : Call σ) : Prop :=
  net.CallPackets T (fun net _ _ buffer sender => ¬net.Meddles buffer sender) call

instance (net : NetworkManager σ) (call : Call σ) : Decidable (net.Obeyed T call) :=
  inferInstanceAs (Decidable (net.CallPackets T _ call))

section
variable {T} {net net' : NetworkManager σ}

theorem authority_poll {env : PollEnv} (h : net.poll T env = some net')
    (hok : net.Obeyed T (.poll env)) : net'.authority = net.authority := by
  unfold poll at h
  split_ifs at h
  · cases h
    rfl
  · obtain ⟨out, hout, rfl⟩ := Option.map_eq_some_iff.mp h
    rw [authority_finishPoll]
    exact pollTransportReceives_invariant (I := fun n => n.authority = net.authority)
      (fun n world hn => hn)
      (fun n env t buffer sender hP hn =>
        ((authority_handlePacket n env t buffer sender).mpr hP).trans hn)
      hout hok rfl

theorem authority_spawnEntity (prefabId : PrefabId) (initData : Bytes) (handle : EntityHandle)
    (announce : Bool) : (net.spawnEntity T prefabId initData handle announce).authority =
      (net.entityManager.map fun em => (em.spawn prefabId initData handle).1, net.authority.2) := by
  unfold spawnEntity
  rcases hem : net.entityManager with _ | em
  · unfold authority
    rw [hem]
    rfl
  · have hcalls : ∀ c ∈ (em.spawn prefabId initData handle).2.1, ¬c.IsDeserialize := fun c hc =>
      AppCall.not_isDeserialize (NetworkEntityManager.spawn_calls hc) (by decide)
    dsimp only
    split_ifs
    · rw [authority_broadcast, authority_called _ hcalls]
      rfl
    · rw [authority_called _ hcalls]
      rfl

theorem authority_tell (net : NetworkManager σ) {f : NetworkEntityManager → NetworkEntityManager × List AppCall}
    (hf : ∀ em, ∀ c ∈ (f em).2, ¬c.IsDeserialize) : (net.tellEntities f).authority =
      (net.entityManager.map fun em => (f em).1, net.authority.2) := by
  unfold tellEntities
  rcases hem : net.entityManager with _ | em
  · unfold authority
    rw [hem]
    rfl
  · rw [authority_called _ (hf em)]
    rfl

theorem authority_destroyEntity (id : NetworkId) (announce : Bool) :
    (net.destroyEntity T id announce).authority =
      (net.entityManager.map fun em => (em.destroy id).1, net.authority.2) := by
  have htell := authority_tell net (f := fun em => em.destroy id)
    fun em c hc => AppCall.not_isDeserialize (NetworkEntityManager.destroy_calls hc) (by decide)
  unfold destroyEntity
  rcases hem : net.entityManager with _ | em
  · unfold authority
    rw [hem]
    rfl
  · rw [hem] at htell
    dsimp only
    split_ifs
    · rw [authority_broadcast, htell]
    · rw [htell]

/-- One call changes the table as the server's own call does, and hands nothing to the bridge. -/
theorem authority_step {call : Call σ} (h : net.step T call = some net')
    (hok : net.Obeyed T call) :
    net'.authority = (net.entityManager.map fun em => ownCall em call, net.authority.2) := by
  have hsame : net.authority = (net.entityManager.map fun em => em, net.authority.2) := by
    rw [Option.map_id']
    rfl
  cases call with
  | poll env => exact (authority_poll h hok).trans hsame
  | serverTick deltaTime envs => exact (authority_serverTick net h).trans hsame
  | clientTick deltaTime turns => exact (authority_clientTick net h).trans hsame
  | network world => cases h; exact hsame
  | setTransport t => cases h; exact (authority_setTransport net t).trans hsame
  | addTransport t => cases h; exact hsame
  | start config udp => cases h; exact (authority_start net config udp).trans hsame
  | stop => cases h; exact (authority_stop net).trans hsame
  | addLocalClient => cases h; exact (authority_addLocalClient net).trans hsame
  | disconnectClient client => cases h; exact (authority_disconnectClient net client).trans hsame
  | disconnect => cases h; exact (authority_disconnect net).trans hsame
  | sendToClient client data r => cases h; exact (authority_sendToClient net client data r).trans hsame
  | broadcast data r exclude => cases h; exact (authority_broadcast net data r exclude).trans hsame
  | send data r => cases h; exact (authority_send net data r).trans hsame
  | popMessage =>
    cases h
    refine Eq.trans ?_ hsame
    unfold popMessage
    split <;> rfl
  | setCallbacks callbacks => cases h; exact hsame
  | setConnectionToken token => cases h; exact hsame
  | setReplicationManager rep => cases h; exact hsame
  | setRpcManager rpc => cases h; exact hsame
  | spawn prefabId initData handle announce =>
    cases h
    exact authority_spawnEntity prefabId initData handle announce
  | destroy id announce => cases h; exact authority_destroyEntity id announce
  | setOwner id owner =>
    cases h
    exact authority_tell net fun em c hc => absurd hc List.not_mem_nil
  | sendFullState client => cases h; exact (authority_sendFullStateToClient net client).trans hsame
  | markDirty id => cases h; exact hsame
  | invokeRpc target rpcId args => cases h; exact (authority_invokeRpc net target rpcId args).trans hsame

end

/-- In a run without meddling packets the entity table is what the server's own calls make of it,
and `deserialize_entity` is not called. -/
theorem serverAuthority (T : ℕ → ITransport σ) (net net' : NetworkManager σ) (run : List (Call σ))
    (h : Run.exec (step T) net run = some net') (hok : Run.Admits (step T) (Obeyed T) net run) :
    net'.entityManager = (net.entityManager.map fun em => run.foldl ownCall em) ∧
      (net'.calls.filter fun c => c.IsDeserialize) = net.calls.filter fun c => c.IsDeserialize := by
  induction run generalizing net with
  | nil =>
    cases h
    exact ⟨by simp, rfl⟩
  | cons call run ih =>
    obtain ⟨mid, hmid, h⟩ := Option.bind_eq_some_iff.mp h
    have hstep := authority_step hmid hok.1
    obtain ⟨htable, hcalls⟩ := ih mid h (hok.2 mid hmid)
    refine ⟨?_, hcalls.trans (congrArg Prod.snd hstep)⟩
    have hem : mid.entityManager = net.entityManager.map fun em => ownCall em call :=
      congrArg Prod.fst hstep
    rw [htable, hem, Option.map_map]
    rfl

/-- The server spawns an entity and receives a message of its client. -/
def quietRun : List (Call LoopbackHub) := [.spawn 3 [7] 9 true, pollCall 1]

/-- A client that sends a user message. -/
theorem serverAuthority_quietRun : ∃ net',
    Run.exec (step loopback) (served [[1, 2]]) quietRun = some net' ∧
      Run.Admits (step loopback) (Obeyed loopback) (served [[1, 2]]) quietRun ∧
      net'.entityManager =
        some { entities := [⟨1, 3, 9, 0⟩], hasBridge := true, nextId := 2 } ∧
      (net'.calls.filter fun c => c.IsDeserialize) = [] := by
  have hok : Run.Admits (step loopback) (Obeyed loopback) (served [[1, 2]]) quietRun := by
    decide +kernel
  obtain ⟨net', h⟩ : ∃ net', Run.exec (step loopback) (served [[1, 2]]) quietRun = some net' :=
    Option.isSome_iff_exists.mp (by decide +kernel)
  exact ⟨net', h, hok, serverAuthority loopback _ net' quietRun h hok⟩

/-- A client's spawn message enters an entity at the server, and its delta message is handed to the
bridge, without a call of the server's own. -/
theorem serverAuthority_client_meddles : ∃ net', Run.exec (step loopback)
    (served [NetworkEntityManager.spawnMessage 5 3 [],
      NetworkReplicationManager.snapshotMessage 1 [(5, [9])]]) [pollCall 2] = some net' ∧
    net'.entityManager = some { entities := [⟨5, 3, 0, 0⟩], hasBridge := true } ∧
    .deserializeEntity 5 [9] ∈ net'.calls := by
  refine ⟨_, rfl, ?_, ?_⟩
  · decide +kernel
  · decide +kernel

end NetworkManager

end CampelloNet
