import CampelloNet.Manager.Packets

/-!
# What a packet leaves alone

The handlers of connections, clocks, acks and RPCs, and the removal of a client whose packet is too
long, touch neither the entity table nor the queue of messages, and of the game they call no more
than its notices.
-/

namespace CampelloNet

open Lib Transport

/-! ### The calls that the managers make -/

namespace NetworkEntityManager

variable {em : NetworkEntityManager} {c : AppCall}

theorem create_calls {prefabId : PrefabId} {netId : NetworkId} {initData : Bytes}
    {handle : EntityHandle} (hc : c ∈ (em.create prefabId netId initData handle).2) :
    c.kind = .lifecycle := by
  unfold create at hc
  split_ifs at hc
  · obtain rfl := List.mem_singleton.mp hc
    rfl
  · cases hc

theorem remove_calls {ent : Entity} (hc : c ∈ (em.remove ent).2) : c.kind = .lifecycle := by
  unfold remove at hc
  split_ifs at hc
  · obtain rfl := List.mem_singleton.mp hc
    rfl
  · cases hc

theorem spawn_calls {prefabId : PrefabId} {initData : Bytes} {handle : EntityHandle}
    (hc : c ∈ (em.spawn prefabId initData handle).2.1) : c.kind = .lifecycle := by
  unfold spawn at hc
  split_ifs at hc
  · cases hc
  · exact create_calls hc

theorem destroy_calls {netId : NetworkId} (hc : c ∈ (em.destroy netId).2) :
    c.kind = .lifecycle := by
  unfold destroy at hc
  split at hc
  · cases hc
  · exact remove_calls hc

theorem onReceiveSpawn_calls {data : Bytes} {handle : EntityHandle}
    (hc : c ∈ (em.onReceiveSpawn data handle).2) : c.kind = .lifecycle := by
  unfold onReceiveSpawn at hc
  dsimp only at hc
  split_ifs at hc
  all_goals first
    | cases hc
    | exact create_calls hc

theorem onReceiveDestroy_calls {data : Bytes} (hc : c ∈ (em.onReceiveDestroy data).2) :
    c.kind = .lifecycle := by
  unfold onReceiveDestroy at hc
  split_ifs at hc
  · cases hc
  · exact destroy_calls hc

end NetworkEntityManager

theorem NetworkReplicationManager.onReceiveDelta_kind {rep : NetworkReplicationManager}
    {data : Bytes} {c : AppCall} (hc : c ∈ (rep.onReceiveDelta data).2) : c.kind = .state := by
  unfold onReceiveDelta applyDelta at hc
  split_ifs at hc
  · cases hc
  · obtain ⟨ent, -, rfl⟩ := List.mem_map.mp hc
    rfl
  · cases hc
  · obtain ⟨ent, -, rfl⟩ := List.mem_map.mp hc
    rfl
  · cases hc

theorem RpcManager.onReceive_calls {env : ReceiveEnv} {sender : ClientId} {data : Bytes}
    {rpc : RpcManager} {c : AppCall} (hc : c ∈ (rpc.onReceive env sender data).2) :
    c.kind = .notice := by
  unfold onReceive at hc
  dsimp only at hc
  split_ifs at hc
  · cases hc
  · cases hc
  · split at hc
    · cases hc
    · split_ifs at hc
      · cases hc
      · split at hc
        · obtain rfl := List.mem_singleton.mp hc
          rfl
        · split_ifs at hc
          · obtain rfl := List.mem_singleton.mp hc
            rfl
          · cases hc

/-! ### The handlers -/

namespace NetworkManager

variable {σ : Type}

structure Incidental (net net' : NetworkManager σ) : Prop where
  entityManager : net'.entityManager = net.entityManager
  messageQueue : net'.messageQueue = net.messageQueue
  calls : ∃ calls, net'.calls = net.calls ++ calls ∧ ∀ c ∈ calls, AppCall.kind c = .notice

namespace Incidental

variable {net net₁ net₂ : NetworkManager σ}

theorem of_eq (hem : net₁.entityManager = net.entityManager)
    (hqueue : net₁.messageQueue = net.messageQueue) (hcalls : net₁.calls = net.calls) :
    Incidental net net₁ :=
  ⟨hem, hqueue, [], by rw [hcalls, List.append_nil], fun _ hc => absurd hc List.not_mem_nil⟩

theorem refl (net : NetworkManager σ) : Incidental net net := of_eq rfl rfl rfl

theorem trans (h₁ : Incidental net net₁) (h₂ : Incidental net₁ net₂) : Incidental net net₂ := by
  obtain ⟨calls₁, heq₁, hall₁⟩ := h₁.calls
  obtain ⟨calls₂, heq₂, hall₂⟩ := h₂.calls
  refine ⟨h₂.entityManager.trans h₁.entityManager, h₂.messageQueue.trans h₁.messageQueue,
    calls₁ ++ calls₂, by rw [heq₂, heq₁, List.append_assoc], ?_⟩
  intro c hc
  rcases List.mem_append.mp hc with hc | hc
  · exact hall₁ c hc
  · exact hall₂ c hc

theorem called {calls : List AppCall} (h : ∀ c ∈ calls, c.kind = .notice) :
    Incidental net (net.called calls) := ⟨rfl, rfl, calls, rfl, h⟩

theorem called_one {c : AppCall} (h : c.kind = .notice) : Incidental net (net.called [c]) :=
  called fun d hd => by rwa [List.mem_singleton.mp hd]

/-- The calls of a kind that no notice belongs to stay the same. -/
theorem filter_calls (h : Incidental net net₁) {p : AppCall → Bool}
    (hp : ∀ c : AppCall, c.kind = .notice → p c = false) : net₁.calls.filter p = net.calls.filter p := by
  obtain ⟨calls, heq, hall⟩ := h.calls
  have hnil : calls.filter p = [] :=
    List.filter_eq_nil_iff.mpr fun c hc => by simp [hp c (hall c hc)]
  rw [heq, List.filter_append, hnil, List.append_nil]

end Incidental

variable {T : ℕ → ITransport σ} (net : NetworkManager σ)

theorem incidental_callOnConnected (client : ClientId) :
    Incidental net (net.callOnConnected client) := by
  unfold callOnConnected
  split_ifs
  · exact .called_one rfl
  · exact .refl net

theorem incidental_callOnDisconnected (client : ClientId) :
    Incidental net (net.callOnDisconnected client) := by
  unfold callOnDisconnected
  split_ifs
  · exact .called_one rfl
  · exact .refl net

theorem incidental_tellReplication (f : NetworkReplicationManager → NetworkReplicationManager) :
    Incidental net (net.tellReplication f) := .of_eq rfl rfl rfl

theorem incidental_dropClient (client : ClientId) : Incidental net (net.dropClient client) :=
  have herase : Incidental net (net.eraseClient client) := .of_eq rfl rfl rfl
  (herase.trans (incidental_callOnDisconnected _ client)).trans (incidental_tellReplication _ _)

theorem incidental_disconnectTransport : Incidental net (net.disconnectTransport T) := by
  unfold disconnectTransport
  split
  · exact .refl net
  · exact .of_eq rfl rfl rfl

theorem incidental_rejectClient (t : ℕ) (sender : Address) (reason : Bytes) :
    Incidental net (net.rejectClient T t sender reason) := .of_eq rfl rfl rfl

theorem incidental_admitClient (entry : ClientEntry) (t : ℕ) :
    Incidental net (net.admitClient T entry t) := by
  unfold admitClient
  dsimp only
  refine .trans ?_ (incidental_tellReplication _ _)
  refine .trans ?_ (incidental_callOnConnected _ _)
  exact .of_eq rfl rfl rfl

theorem incidental_checkApproval (env : PacketEnv) (sender : Address) (data : Bytes) :
    Incidental net (net.checkApproval env sender data).1 := by
  unfold checkApproval
  dsimp only
  split_ifs
  · exact .called_one rfl
  · exact .refl net

theorem incidental_onConnectRequest (env : PacketEnv) (sender : Address) (t : ℕ) (data : Bytes) :
    Incidental net (net.onConnectRequest T env sender t data) := by
  have happ := incidental_checkApproval net env sender data
  unfold onConnectRequest
  split_ifs
  · exact .refl net
  · split
    · exact .of_eq rfl rfl rfl
    · dsimp only
      split_ifs
      · exact happ.trans (incidental_rejectClient _ t sender _)
      · exact happ.trans (incidental_rejectClient _ t sender _)
      · exact happ.trans (incidental_admitClient _ _ t)

theorem incidental_onConnectAccept (data : Bytes) : Incidental net (net.onConnectAccept data) := by
  unfold onConnectAccept
  split_ifs
  · exact .refl net
  · exact .refl net
  · dsimp only
    refine .trans ?_ (incidental_tellReplication _ _)
    refine .trans ?_ (incidental_callOnConnected _ _)
    exact .of_eq rfl rfl rfl

theorem incidental_onConnectReject : Incidental net (net.onConnectReject T) := by
  unfold onConnectReject
  split_ifs
  · exact .refl net
  · have hdis := incidental_disconnectTransport (T := T) { net with awaitingAccept := false }
    exact ⟨hdis.entityManager, hdis.messageQueue, hdis.calls⟩

theorem incidental_onDisconnectNotify (sender : Address) :
    Incidental net (net.onDisconnectNotify T sender) := by
  unfold onDisconnectNotify
  split_ifs
  · split
    · exact .refl net
    · exact incidental_dropClient net _
  · dsimp only
    have hleft : Incidental net { net with clientConnected := false, localClientId := 0 } :=
      .of_eq rfl rfl rfl
    exact ((hleft.trans (incidental_disconnectTransport _)).trans
      (incidental_callOnDisconnected _ 0)).trans (incidental_tellReplication _ _)
  · exact .refl net

theorem incidental_onTimeSyncRequest (env : PacketEnv) (sender : Address) (t : ℕ) (data : Bytes) :
    Incidental net (net.onTimeSyncRequest T env sender t data) := by
  unfold onTimeSyncRequest
  split_ifs
  · exact .refl net
  · exact .refl net
  · exact .of_eq rfl rfl rfl

theorem incidental_onTimeSyncResponse (env : PacketEnv) (data : Bytes) :
    Incidental net (net.onTimeSyncResponse env data) := by
  unfold onTimeSyncResponse
  split_ifs
  · exact .refl net
  · exact .refl net
  · exact .of_eq rfl rfl rfl

theorem incidental_onSnapshotAck (senderId : ClientId) (data : Bytes) :
    Incidental net (net.onSnapshotAck senderId data) := by
  unfold onSnapshotAck
  split_ifs
  · exact incidental_tellReplication net _
  · exact .refl net

theorem incidental_allowRpc (env : PacketEnv) (sender : Address) :
    Incidental net (net.allowRpc env sender).1 := by
  unfold allowRpc
  split_ifs
  · split
    · exact .refl net
    · exact .of_eq rfl rfl rfl
  · exact .refl net

theorem incidental_onRpc (env : PacketEnv) (senderId : ClientId) (sender : Address) (data : Bytes) :
    Incidental net (net.onRpc T env senderId sender data) := by
  have hallow := incidental_allowRpc net env sender
  unfold onRpc
  split
  · exact .refl net
  · dsimp only
    split_ifs
    · obtain ⟨hem, hqueue, hcalls⟩ := hallow
      refine .trans ⟨hem, hqueue, hcalls⟩ ?_
      exact ⟨rfl, rfl, _, rfl, fun c hc => RpcManager.onReceive_calls hc⟩
    · exact hallow

theorem incidental_onOversized (sender : Address) : Incidental net (net.onOversized T sender) := by
  unfold onOversized
  split_ifs
  · exact .refl net
  · split
    · exact .refl net
    · split
      · exact .refl net
      · split_ifs
        · exact .refl net
        · refine .trans ?_ (incidental_dropClient _ _)
          exact .of_eq rfl rfl rfl

/-! ### The dispatch -/

/-- What holds after every handler holds after the dispatch. -/
theorem processSystemMessage_cases {P : NetworkManager σ → Prop} {env : PacketEnv}
    {senderId : ClientId} {sender : Address} {t : ℕ} {type : UInt8} {data : Bytes}
    (connectRequest : type = SysType.connectRequest → P (net.onConnectRequest T env sender t data))
    (connectAccept : type = SysType.connectAccept → P (net.onConnectAccept data))
    (connectReject : type = SysType.connectReject → P (net.onConnectReject T))
    (disconnectNotify : type = SysType.disconnectNotify → P (net.onDisconnectNotify T sender))
    (timeSyncRequest : type = SysType.timeSyncRequest →
      P (net.onTimeSyncRequest T env sender t data))
    (timeSyncResponse : type = SysType.timeSyncResponse → P (net.onTimeSyncResponse env data))
    (entitySpawn : type = SysType.entitySpawn →
      P (net.tellEntities fun em => em.onReceiveSpawn data env.handle))
    (entityDestroy : type = SysType.entityDestroy →
      P (net.tellEntities fun em => em.onReceiveDestroy data))
    (entitySetOwner : type = SysType.entitySetOwner →
      P (net.tellEntities fun em => (em.onReceiveSetOwner data, [])))
    (entityFullState : type = SysType.entityFullState →
      P (net.tellEntities fun em => (em.onReceiveFullState data, [])))
    (deltaState : type = SysType.deltaState → P (net.onDeltaState data))
    (snapshotAck : type = SysType.snapshotAck → P (net.onSnapshotAck senderId data))
    (rpc : type = SysType.rpc → P (net.onRpc T env senderId sender data))
    (unknown : P net) : P (net.processSystemMessage T env senderId sender t type data) := by
  unfold processSystemMessage
  refine iteInduction connectRequest fun _ => iteInduction connectAccept fun _ => ?_
  refine iteInduction connectReject fun _ => iteInduction disconnectNotify fun _ => ?_
  refine iteInduction timeSyncRequest fun _ => iteInduction timeSyncResponse fun _ => ?_
  refine iteInduction entitySpawn fun _ => iteInduction entityDestroy fun _ => ?_
  refine iteInduction entitySetOwner fun _ => iteInduction entityFullState fun _ => ?_
  refine iteInduction deltaState fun _ => iteInduction snapshotAck fun _ => ?_
  exact iteInduction rpc fun _ => unknown

end NetworkManager

end CampelloNet
