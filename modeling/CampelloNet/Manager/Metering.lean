import CampelloNet.Manager.ClientTable
import CampelloNet.Manager.Delivery

/-!
# The rate limiters of the clients

What the rate limits on an address depend on: the entries of the client table with this address, each
with its limiter. A packet charges the limiter of its sender, or adds an entry with a fresh one, or
does neither; the calls of the application remove entries, and add none with the address of a peer.
-/

namespace CampelloNet.NetworkManager

open Lib Transport

variable {σ : Type} {T : ℕ → ITransport σ}

/-- What of an entry decides on the packets of its address. -/
structure Meter where
  address : Address
  approved : Bool
  limiter : RateLimiter

def ClientEntry.meter (entry : ClientEntry) : Meter :=
  ⟨entry.address, entry.approved, entry.rateLimiter⟩

def meters (net : NetworkManager σ) : List Meter := net.clients.map ClientEntry.meter

/-- Those of one address. -/
def metersAt (addr : Address) (net : NetworkManager σ) : List Meter :=
  net.meters.filter fun m => m.address = addr

section
variable (net : NetworkManager σ)

/-! ### Sending -/

@[simp] theorem meters_flushToCallbacks (client : ClientId) (data : Bytes) :
    (net.flushToCallbacks client data).meters = net.meters := by
  unfold flushToCallbacks
  split_ifs <;> rfl

@[simp] theorem meters_callOnConnected (client : ClientId) :
    (net.callOnConnected client).meters = net.meters := by
  unfold callOnConnected
  split_ifs <;> rfl

@[simp] theorem meters_callOnDisconnected (client : ClientId) :
    (net.callOnDisconnected client).meters = net.meters := by
  unfold callOnDisconnected
  split_ifs <;> rfl

@[simp] theorem meters_tellReplication
    (f : NetworkReplicationManager → NetworkReplicationManager) :
    (net.tellReplication f).meters = net.meters := rfl

@[simp] theorem meters_tellEntities
    (f : NetworkEntityManager → NetworkEntityManager × List AppCall) :
    (net.tellEntities f).meters = net.meters := by
  unfold tellEntities
  split <;> rfl

@[simp] theorem meters_disconnectTransport :
    (net.disconnectTransport T).meters = net.meters := by
  unfold disconnectTransport
  split <;> rfl

@[simp] theorem meters_transmit (data : Bytes) (r : PacketReliability) :
    (net.transmit T data r).1.meters = net.meters := by
  unfold transmit
  split <;> rfl

/-- Counting what was sent to a client leaves its limiter alone. -/
theorem meters_count {length : ℕ} {entry : ClientEntry}
    (h : net.findClientById entry.id = some entry) :
    (net.setClientById (countSent length entry)).meters = net.meters :=
  map_upsert_of_lookup (f := ClientEntry.meter) (a := countSent length entry) h rfl

@[simp] theorem meters_sendToClient (client : ClientId) (data : Bytes) (r : PacketReliability) :
    (net.sendToClient T client data r).1.meters = net.meters := by
  unfold sendToClient
  split_ifs
  · rfl
  · rfl
  · split
    · rfl
    · rename_i entry hentry
      obtain ⟨hfind, -⟩ := Option.filter_eq_some_iff.mp hentry
      split
      · exact meters_flushToCallbacks _ client data
      · have hid : entry.id = client := lookup_key hfind
        dsimp only
        split_ifs
        · apply meters_count
          rw [hid]
          exact hfind
        · rfl

theorem meters_broadcastOne (data : Bytes) (r : PacketReliability) (exclude : ClientId)
    (c : ClientEntry) : (broadcastOne T data r exclude c net).1.meters = net.meters ∧
      (broadcastOne T data r exclude c net).2.meter = c.meter := by
  unfold broadcastOne
  split_ifs
  · exact ⟨rfl, rfl⟩
  · split
    · exact ⟨meters_flushToCallbacks _ _ _, rfl⟩
    · dsimp only
      split_ifs <;> exact ⟨rfl, rfl⟩

theorem meters_broadcastLoop (data : Bytes) (r : PacketReliability) (exclude : ClientId)
    (cs : List ClientEntry) : (broadcastLoop T data r exclude cs net).2.map ClientEntry.meter =
      cs.map ClientEntry.meter := by
  induction cs generalizing net with
  | nil => rfl
  | cons c cs ih =>
    obtain ⟨-, hc⟩ := meters_broadcastOne (T := T) net data r exclude c
    rw [broadcastLoop, List.map_cons, List.map_cons, hc, ih]

@[simp] theorem meters_broadcast (data : Bytes) (r : PacketReliability) (exclude : ClientId) :
    (net.broadcast T data r exclude).meters = net.meters := by
  unfold broadcast
  dsimp only
  split_ifs
  · rfl
  · exact meters_broadcastLoop (T := T) _ data r exclude net.clients
  · exact meters_broadcastLoop (T := T) net data r exclude net.clients

@[simp] theorem meters_send (data : Bytes) (r : PacketReliability) :
    (net.send T data r).1.meters = net.meters := by
  unfold send
  split_ifs
  · exact meters_transmit net data r
  · rfl
  · exact meters_flushToCallbacks _ _ _
  · rfl

theorem meters_sendConnectRequest : (net.sendConnectRequest T).meters = net.meters := by
  unfold sendConnectRequest
  split_ifs
  · rfl
  · exact meters_transmit net _ _

@[simp] theorem meters_sendRpc (client : ClientId) (packet : Bytes) :
    (net.sendRpc T client packet).meters = net.meters := by
  unfold sendRpc
  split_ifs
  · rfl
  · exact meters_sendToClient net client packet _
  · exact meters_send net packet _
  · rfl

theorem meters_invokeRpc (target : RpcTarget) (rpcId : UInt16) (args : Bytes) :
    (net.invokeRpc T target rpcId args).meters = net.meters := by
  unfold invokeRpc
  rcases net.rpcManager with _ | rpc
  · rfl
  · dsimp only
    by_cases hnet : rpc.hasNet
    · rw [if_neg (by simp [hnet])]
      cases target with
      | client _ | server => exact meters_sendRpc net _ _
      | broadcast => exact meters_broadcast net _ _ _
      | owner entity =>
        dsimp only
        split_ifs
        · rfl
        · exact meters_sendRpc net _ _
      | notOwner entity =>
        dsimp only
        split_ifs
        · rfl
        · exact meters_broadcast net _ _ _
    · rw [if_pos (by simp [hnet])]

theorem meters_foldl {α : Type*} {f : α → NetworkManager σ → NetworkManager σ}
    (hf : ∀ a n, (f a n).meters = n.meters) (l : List α) :
    (l.foldl (fun net a => f a net) net).meters = net.meters := by
  induction l generalizing net with
  | nil => rfl
  | cons a l ih => exact (ih (f a net)).trans (hf a net)

theorem meters_sendFullStateToClient (client : ClientId) :
    (net.sendFullStateToClient T client).meters = net.meters := by
  unfold sendFullStateToClient
  split
  · rfl
  · exact meters_foldl net (f := fun msg net => (net.sendToClient T client msg .reliableOrdered).1)
      (fun msg n => meters_sendToClient n client msg _) _

theorem meters_spawnEntity (prefabId : PrefabId) (initData : Bytes) (handle : EntityHandle)
    (announce : Bool) : (net.spawnEntity T prefabId initData handle announce).meters = net.meters := by
  unfold spawnEntity
  split
  · rfl
  · dsimp only
    split_ifs
    · exact meters_broadcast _ _ _ _
    · rfl

theorem meters_destroyEntity (id : NetworkId) (announce : Bool) :
    (net.destroyEntity T id announce).meters = net.meters := by
  unfold destroyEntity
  split
  · rfl
  · dsimp only
    split_ifs
    · rw [meters_broadcast, meters_tellEntities]
    · exact meters_tellEntities net _

theorem meters_serverTick {deltaTime : ℚ} {envs : List SnapshotEnv} {net' : NetworkManager σ}
    (h : net.serverTick T deltaTime envs = some net') : net'.meters = net.meters := by
  unfold serverTick at h
  split at h
  · cases h
    rfl
  · split_ifs at h
    · cases h
      rfl
    · obtain ⟨out, -, rfl⟩ := Option.map_eq_some_iff.mp h
      exact meters_foldl _
        (f := fun (msg : ClientId × Bytes) net => (net.sendToClient T msg.1 msg.2 .unreliable).1)
        (fun msg n => meters_sendToClient n _ _ _) _

theorem meters_clientTick {deltaTime : ℚ} {turns : ℕ} {net' : NetworkManager σ}
    (h : net.clientTick T deltaTime turns = some net') : net'.meters = net.meters := by
  unfold clientTick at h
  split at h
  · cases h
    rfl
  · split_ifs at h
    · cases h
      rfl
    · obtain ⟨out, -, rfl⟩ := Option.map_eq_some_iff.mp h
      exact meters_foldl _ (f := fun msg net => (net.send T msg .unreliable).1)
        (fun msg n => meters_send n _ _) _

theorem meters_finishPoll (env : PollEnv) : (net.finishPoll T env).meters = net.meters := by
  have hsync : (net.pollClientTimeSync T env).meters = net.meters := by
    unfold pollClientTimeSync
    dsimp only
    split_ifs
    · rfl
    · rfl
    · rfl
    · exact meters_transmit _ _ _
    · rfl
  have hstats : ({ net.pollClientTimeSync T env with
      clients := (net.pollClientTimeSync T env).clients.map (updateStats env.now) } :
        NetworkManager σ).meters = net.meters := by
    rw [← hsync]
    unfold meters
    rw [List.map_map]
    apply List.map_congr_left
    intro c _
    show (updateStats env.now c).meter = _
    unfold updateStats
    split_ifs <;> rfl
  unfold finishPoll
  dsimp only
  split_ifs
  · exact (meters_sendConnectRequest _).trans hstats
  · exact (meters_sendConnectRequest _).trans hstats
  · exact hstats
  · exact hstats

/-! ### Calls -/

theorem meters_eraseClient (id : ClientId) : (net.eraseClient id).meters.Sublist net.meters :=
  List.filter_sublist.map _

theorem meters_dropClient (id : ClientId) : (net.dropClient id).meters.Sublist net.meters := by
  unfold dropClient
  rw [meters_tellReplication, meters_callOnDisconnected]
  exact meters_eraseClient net id

theorem meters_disconnectClient (client : ClientId) :
    (net.disconnectClient T client).meters.Sublist net.meters := by
  unfold disconnectClient
  split_ifs
  · exact .refl _
  · split
    · exact .refl _
    · exact meters_dropClient _ _
  · split
    · exact .refl _
    · dsimp only
      refine (meters_dropClient _ _).trans ?_
      split <;> exact .refl _

theorem meters_halted : (if net.mode = .none then net else net.stop T).meters.Sublist net.meters := by
  split_ifs
  · exact .refl _
  · exact List.nil_sublist _

/-- `start` adds none but the host's own client. -/
theorem meters_start (config : Config) (udp : ℕ) :
    (net.start T config udp).1.meters.Sublist net.meters ∨
      ∃ id, (net.start T config udp).1.meters.Sublist (net.meters ++ [(localEntry id).meter]) := by
  have hhalted := meters_halted (T := T) net
  unfold start
  dsimp only
  generalize (if net.mode = .none then net else net.stop T) = stopped at hhalted
  generalize hopened : openTransport T (stopped.transport.getD udp) _ = opened
  have hopen : opened.1.meters.Sublist net.meters := by
    rw [← hopened]
    exact hhalted
  split_ifs
  · show (opened.1.launch T).meters.Sublist _ ∨ ∃ id, (opened.1.launch T).meters.Sublist _
    unfold launch
    split_ifs
    · rw [meters_sendConnectRequest]
      exact .inl hopen
    · refine .inr ⟨opened.1.generateClientId, ?_⟩
      dsimp only
      rw [meters_callOnConnected]
      unfold meters
      rw [List.map_append]
      exact hopen.append_right _
    · exact .inl hopen
  · exact .inl hopen

theorem metersAt_sublist {net' : NetworkManager σ} (addr : Address)
    (h : net'.meters.Sublist net.meters) : (net'.metersAt addr).Sublist (net.metersAt addr) :=
  h.filter _

/-- No call but `poll` adds an entry of a peer, and none writes to a limiter. -/
theorem meters_step {call : Call σ} {net' : NetworkManager σ} (h : net.step T call = some net')
    (hpoll : ∀ env, call ≠ .poll env) : net'.meters.Sublist net.meters ∨
      ∃ id, net'.meters.Sublist (net.meters ++ [(localEntry id).meter]) := by
  have hsame : ∀ {n : NetworkManager σ}, n.meters = net.meters → n.meters.Sublist net.meters ∨
      ∃ id, n.meters.Sublist (net.meters ++ [(localEntry id).meter]) := by
    intro n hn
    exact .inl (by rw [hn])
  cases call with
  | poll env => exact absurd rfl (hpoll env)
  | network _ | addTransport _ | setCallbacks _ | setConnectionToken _ | setReplicationManager _
  | setRpcManager _ => cases h; exact hsame rfl
  | setTransport t =>
    cases h
    exact .inl (meters_halted (T := T) net)
  | start config udp =>
    cases h
    exact meters_start (T := T) net config udp
  | stop => cases h; exact .inl (List.nil_sublist _)
  | addLocalClient =>
    cases h
    unfold addLocalClient
    split_ifs
    · exact hsame rfl
    · refine .inr ⟨net.generateClientId, ?_⟩
      show (meters _).Sublist _
      rw [meters_tellReplication, meters_callOnConnected]
      unfold meters
      rw [List.map_append]
      exact .refl _
  | disconnectClient client =>
    cases h
    exact .inl (meters_disconnectClient net client)
  | disconnect =>
    cases h
    unfold disconnect
    split_ifs
    · exact .inl (List.nil_sublist _)
    · exact .inl (List.nil_sublist _)
    · exact .inl (meters_disconnectClient net _)
    · exact hsame rfl
  | sendToClient client data r => cases h; exact hsame (meters_sendToClient net _ _ _)
  | broadcast data r exclude => cases h; exact hsame (meters_broadcast net _ _ _)
  | send data r => cases h; exact hsame (meters_send net _ _)
  | popMessage =>
    cases h
    unfold popMessage
    split <;> exact hsame rfl
  | spawn prefabId initData handle announce => cases h; exact hsame (meters_spawnEntity net _ _ _ _)
  | destroy id announce => cases h; exact hsame (meters_destroyEntity net _ _)
  | setOwner id owner => cases h; exact hsame (meters_tellEntities net _)
  | sendFullState client => cases h; exact hsame (meters_sendFullStateToClient net _)
  | markDirty id => cases h; exact hsame rfl
  | serverTick deltaTime envs => exact hsame (meters_serverTick net h)
  | clientTick deltaTime turns => exact hsame (meters_clientTick net h)
  | invokeRpc target rpcId args => cases h; exact hsame (meters_invokeRpc net _ _ _)

end

/-! ### Packets -/

section
variable (net : NetworkManager σ)

/-- The limiter of a known sender is asked about the user message. -/
structure AsksMessage (buffer : Bytes) : Prop where
  serving : net.serving
  nonempty : buffer ≠ []
  fits : buffer.length ≤ net.config.maxPacketSize
  user : isSystem buffer = false

/-- The limiter of a known sender is asked about the RPC. -/
structure AsksRpc (buffer : Bytes) : Prop where
  serving : net.serving
  fits : buffer.length ≤ net.config.maxPacketSize
  system : isSystem buffer = true
  rpc : buffer.getD 2 0 = SysType.rpc
  attached : net.rpcManager.isSome

theorem asksMessage_iff {net : NetworkManager σ} {buffer : Bytes} : net.AsksMessage buffer ↔
    net.serving ∧ buffer ≠ [] ∧ buffer.length ≤ net.config.maxPacketSize ∧ isSystem buffer = false :=
  ⟨fun h => ⟨h.serving, h.nonempty, h.fits, h.user⟩, fun ⟨hs, hne, hfits, huser⟩ =>
    ⟨hs, hne, hfits, huser⟩⟩

theorem asksRpc_iff {net : NetworkManager σ} {buffer : Bytes} : net.AsksRpc buffer ↔
    net.serving ∧ buffer.length ≤ net.config.maxPacketSize ∧ isSystem buffer = true ∧
      buffer.getD 2 0 = SysType.rpc ∧ net.rpcManager.isSome :=
  ⟨fun h => ⟨h.serving, h.fits, h.system, h.rpc, h.attached⟩, fun ⟨hs, hfits, hsys, hrpc, hatt⟩ =>
    ⟨hs, hfits, hsys, hrpc, hatt⟩⟩

instance (buffer : Bytes) : Decidable (net.AsksMessage buffer) := decidable_of_iff' _ asksMessage_iff

instance (buffer : Bytes) : Decidable (net.AsksRpc buffer) := decidable_of_iff' _ asksRpc_iff

/-- What a packet can do to the limiters. -/
inductive MeterEffect (env : PacketEnv) (t : ℕ) (buffer : Bytes) (sender : Address) :
    List Meter → Prop
  | fewer {ms : List Meter} (h : ms.Sublist net.meters) : MeterEffect env t buffer sender ms
  | entered (h : net.serving) :
    MeterEffect env t buffer sender (net.meters ++ [(net.newEntry env t sender).meter])
  | message {entry : ClientEntry} (found : net.findClientByAddress sender = some entry)
    (asked : net.AsksMessage buffer) : MeterEffect env t buffer sender
      (upsert Meter.address ⟨sender, entry.approved,
        (entry.rateLimiter.allowMessage .ieee buffer.length env.now).1⟩ net.meters)
  | rpc {entry : ClientEntry} (found : net.findClientByAddress sender = some entry)
    (asked : net.AsksRpc buffer) : MeterEffect env t buffer sender
      (upsert Meter.address ⟨sender, entry.approved, (entry.rateLimiter.allowRpc .ieee env.now).1⟩
        net.meters)

variable {net} {env : PacketEnv} {t : ℕ} {buffer : Bytes} {sender : Address}

theorem MeterEffect.same {next : NetworkManager σ} (h : next.meters = net.meters) :
    net.MeterEffect env t buffer sender next.meters := .fewer (by rw [h])

theorem meters_setClientByAddress (entry : ClientEntry) :
    (net.setClientByAddress entry).meters = upsert Meter.address entry.meter net.meters := by
  have hkey : ∀ c : ClientEntry, c.meter.address = c.address := fun _ => rfl
  exact map_upsert hkey entry net.clients

/-- A request changes nothing, or adds the entry of its sender. -/
theorem meters_onConnectRequest (data : Bytes) :
    (net.onConnectRequest T env sender t data).meters = net.meters ∨ net.serving ∧
      (net.onConnectRequest T env sender t data).meters =
        net.meters ++ [(net.newEntry env t sender).meter] := by
  obtain ⟨calls, hcalls⟩ := net.checkApproval_called env sender data
  unfold onConnectRequest
  by_cases hs : net.serving
  · rw [if_neg (by simp [hs])]
    split
    · exact .inl rfl
    · dsimp only
      rw [hcalls]
      split_ifs
      · exact .inl rfl
      · exact .inl rfl
      · refine .inr ⟨hs, ?_⟩
        unfold admitClient
        dsimp only
        rw [meters_tellReplication, meters_callOnConnected]
        exact List.map_append
  · rw [if_pos (by simp [hs])]
    exact .inl rfl

theorem meterEffect_onConnectRequest (data : Bytes) :
    net.MeterEffect env t buffer sender (net.onConnectRequest T env sender t data).meters := by
  have hrequest : (net.onConnectRequest T env sender t data).meters = net.meters ∨ _ :=
    meters_onConnectRequest data
  rcases hrequest with hsame | ⟨hs, hentered⟩
  · exact .same hsame
  · rw [hentered]
    exact .entered hs

theorem meters_onConnectAccept (data : Bytes) : (net.onConnectAccept data).meters = net.meters := by
  unfold onConnectAccept
  split_ifs
  · rfl
  · rfl
  · dsimp only
    rw [meters_tellReplication, meters_callOnConnected]
    rfl

theorem meters_onConnectReject : (net.onConnectReject T).meters = net.meters := by
  unfold onConnectReject
  split_ifs
  · rfl
  · exact meters_disconnectTransport { net with awaitingAccept := false }

theorem meters_onDisconnectNotify :
    (net.onDisconnectNotify T sender).meters.Sublist net.meters := by
  unfold onDisconnectNotify
  split_ifs
  · split
    · exact .refl _
    · exact meters_dropClient net _
  · dsimp only
    rw [meters_tellReplication, meters_callOnDisconnected, meters_disconnectTransport]
    exact .refl _
  · exact .refl _

theorem meters_onTimeSyncRequest (data : Bytes) :
    (net.onTimeSyncRequest T env sender t data).meters = net.meters := by
  unfold onTimeSyncRequest
  split_ifs <;> rfl

theorem meters_onTimeSyncResponse (data : Bytes) :
    (net.onTimeSyncResponse env data).meters = net.meters := by
  unfold onTimeSyncResponse
  split_ifs <;> rfl

theorem meters_onDeltaState (data : Bytes) : (net.onDeltaState data).meters = net.meters := by
  unfold onDeltaState
  split <;> rfl

theorem meters_onSnapshotAck (senderId : ClientId) (data : Bytes) :
    (net.onSnapshotAck senderId data).meters = net.meters := by
  unfold onSnapshotAck
  split_ifs <;> rfl

/-- An RPC of a known client of a server charges the client's limiter. -/
theorem meters_allowRpc {entry : ClientEntry} (hs : net.serving)
    (hfind : net.findClientByAddress sender = some entry) :
    (net.allowRpc env sender).1.meters = upsert Meter.address
      ⟨sender, entry.approved, (entry.rateLimiter.allowRpc .ieee env.now).1⟩ net.meters := by
  unfold allowRpc
  rw [if_pos hs, hfind]
  dsimp only
  rw [meters_setClientByAddress, ← lookup_key hfind]
  rfl

theorem meters_onRpc {senderId : ClientId} {data : Bytes} (h : net.rpcManager.isSome) :
    (net.onRpc T env senderId sender data).meters = (net.allowRpc env sender).1.meters := by
  obtain ⟨rpc, hrpc⟩ := Option.isSome_iff_exists.mp h
  unfold onRpc
  rw [hrpc]
  dsimp only
  split_ifs <;> rfl

theorem meterEffect_onRpc (senderId : ClientId) (data : Bytes)
    (hasked : net.serving → net.rpcManager.isSome → net.AsksRpc buffer) :
    net.MeterEffect env t buffer sender (net.onRpc T env senderId sender data).meters := by
  by_cases h : net.rpcManager.isSome
  · rw [meters_onRpc h]
    by_cases hs : net.serving
    · rcases hfind : net.findClientByAddress sender with _ | entry
      · apply MeterEffect.same
        unfold allowRpc
        rw [if_pos hs, hfind]
      · rw [meters_allowRpc hs hfind]
        exact .rpc hfind (hasked hs h)
    · apply MeterEffect.same
      unfold allowRpc
      rw [if_neg hs]
  · have hnone : net.rpcManager = none := by simpa using h
    apply MeterEffect.same
    unfold onRpc
    rw [hnone]

theorem meterEffect_processSystemMessage (hfits : buffer.length ≤ net.config.maxPacketSize)
    (hsys : isSystem buffer = true) (senderId : ClientId) (data : Bytes) :
    net.MeterEffect env t buffer sender
      (net.processSystemMessage T env senderId sender t (buffer.getD 2 0) data).meters := by
  apply processSystemMessage_cases
    (P := fun next => net.MeterEffect env t buffer sender next.meters)
  case connectRequest => exact fun _ => meterEffect_onConnectRequest data
  case connectAccept => exact fun _ => .same (meters_onConnectAccept data)
  case connectReject => exact fun _ => .same meters_onConnectReject
  case disconnectNotify => exact fun _ => .fewer meters_onDisconnectNotify
  case timeSyncRequest => exact fun _ => .same (meters_onTimeSyncRequest data)
  case timeSyncResponse => exact fun _ => .same (meters_onTimeSyncResponse data)
  case entitySpawn => exact fun _ => .same (meters_tellEntities net _)
  case entityDestroy => exact fun _ => .same (meters_tellEntities net _)
  case entitySetOwner => exact fun _ => .same (meters_tellEntities net _)
  case entityFullState => exact fun _ => .same (meters_tellEntities net _)
  case deltaState => exact fun _ => .same (meters_onDeltaState data)
  case snapshotAck => exact fun _ => .same (meters_onSnapshotAck senderId data)
  case rpc =>
    exact fun htype => meterEffect_onRpc senderId data fun hs hattached =>
      ⟨hs, hfits, hsys, htype, hattached⟩
  case unknown => exact .same rfl

theorem meterEffect_onSystem (hfits : buffer.length ≤ net.config.maxPacketSize)
    (hsys : isSystem buffer = true) :
    net.MeterEffect env t buffer sender (net.onSystem T env t buffer sender).meters := by
  unfold onSystem
  dsimp only
  by_cases hs : net.serving
  · rw [if_pos hs]
    rcases net.findClientByAddress sender with _ | entry
    · dsimp only
      split_ifs
      · exact meterEffect_processSystemMessage hfits hsys _ _
      · exact .same rfl
    · exact meterEffect_processSystemMessage hfits hsys _ _
  · rw [if_neg hs]
    exact meterEffect_processSystemMessage hfits hsys _ _

theorem meters_onOversized : (net.onOversized T sender).meters.Sublist net.meters := by
  unfold onOversized
  split_ifs
  · exact .refl _
  · split
    · exact .refl _
    · split
      · exact .refl _
      · split_ifs
        · exact .refl _
        · exact meters_dropClient _ _

/-- A user message of a known client of a server charges the client's limiter. -/
theorem meters_onUser {entry : ClientEntry} (hs : net.serving)
    (hfind : net.findClientByAddress sender = some entry) :
    (net.onUser env buffer sender).meters = upsert Meter.address
      ⟨sender, entry.approved, (entry.rateLimiter.allowMessage .ieee buffer.length env.now).1⟩
      net.meters := by
  have haddr : entry.address = sender := lookup_key hfind
  unfold onUser
  rw [if_pos hs, hfind]
  dsimp only
  split_ifs
  · rw [meters_flushToCallbacks]
    exact (meters_setClientByAddress _).trans (by rw [← haddr]; rfl)
  · exact (meters_setClientByAddress _).trans (by rw [← haddr]; rfl)

theorem meterEffect_onUser (hne : buffer ≠ []) (hfits : buffer.length ≤ net.config.maxPacketSize)
    (huser : isSystem buffer = false) :
    net.MeterEffect env t buffer sender (net.onUser env buffer sender).meters := by
  by_cases hs : net.serving
  · rcases hfind : net.findClientByAddress sender with _ | entry
    · apply MeterEffect.same
      unfold onUser
      rw [if_pos hs, hfind]
    · rw [meters_onUser hs hfind]
      exact .message hfind ⟨hs, hne, hfits, huser⟩
  · apply MeterEffect.same
    unfold onUser
    rw [if_neg hs]
    split_ifs
    · exact meters_flushToCallbacks _ _ _
    · rfl

theorem meterEffect_handlePacket (env : PacketEnv) (t : ℕ) (buffer : Bytes) (sender : Address) :
    net.MeterEffect env t buffer sender (net.handlePacket T env t buffer sender).meters := by
  unfold handlePacket
  split_ifs with hne hfits hsys
  · exact .same rfl
  · exact .fewer meters_onOversized
  · exact meterEffect_onSystem (not_lt.mp hfits) hsys
  · exact meterEffect_onUser hne (not_lt.mp hfits) (by simpa using hsys)

/-- Only a packet that is admitted makes the table longer. -/
theorem admission_of_longer
    (h : net.meters.length < (net.handlePacket T env t buffer sender).meters.length) :
    net.Admission env buffer sender := by
  have he : net.PacketEffect env t buffer sender _ := packetEffect_handlePacket (T := T) env t buffer sender
  have hlen : ∀ n : NetworkManager σ, n.meters.length = n.session.clients.length := by
    intro n
    unfold meters session
    rw [List.length_map, List.length_map]
  rw [hlen, hlen] at h
  generalize (net.handlePacket T env t buffer sender).session = s at he h
  cases he with
  | keep => omega
  | enroll hadm => exact hadm
  | @drop entry _ _ _ =>
    have hle : (net.session.drop entry.id).clients.length ≤ net.session.clients.length :=
      List.length_filter_le _ _
    omega
  | accept _ _ _ _ =>
    change net.session.clients.length < net.session.clients.length at h
    omega
  | leave _ _ =>
    change net.session.clients.length < net.session.clients.length at h
    omega

end

end CampelloNet.NetworkManager
