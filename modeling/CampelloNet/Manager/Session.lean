import CampelloNet.Manager.Frame
import CampelloNet.Manager.History
import CampelloNet.Manager.Sending

/-!
# Sessions

Who is connected, under which id, and which id the manager takes for its own: the `Session` of a
manager. A packet changes it in one of four ways, `PacketEffect`, and of the application's calls only
those that start, stop, add and remove do.
-/

namespace CampelloNet.NetworkManager

open Lib Transport Crypto

variable {σ : Type}

/-! ### Sessions -/

/-- A client as its connection is known. -/
structure Connection where
  id : ClientId
  address : Address
  transport : Option ℕ
  approved : Bool
  deriving DecidableEq

def ClientEntry.toConnection (entry : ClientEntry) : Connection :=
  ⟨entry.id, entry.address, entry.transport, entry.approved⟩

/-- The client is reached through a transport. -/
def Connection.Remote (c : Connection) : Prop := c.transport.isSome

instance : DecidablePred Connection.Remote := fun c =>
  inferInstanceAs (Decidable (c.transport.isSome = true))

/-- The connection of a client without a transport. -/
def Connection.local (id : ClientId) : Connection := ⟨id, .invalid, none, true⟩

structure Session where
  mode : Mode
  config : Config
  localClientId : ClientId
  clients : List Connection

namespace Session

def enroll (c : Connection) (s : Session) : Session := { s with clients := s.clients ++ [c] }

def drop (id : ClientId) (s : Session) : Session :=
  { s with clients := s.clients.filter fun c => c.id ≠ id }

def name (id : ClientId) (s : Session) : Session := { s with localClientId := id }

def close (s : Session) : Session := { s with mode := .none, localClientId := 0, clients := [] }

/-- The session as `start` leaves it before anybody is connected. -/
def launch (config : Config) (s : Session) : Session :=
  { (if s.mode = .none then s else s.close) with mode := config.mode, config := config }

/-- A client may be given the id: there are fewer ids than the code can count, or it is a new one. -/
def Fresh (id : ClientId) (s : Session) : Prop :=
  s.clients.length + 1 < 2 ^ 64 → id ≠ 0 ∧ ∀ c ∈ s.clients, c.id ≠ id

end Session

def session (net : NetworkManager σ) : Session :=
  ⟨net.mode, net.config, net.localClientId, net.clients.map ClientEntry.toConnection⟩

section
variable {T : ℕ → ITransport σ} (net : NetworkManager σ)

theorem session_eraseClient (id : ClientId) :
    (net.eraseClient id).session = net.session.drop id := by
  unfold session eraseClient Session.drop
  simp only [Session.mk.injEq, true_and]
  rw [List.filter_map]
  rfl

theorem session_quiet {net' : NetworkManager σ} (h : Quiet T net net') :
    net'.session = net.session := by
  have hclients : net'.clients.map ClientEntry.toConnection =
      net.clients.map ClientEntry.toConnection := by
    have hconn := congrArg (List.map fun c : ClientId × Address × Option ℕ × Bool =>
      (⟨c.1, c.2.1, c.2.2.1, c.2.2.2⟩ : Connection)) h.connections
    rw [List.map_map, List.map_map] at hconn
    exact hconn
  unfold session
  rw [h.mode, h.config, h.localClientId, hclients]

theorem session_sent {net' : NetworkManager σ} (h : Sent T net net') : net'.session = net.session :=
  session_quiet net h.quiet

@[simp] theorem session_world (world : σ) : { net with world := world }.session = net.session := rfl

@[simp] theorem session_called (calls : List AppCall) : (net.called calls).session = net.session :=
  rfl

@[simp] theorem session_callOnConnected (client : ClientId) :
    (net.callOnConnected client).session = net.session := by
  unfold callOnConnected
  split_ifs <;> rfl

@[simp] theorem session_callOnDisconnected (client : ClientId) :
    (net.callOnDisconnected client).session = net.session := by
  unfold callOnDisconnected
  split_ifs <;> rfl

@[simp] theorem session_flushToCallbacks (client : ClientId) (data : Bytes) :
    (net.flushToCallbacks client data).session = net.session := by
  unfold flushToCallbacks
  split_ifs <;> rfl

@[simp] theorem session_tellReplication
    (f : NetworkReplicationManager → NetworkReplicationManager) :
    (net.tellReplication f).session = net.session := rfl

@[simp] theorem session_tellEntities
    (f : NetworkEntityManager → NetworkEntityManager × List AppCall) :
    (net.tellEntities f).session = net.session := by
  unfold tellEntities
  split <;> rfl

@[simp] theorem session_disconnectTransport :
    (net.disconnectTransport T).session = net.session := by
  unfold disconnectTransport
  split <;> rfl

@[simp] theorem session_dropClient (id : ClientId) :
    (net.dropClient id).session = net.session.drop id := by
  unfold dropClient
  rw [session_tellReplication, session_callOnDisconnected, session_eraseClient]

/-- Writing an entry over the one that was found changes what is not of the session only. -/
theorem session_setClientByAddress {entry old : ClientEntry}
    (h : net.findClientByAddress entry.address = some old)
    (hsame : entry.toConnection = old.toConnection) :
    (net.setClientByAddress entry).session = net.session := by
  unfold session setClientByAddress
  dsimp only
  rw [map_upsert_of_lookup (f := ClientEntry.toConnection) h hsame]

/-! ### Ids -/

theorem firstFreeId_cases (clients : List ClientEntry) (tries : ℕ) (id : ClientId) :
    ∃ k ≤ tries, firstFreeId clients tries id = id + .ofNat k ∧
      (lookup ClientEntry.id (firstFreeId clients tries id) clients = none ∨
        k = tries ∧ ∀ j < tries, (lookup ClientEntry.id (id + .ofNat j) clients).isSome) := by
  induction tries generalizing id with
  | zero => exact ⟨0, le_refl _, by simp [firstFreeId], .inr ⟨rfl, fun j hj => by omega⟩⟩
  | succ tries ih =>
    rw [firstFreeId]
    split_ifs with hused
    · obtain ⟨k, hk, heq, h⟩ := ih (id + 1)
      have hshift : ∀ j, id + 1 + UInt64.ofNat j = id + UInt64.ofNat (j + 1) := by
        intro j
        rw [UInt64.ofNat_add, UInt64.add_assoc, UInt64.add_comm 1]
        rfl
      refine ⟨k + 1, by omega, by rw [heq, hshift], h.imp_right ?_⟩
      rintro ⟨rfl, hall⟩
      refine ⟨rfl, fun j hj => ?_⟩
      rcases j with _ | j
      · simpa using hused
      · rw [← hshift]
        exact hall j (by omega)
    · exact ⟨0, Nat.zero_le _, by simp, .inl (by simpa using hused)⟩

theorem ofNat_inj {i j : ℕ} (hi : i < 2 ^ 64) (hj : j < 2 ^ 64)
    (h : (1 : UInt64) + .ofNat i = 1 + .ofNat j) : i = j := by
  have hij : UInt64.ofNat i = .ofNat j := (UInt64.add_right_inj 1).mp h
  have hval := congrArg UInt64.toNat hij
  rwa [UInt64.toNat_ofNat_of_lt' hi, UInt64.toNat_ofNat_of_lt' hj] at hval

/-- More ids are tried than there are clients. -/
theorem fresh_generateClientId : net.session.Fresh net.generateClientId := by
  intro hlen
  change (net.clients.map ClientEntry.toConnection).length + 1 < 2 ^ 64 at hlen
  rw [List.length_map] at hlen
  obtain ⟨k, hk, heq, h⟩ := firstFreeId_cases net.clients net.clients.length 1
  have hfree : lookup ClientEntry.id net.generateClientId net.clients = none := by
    rcases h with h | ⟨rfl, hall⟩
    · exact h
    · by_contra hused
      have hsome : ∀ j ∈ List.range (net.clients.length + 1),
          (lookup ClientEntry.id (1 + .ofNat j) net.clients).isSome := by
        intro j hj
        rw [List.mem_range] at hj
        rcases Nat.lt_succ_iff_lt_or_eq.mp hj with hj | rfl
        · exact hall j hj
        · rw [← heq]
          exact Option.ne_none_iff_isSome.mp hused
      have hsub : (List.range (net.clients.length + 1)).map (fun j => (1 : UInt64) + .ofNat j) ⊆
          net.clients.map ClientEntry.id := by
        intro id hid
        obtain ⟨j, hj, rfl⟩ := List.mem_map.mp hid
        obtain ⟨entry, hentry⟩ := Option.isSome_iff_exists.mp (hsome j hj)
        rw [← lookup_key hentry]
        exact List.mem_map_of_mem (lookup_mem hentry)
      have hnodup : ((List.range (net.clients.length + 1)).map
          fun j => (1 : UInt64) + .ofNat j).Nodup := by
        refine List.Nodup.map_on (fun i hi j hj h => ?_) List.nodup_range
        rw [List.mem_range] at hi hj
        exact ofNat_inj (by omega) (by omega) h
      have hle := (List.subperm_of_subset hnodup hsub).length_le
      rw [List.length_map, List.length_map, List.length_range] at hle
      omega
  refine ⟨fun hzero => ?_, fun c hc hid => ?_⟩
  · have hval := congrArg UInt64.toNat (heq.symm.trans hzero)
    rw [UInt64.toNat_add, UInt64.toNat_ofNat_of_lt' (show k < UInt64.size by
      unfold UInt64.size
      omega)] at hval
    change (1 + k) % 2 ^ 64 = 0 at hval
    rw [Nat.mod_eq_of_lt (by omega)] at hval
    omega
  · obtain ⟨entry, hentry, rfl⟩ := List.mem_map.mp hc
    have hnone := List.find?_eq_none.mp hfree entry hentry
    exact hnone (decide_eq_true hid)

/-! ### Packets -/

/-- What a connect request must pass, as the packet is found in the state that handles it. -/
structure Admission (env : PacketEnv) (buffer : Bytes) (sender : Address) : Prop where
  serving : net.serving
  fits : buffer.length ≤ net.config.maxPacketSize
  system : isSystem buffer
  request : buffer.getD 2 0 = SysType.connectRequest
  unknown : (net.findClientByAddress sender).filter ClientEntry.approved = none
  token : (net.checkToken env (buffer.drop 3)).1
  approval : net.callbacks.onApproval → env.approve
  room : net.clientCount < net.config.maxClients

/-- The connection that an admitted request opens. -/
def openedBy (t : ℕ) (sender : Address) : Connection :=
  ⟨net.generateClientId, sender, some t, true⟩

/-- The packet is a system message of the given type that is looked at. -/
def SystemMessage (type : UInt8) (buffer : Bytes) : Prop :=
  buffer.length ≤ net.config.maxPacketSize ∧ isSystem buffer ∧ buffer.getD 2 0 = type

/-- The ways in which a packet changes the session. -/
inductive PacketEffect (env : PacketEnv) (t : ℕ) (buffer : Bytes) (sender : Address) :
    Session → Prop
  | keep : PacketEffect env t buffer sender net.session
  | enroll (h : net.Admission env buffer sender) :
    PacketEffect env t buffer sender (net.session.enroll (net.openedBy t sender))
  | drop {entry : ClientEntry} (serving : net.serving)
    (found : net.findClientByAddress sender = some entry)
    (reason : net.SystemMessage SysType.disconnectNotify buffer ∨ entry.id ≠ net.localClientId) :
    PacketEffect env t buffer sender (net.session.drop entry.id)
  | accept (joining : net.joining) (message : net.SystemMessage SysType.connectAccept buffer)
    (length : 8 ≤ (buffer.drop 3).length)
    (known : net.serving → (net.findClientByAddress sender).isSome) :
    PacketEffect env t buffer sender (net.session.name (readBe64 (buffer.drop 3)))
  | leave (mode : net.mode = .client)
    (message : net.SystemMessage SysType.disconnectNotify buffer) :
    PacketEffect env t buffer sender (net.session.name 0)

theorem checkApproval_called (env : PacketEnv) (sender : Address) (data : Bytes) :
    ∃ calls, (net.checkApproval env sender data).1 = net.called calls := by
  unfold checkApproval
  dsimp only
  split_ifs
  · exact ⟨_, rfl⟩
  · exact ⟨[], by unfold called; rw [List.append_nil]⟩

theorem checkApproval_approved {env : PacketEnv} {sender : Address} {data : Bytes}
    (h : (net.checkApproval env sender data).2) :
    (net.checkToken env data).1 ∧ (net.callbacks.onApproval → env.approve) := by
  unfold checkApproval at h
  dsimp only at h
  split_ifs at h with happ
  · simp only [Bool.and_eq_true] at happ
    exact ⟨happ.1, fun _ => h⟩
  · refine ⟨h, fun hasked => ?_⟩
    have : (net.checkToken env data).1 = true := h
    simp [this, hasked] at happ

theorem session_rejectClient (t : ℕ) (sender : Address) (reason : Bytes) :
    (net.rejectClient T t sender reason).session = net.session := rfl

theorem session_admitClient (entry : ClientEntry) (t : ℕ) :
    (net.admitClient T entry t).session = net.session.enroll entry.toConnection := by
  unfold admitClient
  dsimp only
  rw [session_tellReplication, session_callOnConnected]
  show Session.mk _ _ _ ((net.clients ++ [entry]).map ClientEntry.toConnection) = _
  rw [List.map_append]
  rfl

theorem world_admitClient (entry : ClientEntry) (t : ℕ) :
    (net.admitClient T entry t).world = ((T t).sendTo entry.address
      (sysPacket SysType.connectAccept (be64 entry.id)) .reliableOrdered net.world).1 := by
  unfold admitClient callOnConnected
  dsimp only
  split_ifs <;> rfl

variable {net}

theorem packetEffect_onConnectRequest {env : PacketEnv} {t : ℕ} {buffer : Bytes} {sender : Address}
    (hmsg : net.SystemMessage SysType.connectRequest buffer) :
    net.PacketEffect env t buffer sender
      (net.onConnectRequest T env sender t (buffer.drop 3)).session := by
  unfold onConnectRequest
  by_cases hs : net.serving
  · rw [if_neg (by simp [hs])]
    rcases hfind : (net.findClientByAddress sender).filter ClientEntry.approved with _ | existing
    · dsimp only
      by_cases happ : (net.checkApproval env sender (buffer.drop 3)).2
      · rw [if_neg (by simp [happ])]
        obtain ⟨htoken, hasked⟩ := net.checkApproval_approved happ
        obtain ⟨calls, hcalls⟩ := net.checkApproval_called env sender (buffer.drop 3)
        rw [hcalls]
        by_cases hroom : net.clientCount ≥ net.config.maxClients
        · rw [if_pos (show (net.called calls).clientCount ≥ (net.called calls).config.maxClients from
            hroom)]
          exact .keep
        · rw [if_neg (show ¬(net.called calls).clientCount ≥ (net.called calls).config.maxClients from
            hroom), session_admitClient]
          exact .enroll ⟨hs, hmsg.1, hmsg.2.1, hmsg.2.2, hfind, htoken, hasked, not_le.mp hroom⟩
      · obtain ⟨calls, hcalls⟩ := net.checkApproval_called env sender (buffer.drop 3)
        rw [if_pos (by simp [happ]), session_rejectClient, hcalls]
        exact .keep
    · exact .keep
  · rw [if_pos (by simp [hs])]
    exact .keep

theorem packetEffect_onConnectAccept {env : PacketEnv} {t : ℕ} {buffer : Bytes} {sender : Address}
    (hmsg : net.SystemMessage SysType.connectAccept buffer)
    (hknown : net.serving → (net.findClientByAddress sender).isSome) :
    net.PacketEffect env t buffer sender (net.onConnectAccept (buffer.drop 3)).session := by
  unfold onConnectAccept
  split_ifs with hj hlen
  · exact .keep
  · exact .keep
  · dsimp only
    rw [session_tellReplication, session_callOnConnected]
    exact .accept (by simpa using hj) hmsg (not_lt.mp hlen) hknown

theorem session_onConnectReject : (net.onConnectReject T).session = net.session := by
  unfold onConnectReject
  split_ifs
  · rfl
  · exact session_disconnectTransport { net with awaitingAccept := false }

theorem packetEffect_onDisconnectNotify {env : PacketEnv} {t : ℕ} {buffer : Bytes}
    {sender : Address} (hmsg : net.SystemMessage SysType.disconnectNotify buffer) :
    net.PacketEffect env t buffer sender (net.onDisconnectNotify T sender).session := by
  unfold onDisconnectNotify
  split_ifs with hs hmode
  · split
    · exact .keep
    · rename_i entry hfind
      rw [session_dropClient]
      exact .drop hs hfind (.inl hmsg)
  · dsimp only
    rw [session_tellReplication, session_callOnDisconnected, session_disconnectTransport]
    exact .leave hmode hmsg
  · exact .keep

theorem session_onTimeSyncRequest (env : PacketEnv) (sender : Address) (t : ℕ) (data : Bytes) :
    (net.onTimeSyncRequest T env sender t data).session = net.session := by
  unfold onTimeSyncRequest
  split_ifs <;> rfl

theorem session_onTimeSyncResponse (env : PacketEnv) (data : Bytes) :
    (net.onTimeSyncResponse env data).session = net.session := by
  unfold onTimeSyncResponse
  split_ifs <;> rfl

theorem session_onDeltaState (data : Bytes) : (net.onDeltaState data).session = net.session := by
  unfold onDeltaState
  split <;> rfl

theorem session_onSnapshotAck (senderId : ClientId) (data : Bytes) :
    (net.onSnapshotAck senderId data).session = net.session := by
  unfold onSnapshotAck
  split_ifs <;> rfl

theorem session_allowRpc (env : PacketEnv) (sender : Address) :
    (net.allowRpc env sender).1.session = net.session := by
  unfold allowRpc
  split_ifs
  · split
    · rfl
    · rename_i entry hfind
      have haddr : entry.address = sender := lookup_key hfind
      apply session_setClientByAddress
      · rw [haddr]
        exact hfind
      · rfl
  · rfl

theorem session_onRpc (env : PacketEnv) (senderId : ClientId) (sender : Address) (data : Bytes) :
    (net.onRpc T env senderId sender data).session = net.session := by
  have hallow : (net.allowRpc env sender).1.session = net.session := session_allowRpc env sender
  unfold onRpc
  split
  · rfl
  · dsimp only
    split_ifs
    · exact hallow
    · exact hallow

theorem packetEffect_processSystemMessage {env : PacketEnv} {t : ℕ} {buffer : Bytes}
    {sender : Address} {senderId : ClientId} (hfits : buffer.length ≤ net.config.maxPacketSize)
    (hsys : isSystem buffer)
    (hknown : net.serving → buffer.getD 2 0 ≠ SysType.connectRequest →
      (net.findClientByAddress sender).isSome) :
    net.PacketEffect env t buffer sender
      (net.processSystemMessage T env senderId sender t (buffer.getD 2 0) (buffer.drop 3)).session := by
  have hkeep : ∀ {next : NetworkManager σ}, next.session = net.session →
      net.PacketEffect env t buffer sender next.session := by
    intro next h
    rw [h]
    exact .keep
  apply processSystemMessage_cases (P := fun next => net.PacketEffect env t buffer sender next.session)
  case connectRequest => exact fun h => packetEffect_onConnectRequest ⟨hfits, hsys, h⟩
  case connectAccept =>
    intro h
    exact packetEffect_onConnectAccept ⟨hfits, hsys, h⟩ fun hs => hknown hs (by rw [h]; decide)
  case connectReject => exact fun _ => hkeep session_onConnectReject
  case disconnectNotify => exact fun h => packetEffect_onDisconnectNotify ⟨hfits, hsys, h⟩
  case timeSyncRequest => exact fun _ => hkeep (session_onTimeSyncRequest env sender t _)
  case timeSyncResponse => exact fun _ => hkeep (session_onTimeSyncResponse env _)
  case entitySpawn => exact fun _ => hkeep (session_tellEntities net _)
  case entityDestroy => exact fun _ => hkeep (session_tellEntities net _)
  case entitySetOwner => exact fun _ => hkeep (session_tellEntities net _)
  case entityFullState => exact fun _ => hkeep (session_tellEntities net _)
  case deltaState => exact fun _ => hkeep (session_onDeltaState _)
  case snapshotAck => exact fun _ => hkeep (session_onSnapshotAck senderId _)
  case rpc => exact fun _ => hkeep (session_onRpc env senderId sender _)
  case unknown => exact .keep

theorem packetEffect_onSystem {env : PacketEnv} {t : ℕ} {buffer : Bytes} {sender : Address}
    (hfits : buffer.length ≤ net.config.maxPacketSize) (hsys : isSystem buffer) :
    net.PacketEffect env t buffer sender (net.onSystem T env t buffer sender).session := by
  unfold onSystem
  dsimp only
  by_cases hs : net.serving
  · rw [if_pos hs]
    rcases hfind : net.findClientByAddress sender with _ | entry
    · dsimp only
      split_ifs with htype
      · exact packetEffect_processSystemMessage hfits hsys fun _ h => absurd htype h
      · exact .keep
    · exact packetEffect_processSystemMessage hfits hsys fun _ _ => by rw [hfind]; rfl
  · rw [if_neg hs]
    exact packetEffect_processSystemMessage hfits hsys fun h => absurd h hs

theorem packetEffect_onOversized {env : PacketEnv} {t : ℕ} {buffer : Bytes} {sender : Address} :
    net.PacketEffect env t buffer sender (net.onOversized T sender).session := by
  unfold onOversized
  by_cases hs : net.serving
  · rw [if_neg (by simp [hs])]
    rcases hfind : net.findClientByAddress sender with _ | entry
    · exact .keep
    · dsimp only
      split
      · exact .keep
      · split_ifs with hlocal
        · exact .keep
        · rw [session_dropClient]
          exact .drop hs hfind (.inr hlocal)
  · rw [if_pos (by simp [hs])]
    exact .keep

theorem session_onUser (env : PacketEnv) (buffer : Bytes) (sender : Address) :
    (net.onUser env buffer sender).session = net.session := by
  unfold onUser
  split_ifs
  · split
    · rfl
    · rename_i entry hfind
      have haddr : entry.address = sender := lookup_key hfind
      have hself : net.findClientByAddress entry.address = some entry := by
        rw [haddr]
        exact hfind
      dsimp only
      split_ifs
      · rw [session_flushToCallbacks]
        exact net.session_setClientByAddress hself rfl
      · exact net.session_setClientByAddress hself rfl
  · exact session_flushToCallbacks _ _ _
  · rfl

/-- What one packet can do to the session. -/
theorem packetEffect_handlePacket (env : PacketEnv) (t : ℕ) (buffer : Bytes) (sender : Address) :
    net.PacketEffect env t buffer sender (net.handlePacket T env t buffer sender).session := by
  unfold handlePacket
  split_ifs with hne hfits hsys
  · exact .keep
  · exact packetEffect_onOversized
  · exact packetEffect_onSystem (not_lt.mp hfits) hsys
  · rw [session_onUser]
    exact .keep

/-! ### Calls -/

/-- The call may end the session or begin another. -/
def Call.Ends : Call σ → Prop
  | .setTransport _ | .start _ _ | .stop | .disconnect => True
  | _ => False

/-- The ways in which a call of the application changes the session, polls apart. -/
inductive CallEffect (net : NetworkManager σ) : Call σ → Session → Prop
  | keep {call : Call σ} : CallEffect net call net.session
  | close {call : Call σ} (ends : call.Ends) : CallEffect net call net.session.close
  | fail {config : Config} {udp : ℕ} :
    CallEffect net (.start config udp) { net.session.launch config with mode := .none }
  | launch {config : Config} {udp : ℕ} :
    CallEffect net (.start config udp) (net.session.launch config)
  | host {config : Config} {udp : ℕ} {id : ClientId} (mode : config.mode = .host)
    (fresh : (net.session.launch config).Fresh id) :
    CallEffect net (.start config udp) (((net.session.launch config).name id).enroll (.local id))
  | addLocal {id : ClientId} (serving : net.serving) (fresh : net.session.Fresh id) :
    CallEffect net .addLocalClient (net.session.enroll (.local id))
  | leave {call : Call σ} (own : call.Ends ∨ call = .disconnectClient net.localClientId) :
    CallEffect net call ((net.session.name 0).drop net.localClientId)
  | drop {client : ClientId} (other : client ≠ net.localClientId) :
    CallEffect net (.disconnectClient client) (net.session.drop client)

theorem session_stop : (net.stop T).session = net.session.close := by
  have hsame : ∀ n : NetworkManager σ, n.config = net.config →
      (Session.mk .none n.config 0 [] : Session) = net.session.close := by
    intro n hn
    rw [hn]
    rfl
  unfold stop
  dsimp only
  split_ifs
  · apply hsame
    refine List.foldlRecOn (motive := fun n : NetworkManager σ => n.config = net.config) net.clients _ rfl ?_
    intro n hn c _
    split
    · exact hn
    · split_ifs <;> exact hn
  · exact hsame _ (sent_transmit net _ _).config
  · rfl

theorem callEffect_setTransport (t : Option ℕ) :
    net.CallEffect (.setTransport t) (net.setTransport T t).session := by
  unfold setTransport
  split_ifs
  · exact .keep
  · have hstop : ({ net.stop T with transport := t } : NetworkManager σ).session =
      net.session.close := session_stop
    rw [hstop]
    exact .close trivial

theorem session_openTransport (t : ℕ) : (net.openTransport T t).1.session = net.session := rfl

theorem session_launch : (net.launch T).session = net.session ∨ net.mode = .host ∧
    (net.launch T).session =
      (net.session.name net.generateClientId).enroll (.local net.generateClientId) := by
  unfold launch
  split_ifs with hclient hhost
  · exact .inl (session_sent _ (sent_sendConnectRequest _))
  · refine .inr ⟨hhost, ?_⟩
    dsimp only
    rw [session_callOnConnected]
    unfold session
    rw [List.map_append]
    rfl
  · exact .inl rfl

theorem callEffect_start (config : Config) (udp : ℕ) :
    net.CallEffect (.start config udp) (net.start T config udp).1.session := by
  have hstop : (if net.mode = .none then net else net.stop T).session =
      if net.session.mode = .none then net.session else net.session.close := by
    change _ = if net.mode = .none then _ else _
    split_ifs
    · rfl
    · exact session_stop
  unfold start
  dsimp only
  generalize (if net.mode = .none then net else net.stop T) = stopped at hstop
  have hopen : (openTransport T (stopped.transport.getD udp)
      { stopped with
        config := config, mode := config.mode
        transport := some (stopped.transport.getD udp) }).1.session = net.session.launch config := by
    rw [session_openTransport]
    unfold Session.launch
    rw [← hstop]
    rfl
  generalize openTransport T (stopped.transport.getD udp) _ = opened at hopen
  split_ifs
  · rcases session_launch (T := T) with hsame | ⟨hhost, hnew⟩
    · rw [hsame, hopen]
      exact .launch
    · rw [hnew]
      have hmode : config.mode = .host := (congrArg Session.mode hopen).symm.trans hhost
      have hfresh := opened.1.fresh_generateClientId
      rw [hopen] at hfresh ⊢
      exact .host hmode hfresh
  · have hfail : ({ opened.1 with mode := .none, transport := none } : NetworkManager σ).session =
        { net.session.launch config with mode := .none } := by
      rw [← hopen]
      rfl
    rw [hfail]
    exact .fail

theorem callEffect_addLocalClient : net.CallEffect .addLocalClient net.addLocalClient.1.session := by
  unfold addLocalClient
  split_ifs with hs
  · exact .keep
  · dsimp only
    rw [session_tellReplication, session_callOnConnected]
    have henroll : ({ net with clients := net.clients ++ [localEntry net.generateClientId] } :
        NetworkManager σ).session = net.session.enroll (.local net.generateClientId) := by
      unfold session
      rw [List.map_append]
      rfl
    rw [henroll]
    exact .addLocal (by simpa using hs) net.fresh_generateClientId

theorem callEffect_disconnectClient {call : Call σ} {client : ClientId}
    (hown : client = net.localClientId →
      call.Ends ∨ call = .disconnectClient net.localClientId)
    (hother : client ≠ net.localClientId → call = .disconnectClient client) :
    net.CallEffect call (net.disconnectClient T client).session := by
  unfold disconnectClient
  by_cases hs : net.serving
  · rw [if_neg (by simp [hs])]
    rcases hfind : net.findClientById client with _ | entry
    · exact .keep
    · dsimp only
      rw [session_dropClient]
      split_ifs with hlocal
      · subst hlocal
        exact .leave (hown rfl)
      · have hdrop : net.CallEffect call (net.session.drop client) := by
          rw [hother hlocal]
          exact .drop hlocal
        split
        · exact hdrop
        · exact hdrop
  · rw [if_pos (by simp [hs])]
    exact .keep

theorem callEffect_disconnect :
    net.CallEffect (.disconnect : Call σ) (net.disconnect T).session := by
  unfold disconnect
  split_ifs
  · rw [session_stop, session_sent _ (sent_transmit net _ _)]
    exact .close trivial
  · rw [session_stop]
    exact .close trivial
  · exact callEffect_disconnectClient (fun _ => .inl trivial) fun h => absurd rfl h
  · exact .keep

theorem session_finishPoll (env : PollEnv) : (net.finishPoll T env).session = net.session := by
  have hsync := session_sent net (sent_pollClientTimeSync (T := T) net env)
  have hstats : ({ net.pollClientTimeSync T env with
      clients := (net.pollClientTimeSync T env).clients.map (updateStats env.now) } :
        NetworkManager σ).session = net.session := by
    rw [← hsync]
    unfold session
    rw [List.map_map]
    congr 1
    apply List.map_congr_left
    intro c _
    show (updateStats env.now c).toConnection = _
    unfold updateStats
    split_ifs <;> rfl
  unfold finishPoll
  dsimp only
  split_ifs
  · exact (session_sent _ (sent_sendConnectRequest _)).trans hstats
  · exact (session_sent _ (sent_sendConnectRequest _)).trans hstats
  · exact hstats
  · exact hstats

/-- What one call can do to the session. -/
theorem callEffect_step {call : Call σ} {net' : NetworkManager σ} (h : net.step T call = some net')
    (hpoll : ∀ env, call ≠ .poll env) : net.CallEffect call net'.session := by
  by_cases hplain : call.Plain
  · rw [session_quiet net (quiet_step net hplain h)]
    exact .keep
  · cases call with
    | poll env => exact absurd rfl (hpoll env)
    | network world => cases h; exact .keep
    | setTransport t => cases h; exact callEffect_setTransport t
    | addTransport t => cases h; exact .keep
    | start config udp => cases h; exact callEffect_start config udp
    | stop => cases h; exact session_stop (T := T) ▸ .close trivial
    | addLocalClient => cases h; exact callEffect_addLocalClient
    | disconnectClient client =>
      cases h
      exact callEffect_disconnectClient (fun hown => .inr (congrArg _ hown)) fun _ => rfl
    | disconnect => cases h; exact callEffect_disconnect
    | _ => exact absurd trivial hplain

end

end CampelloNet.NetworkManager
