import CampelloNet.Lib.Attendance
import CampelloNet.Manager.RpcAuthority
import CampelloNet.Replication.Server

/-!
# Who is told of the clients

The game is told who comes and goes by two callbacks, the replication manager by two calls of its
own. The `Roster` of a manager is its session with what both have been told; what a packet and a call
do to it is said once, by `PacketRoster` and `CallRoster`.
-/

namespace CampelloNet

open Lib Transport

namespace AppCall

/-- The connection callbacks, as visits. -/
def visit? : AppCall → Option (Visit ClientId)
  | onConnected client => some (.enter client)
  | onDisconnected client => some (.leave client)
  | _ => none

theorem visit?_of_kind {c : AppCall} (h : c.kind ≠ .notice) : c.visit? = none := by
  cases c with
  | onConnected client => exact absurd rfl h
  | onDisconnected client => exact absurd rfl h
  | _ => rfl

end AppCall

/-- A packet of an RPC calls handlers and nobody else. -/
theorem RpcManager.onReceive_visit? {env : ReceiveEnv} {sender : ClientId} {data : Bytes}
    {rpc : RpcManager} {c : AppCall} (hc : c ∈ (rpc.onReceive env sender data).2) :
    c.visit? = none := by
  by_cases h : rpc.Accepts env.now sender data
  · rw [onReceive_accepted h] at hc
    rw [List.mem_singleton.mp hc]
    rfl
  · rw [onReceive_rejected h] at hc
    cases hc

namespace NetworkReplicationManager

open Replication

/-- The clients it has a state for. -/
def trackedIds (rep : NetworkReplicationManager) : List ClientId := rep.clientStates.map Prod.fst

/-- The keys of a table with an entry for the client. -/
def noteId (id : ClientId) (ids : List ClientId) : List ClientId :=
  if id ∈ ids then ids else ids ++ [id]

theorem mem_noteId {id i : ClientId} {ids : List ClientId} : i ∈ noteId id ids ↔ i ∈ ids ∨ i = id := by
  unfold noteId
  split_ifs with hin
  · exact ⟨.inl, fun h => h.elim (fun h => h) fun h => h ▸ hin⟩
  · simp

theorem trackedIds_setClientState (id : ClientId) (state : ClientReplicationState)
    (rep : NetworkReplicationManager) :
    (rep.setClientState id state).trackedIds = noteId id rep.trackedIds := map_key_upsert _ _

theorem trackedIds_onClientConnected (id : ClientId) (rep : NetworkReplicationManager) :
    (rep.onClientConnected id).trackedIds = noteId id rep.trackedIds :=
  trackedIds_setClientState id _ rep

theorem trackedIds_onSnapshotAck (id : ClientId) (snapshotId : UInt16)
    (rep : NetworkReplicationManager) :
    (rep.onSnapshotAck id snapshotId).trackedIds = noteId id rep.trackedIds :=
  trackedIds_setClientState id _ rep

theorem trackedIds_onClientDisconnected (id : ClientId) (rep : NetworkReplicationManager) :
    (rep.onClientDisconnected id).trackedIds = rep.trackedIds.filter fun i => i ≠ id := by
  unfold trackedIds onClientDisconnected
  rw [List.filter_map]
  rfl

theorem trackedIds_onReceiveDelta (data : Bytes) (rep : NetworkReplicationManager) :
    (rep.onReceiveDelta data).1.trackedIds = rep.trackedIds := by
  unfold onReceiveDelta applyDelta
  split_ifs <;> rfl

theorem trackedIds_serverTickLoop {envs : List TickEnv} {rep : NetworkReplicationManager}
    {out : NetworkReplicationManager × List (ClientId × Bytes)}
    (h : rep.serverTickLoop envs = some out) : out.1.trackedIds = rep.trackedIds := by
  induction envs generalizing rep out with
  | nil =>
    unfold serverTickLoop at h
    split_ifs at h
    cases h
    rfl
  | cons env envs ih =>
    unfold serverTickLoop at h
    split_ifs at h
    · obtain ⟨out', hout', rfl⟩ := Option.map_eq_some_iff.mp h
      exact (ih hout').trans (map_fst_buildAndSendSnapshot env _)
    · cases h
      rfl

theorem trackedIds_serverTick {deltaTime : ℚ} {envs : List TickEnv}
    {rep : NetworkReplicationManager} {out : NetworkReplicationManager × List (ClientId × Bytes)}
    (h : rep.serverTick deltaTime envs = some out) : out.1.trackedIds = rep.trackedIds := by
  unfold serverTick at h
  split_ifs at h
  · have hsame := trackedIds_serverTickLoop h
    exact hsame
  · cases h
    rfl

theorem trackedIds_clientTickLoop {turns : ℕ} {rep : NetworkReplicationManager}
    {out : NetworkReplicationManager × List Bytes}
    (h : clientTickLoop turns rep = some out) : out.1.trackedIds = rep.trackedIds := by
  induction turns generalizing rep out with
  | zero =>
    unfold clientTickLoop at h
    split_ifs at h
    cases h
    rfl
  | succ turns ih =>
    unfold clientTickLoop at h
    split at h
    · obtain ⟨out', hout', rfl⟩ := Option.map_eq_some_iff.mp h
      have hsame := ih hout'
      exact hsame
    · cases h
      rfl

end NetworkReplicationManager

namespace NetworkManager

open NetworkReplicationManager (noteId)

variable {σ : Type}

/-! ### Rosters -/

structure Roster where
  session : Session
  callbacks : Callbacks
  visits : List (Visit ClientId)
  tracked : Option (List ClientId)

namespace Roster

def move (f : Session → Session) (r : Roster) : Roster := { r with session := f r.session }

def connected (id : ClientId) (r : Roster) : Roster :=
  { r with visits := if r.callbacks.onConnected then r.visits ++ [.enter id] else r.visits }

def disconnected (id : ClientId) (r : Roster) : Roster :=
  { r with visits := if r.callbacks.onDisconnected then r.visits ++ [.leave id] else r.visits }

def note (id : ClientId) (r : Roster) : Roster := { r with tracked := r.tracked.map (noteId id) }

def forget (id : ClientId) (r : Roster) : Roster :=
  { r with tracked := r.tracked.map fun ids => ids.filter fun i => i ≠ id }

/-- The client enters the table and everybody is told. -/
def enter (c : Connection) (r : Roster) : Roster :=
  ((r.move (Session.enroll c)).connected c.id).note c.id

/-- The client leaves the table and everybody is told. -/
def leave (id : ClientId) (r : Roster) : Roster :=
  ((r.move (Session.drop id)).disconnected id).forget id

end Roster

/-- The connection callbacks that have been called. -/
def visits (net : NetworkManager σ) : List (Visit ClientId) := net.calls.filterMap AppCall.visit?

/-- The clients of the attached replication manager. -/
def tracked (net : NetworkManager σ) : Option (List ClientId) :=
  net.replicationManager.map NetworkReplicationManager.trackedIds

def roster (net : NetworkManager σ) : Roster := ⟨net.session, net.callbacks, net.visits, net.tracked⟩

section
variable {T : ℕ → ITransport σ} (net : NetworkManager σ)

theorem roster_called {calls : List AppCall} (h : ∀ c ∈ calls, c.visit? = none) :
    (net.called calls).roster = net.roster := by
  have hnil : calls.filterMap AppCall.visit? = [] := List.filterMap_eq_nil_iff.mpr h
  unfold roster visits
  rw [session_called]
  unfold called
  rw [List.filterMap_append, hnil, List.append_nil]
  rfl

theorem roster_sent {net' : NetworkManager σ} (h : Sent T net net') : net'.roster = net.roster := by
  obtain ⟨calls, hcalls, hall⟩ := h.calls
  have hnil : calls.filterMap AppCall.visit? = [] := by
    apply List.filterMap_eq_nil_iff.mpr
    intro c hc
    apply AppCall.visit?_of_kind
    rw [hall c hc]
    decide
  unfold roster visits tracked
  rw [session_sent net h, h.callbacks, h.replicationManager, hcalls, List.filterMap_append, hnil,
    List.append_nil]

@[simp] theorem roster_world (world : σ) : { net with world := world }.roster = net.roster := rfl

@[simp] theorem roster_callOnConnected (id : ClientId) :
    (net.callOnConnected id).roster = net.roster.connected id := by
  unfold callOnConnected Roster.connected
  show _ = { net.roster with
    visits := if net.callbacks.onConnected then net.visits ++ [Visit.enter id] else net.visits }
  split_ifs
  · unfold roster visits
    rw [session_called]
    unfold called
    rw [List.filterMap_append]
    rfl
  · rfl

@[simp] theorem roster_callOnDisconnected (id : ClientId) :
    (net.callOnDisconnected id).roster = net.roster.disconnected id := by
  unfold callOnDisconnected Roster.disconnected
  show _ = { net.roster with
    visits := if net.callbacks.onDisconnected then net.visits ++ [Visit.leave id] else net.visits }
  split_ifs
  · unfold roster visits
    rw [session_called]
    unfold called
    rw [List.filterMap_append]
    rfl
  · rfl

theorem roster_tellReplication {f : NetworkReplicationManager → NetworkReplicationManager}
    {g : List ClientId → List ClientId} (h : ∀ rep, (f rep).trackedIds = g rep.trackedIds) :
    (net.tellReplication f).roster = { net.roster with tracked := net.tracked.map g } := by
  have htracked : (net.tellReplication f).tracked = net.tracked.map g := by
    unfold tracked tellReplication
    dsimp only
    rw [Option.map_map, Option.map_map]
    congr 1
    exact funext h
  unfold roster
  rw [session_tellReplication, htracked]
  rfl

@[simp] theorem roster_tellConnected (id : ClientId) :
    (net.tellReplication (.onClientConnected id)).roster = net.roster.note id :=
  roster_tellReplication net (NetworkReplicationManager.trackedIds_onClientConnected id)

@[simp] theorem roster_tellDisconnected (id : ClientId) :
    (net.tellReplication (.onClientDisconnected id)).roster = net.roster.forget id :=
  roster_tellReplication net (NetworkReplicationManager.trackedIds_onClientDisconnected id)

theorem roster_tellSame {f : NetworkReplicationManager → NetworkReplicationManager}
    (h : ∀ rep, (f rep).trackedIds = rep.trackedIds) :
    (net.tellReplication f).roster = net.roster := by
  rw [roster_tellReplication net (g := id) h, Option.map_id]
  rfl

theorem roster_tellEntities {f : NetworkEntityManager → NetworkEntityManager × List AppCall}
    (hf : ∀ em, ∀ c ∈ (f em).2, AppCall.visit? c = none) :
    (net.tellEntities f).roster = net.roster := by
  unfold tellEntities
  split
  · rfl
  · rename_i em _
    exact roster_called { net with entityManager := some (f em).1 } (hf em)

theorem roster_lifecycle {f : NetworkEntityManager → NetworkEntityManager × List AppCall}
    (hf : ∀ em, ∀ c ∈ (f em).2, AppCall.kind c = .lifecycle) :
    (net.tellEntities f).roster = net.roster := by
  apply roster_tellEntities
  intro em c hc
  apply AppCall.visit?_of_kind
  rw [hf em c hc]
  decide

@[simp] theorem roster_disconnectTransport :
    (net.disconnectTransport T).roster = net.roster := by
  unfold disconnectTransport
  split <;> rfl

theorem roster_setClientByAddress {entry old : ClientEntry}
    (h : net.findClientByAddress entry.address = some old)
    (hsame : entry.toConnection = old.toConnection) :
    (net.setClientByAddress entry).roster = net.roster := by
  unfold roster
  rw [session_setClientByAddress net h hsame]
  rfl

theorem roster_dropClient (id : ClientId) : (net.dropClient id).roster = net.roster.leave id := by
  have herase : (net.eraseClient id).roster = net.roster.move (Session.drop id) := by
    unfold roster
    rw [session_eraseClient]
    rfl
  unfold dropClient
  rw [roster_tellDisconnected, roster_callOnDisconnected, herase]
  rfl

theorem roster_admitClient (entry : ClientEntry) (t : ℕ) :
    (net.admitClient T entry t).roster = net.roster.enter entry.toConnection := by
  have henroll : ({ net with clients := net.clients ++ [entry] }.sendSys T t entry.address
      SysType.connectAccept (be64 entry.id)).roster =
        net.roster.move (Session.enroll entry.toConnection) := by
    show Roster.mk ⟨net.mode, net.config, net.localClientId,
      (net.clients ++ [entry]).map ClientEntry.toConnection⟩ net.callbacks net.visits net.tracked = _
    rw [List.map_append]
    rfl
  unfold admitClient
  dsimp only
  rw [roster_tellConnected, roster_callOnConnected, henroll]
  rfl

theorem roster_flushToCallbacks (client : ClientId) (data : Bytes) :
    (net.flushToCallbacks client data).roster = net.roster := by
  unfold flushToCallbacks
  split_ifs
  · exact roster_called net fun c hc => by rw [List.mem_singleton.mp hc]; rfl
  · rfl

/-! ### Packets -/

/-- The ways in which a packet changes the roster. -/
inductive PacketRoster (env : PacketEnv) (t : ℕ) (buffer : Bytes) (sender : Address) : Roster → Prop
  | keep : PacketRoster env t buffer sender net.roster
  | ack {id : ClientId} (message : net.SystemMessage SysType.snapshotAck buffer)
    (length : 2 ≤ (buffer.drop 3).length)
    (known : net.serving → ∃ c ∈ net.session.clients, c.id = id) :
    PacketRoster env t buffer sender (net.roster.note id)
  | enroll (h : net.Admission env buffer sender) :
    PacketRoster env t buffer sender (net.roster.enter (net.openedBy t sender))
  | drop {entry : ClientEntry} (serving : net.serving)
    (found : net.findClientByAddress sender = some entry) :
    PacketRoster env t buffer sender (net.roster.leave entry.id)
  | accept (joining : net.joining) (message : net.SystemMessage SysType.connectAccept buffer)
    (length : 8 ≤ (buffer.drop 3).length)
    (known : net.serving → (net.findClientByAddress sender).isSome) :
    PacketRoster env t buffer sender
      (((net.roster.move (Session.name (readBe64 (buffer.drop 3)))).connected
        (readBe64 (buffer.drop 3))).note (readBe64 (buffer.drop 3)))
  | depart (mode : net.mode = .client) :
    PacketRoster env t buffer sender
      (((net.roster.move (Session.name 0)).disconnected 0).forget 0)

variable {net}

theorem roster_checkApproval (env : PacketEnv) (sender : Address) (data : Bytes) :
    (net.checkApproval env sender data).1.roster = net.roster := by
  unfold checkApproval
  dsimp only
  split_ifs
  · exact roster_called net fun c hc => by rw [List.mem_singleton.mp hc]; rfl
  · rfl

theorem roster_rejectClient (t : ℕ) (sender : Address) (reason : Bytes) :
    (net.rejectClient T t sender reason).roster = net.roster := rfl

theorem packetRoster_onConnectRequest {env : PacketEnv} {t : ℕ} {buffer : Bytes} {sender : Address}
    (hmsg : net.SystemMessage SysType.connectRequest buffer) :
    net.PacketRoster env t buffer sender
      (net.onConnectRequest T env sender t (buffer.drop 3)).roster := by
  have hchecked : (net.checkApproval env sender (buffer.drop 3)).1.roster = net.roster :=
    roster_checkApproval env sender (buffer.drop 3)
  unfold onConnectRequest
  by_cases hs : net.serving
  · rw [if_neg (by simp [hs])]
    rcases hfind : (net.findClientByAddress sender).filter ClientEntry.approved with _ | existing
    · dsimp only
      obtain ⟨calls, hcalls⟩ := net.checkApproval_called env sender (buffer.drop 3)
      by_cases happ : (net.checkApproval env sender (buffer.drop 3)).2
      · rw [if_neg (by simp [happ])]
        obtain ⟨htoken, hasked⟩ := net.checkApproval_approved happ
        rw [hcalls] at hchecked ⊢
        split_ifs with hroom
        · rw [roster_rejectClient, hchecked]
          exact .keep
        · rw [roster_admitClient, hchecked]
          exact .enroll ⟨hs, hmsg.1, hmsg.2.1, hmsg.2.2, hfind, htoken, hasked, not_le.mp hroom⟩
      · rw [if_pos (by simp [happ]), roster_rejectClient, hchecked]
        exact .keep
    · exact .keep
  · rw [if_pos (by simp [hs])]
    exact .keep

theorem packetRoster_onConnectAccept {env : PacketEnv} {t : ℕ} {buffer : Bytes} {sender : Address}
    (hmsg : net.SystemMessage SysType.connectAccept buffer)
    (hknown : net.serving → (net.findClientByAddress sender).isSome) :
    net.PacketRoster env t buffer sender (net.onConnectAccept (buffer.drop 3)).roster := by
  unfold onConnectAccept
  split_ifs with hj hlen
  · exact .keep
  · exact .keep
  · dsimp only
    rw [roster_tellConnected, roster_callOnConnected]
    exact .accept (by simpa using hj) hmsg (not_lt.mp hlen) hknown

theorem roster_onConnectReject : (net.onConnectReject T).roster = net.roster := by
  unfold onConnectReject
  split_ifs
  · rfl
  · exact roster_disconnectTransport { net with awaitingAccept := false }

theorem packetRoster_onDisconnectNotify {env : PacketEnv} {t : ℕ} {buffer : Bytes}
    {sender : Address} :
    net.PacketRoster env t buffer sender (net.onDisconnectNotify T sender).roster := by
  unfold onDisconnectNotify
  split_ifs with hs hmode
  · split
    · exact .keep
    · rename_i entry hfind
      rw [roster_dropClient]
      exact .drop hs hfind
  · dsimp only
    rw [roster_tellDisconnected, roster_callOnDisconnected, roster_disconnectTransport]
    exact .depart hmode
  · exact .keep

theorem roster_onDeltaState (data : Bytes) : (net.onDeltaState data).roster = net.roster := by
  unfold onDeltaState
  split
  · rfl
  · rename_i rep hrep
    have hnone : ∀ c ∈ (rep.onReceiveDelta data).2, AppCall.visit? c = none := by
      intro c hc
      apply AppCall.visit?_of_kind
      rw [NetworkReplicationManager.onReceiveDelta_kind hc]
      decide
    rw [roster_called _ hnone]
    unfold roster tracked
    rw [hrep]
    show Roster.mk _ _ _ (some (rep.onReceiveDelta data).1.trackedIds) = _
    rw [NetworkReplicationManager.trackedIds_onReceiveDelta]
    rfl

theorem packetRoster_onSnapshotAck {env : PacketEnv} {t : ℕ} {buffer : Bytes} {sender : Address}
    {senderId : ClientId} (hmsg : net.SystemMessage SysType.snapshotAck buffer)
    (hknown : net.serving → ∃ c ∈ net.session.clients, c.id = senderId) :
    net.PacketRoster env t buffer sender (net.onSnapshotAck senderId (buffer.drop 3)).roster := by
  unfold onSnapshotAck
  split_ifs with hlen
  · rw [roster_tellReplication net fun rep =>
      NetworkReplicationManager.trackedIds_onSnapshotAck senderId _ rep]
    exact .ack hmsg hlen hknown
  · exact .keep

theorem roster_onTimeSyncRequest (env : PacketEnv) (sender : Address) (t : ℕ) (data : Bytes) :
    (net.onTimeSyncRequest T env sender t data).roster = net.roster := by
  unfold onTimeSyncRequest
  split_ifs <;> rfl

theorem roster_onTimeSyncResponse (env : PacketEnv) (data : Bytes) :
    (net.onTimeSyncResponse env data).roster = net.roster := by
  unfold onTimeSyncResponse
  split_ifs <;> rfl

theorem roster_allowRpc (env : PacketEnv) (sender : Address) :
    (net.allowRpc env sender).1.roster = net.roster := by
  unfold allowRpc
  split_ifs
  · split
    · rfl
    · rename_i entry hfind
      have haddr : entry.address = sender := lookup_key hfind
      apply roster_setClientByAddress
      · rw [haddr]
        exact hfind
      · rfl
  · rfl

theorem roster_onRpc (env : PacketEnv) (senderId : ClientId) (sender : Address) (data : Bytes) :
    (net.onRpc T env senderId sender data).roster = net.roster := by
  have hallow : (net.allowRpc env sender).1.roster = net.roster := roster_allowRpc env sender
  unfold onRpc
  split
  · rfl
  · rename_i rpc _
    dsimp only
    split_ifs
    · rw [roster_called]
      · exact hallow
      · exact fun c hc => RpcManager.onReceive_visit? hc
    · exact hallow

theorem packetRoster_processSystemMessage {env : PacketEnv} {t : ℕ} {buffer : Bytes}
    {sender : Address} {senderId : ClientId} (hfits : buffer.length ≤ net.config.maxPacketSize)
    (hsys : isSystem buffer)
    (hknown : net.serving → buffer.getD 2 0 ≠ SysType.connectRequest →
      ∃ entry, net.findClientByAddress sender = some entry ∧ entry.id = senderId) :
    net.PacketRoster env t buffer sender
      (net.processSystemMessage T env senderId sender t (buffer.getD 2 0) (buffer.drop 3)).roster := by
  have hkeep : ∀ {next : NetworkManager σ}, next.roster = net.roster →
      net.PacketRoster env t buffer sender next.roster := by
    intro next h
    rw [h]
    exact .keep
  apply processSystemMessage_cases (P := fun next => net.PacketRoster env t buffer sender next.roster)
  case connectRequest => exact fun h => packetRoster_onConnectRequest ⟨hfits, hsys, h⟩
  case connectAccept =>
    intro h
    refine packetRoster_onConnectAccept ⟨hfits, hsys, h⟩ fun hs => ?_
    obtain ⟨entry, hfind, -⟩ := hknown hs (by rw [h]; decide)
    rw [hfind]
    rfl
  case connectReject => exact fun _ => hkeep roster_onConnectReject
  case disconnectNotify => exact fun _ => packetRoster_onDisconnectNotify
  case timeSyncRequest => exact fun _ => hkeep (roster_onTimeSyncRequest env sender t _)
  case timeSyncResponse => exact fun _ => hkeep (roster_onTimeSyncResponse env _)
  case entitySpawn =>
    exact fun _ => hkeep (roster_lifecycle net fun em c hc =>
      NetworkEntityManager.onReceiveSpawn_calls hc)
  case entityDestroy =>
    exact fun _ => hkeep (roster_lifecycle net fun em c hc =>
      NetworkEntityManager.onReceiveDestroy_calls hc)
  case entitySetOwner =>
    exact fun _ => hkeep (roster_lifecycle net fun em c hc => absurd hc List.not_mem_nil)
  case entityFullState =>
    exact fun _ => hkeep (roster_lifecycle net fun em c hc => absurd hc List.not_mem_nil)
  case deltaState => exact fun _ => hkeep (roster_onDeltaState _)
  case snapshotAck =>
    intro h
    refine packetRoster_onSnapshotAck ⟨hfits, hsys, h⟩ fun hs => ?_
    obtain ⟨entry, hfind, hid⟩ := hknown hs (by rw [h]; decide)
    exact ⟨entry.toConnection, List.mem_map_of_mem (lookup_mem hfind), hid⟩
  case rpc => exact fun _ => hkeep (roster_onRpc env senderId sender _)
  case unknown => exact .keep

theorem packetRoster_onSystem {env : PacketEnv} {t : ℕ} {buffer : Bytes} {sender : Address}
    (hfits : buffer.length ≤ net.config.maxPacketSize) (hsys : isSystem buffer) :
    net.PacketRoster env t buffer sender (net.onSystem T env t buffer sender).roster := by
  unfold onSystem
  dsimp only
  by_cases hs : net.serving
  · rw [if_pos hs]
    rcases hfind : net.findClientByAddress sender with _ | entry
    · dsimp only
      split_ifs with htype
      · exact packetRoster_processSystemMessage hfits hsys fun _ h => absurd htype h
      · exact .keep
    · exact packetRoster_processSystemMessage hfits hsys fun _ _ => ⟨entry, hfind, rfl⟩
  · rw [if_neg hs]
    exact packetRoster_processSystemMessage hfits hsys fun h => absurd h hs

theorem packetRoster_onOversized {env : PacketEnv} {t : ℕ} {buffer : Bytes} {sender : Address} :
    net.PacketRoster env t buffer sender (net.onOversized T sender).roster := by
  unfold onOversized
  by_cases hs : net.serving
  · rw [if_neg (by simp [hs])]
    rcases hfind : net.findClientByAddress sender with _ | entry
    · exact .keep
    · dsimp only
      split
      · exact .keep
      · split_ifs
        · exact .keep
        · rw [roster_dropClient]
          exact .drop hs hfind
  · rw [if_pos (by simp [hs])]
    exact .keep

theorem roster_onUser (env : PacketEnv) (buffer : Bytes) (sender : Address) :
    (net.onUser env buffer sender).roster = net.roster := by
  unfold onUser
  split_ifs
  · split
    · rfl
    · rename_i entry hfind
      have haddr : entry.address = sender := lookup_key hfind
      have hself : net.findClientByAddress entry.address = some entry := by
        rw [haddr]
        exact hfind
      dsimp only
      split_ifs
      · rw [roster_flushToCallbacks]
        exact net.roster_setClientByAddress hself rfl
      · exact net.roster_setClientByAddress hself rfl
  · exact roster_flushToCallbacks _ _ _
  · rfl

/-- What one packet can do to the roster. -/
theorem packetRoster_handlePacket (env : PacketEnv) (t : ℕ) (buffer : Bytes) (sender : Address) :
    net.PacketRoster env t buffer sender (net.handlePacket T env t buffer sender).roster := by
  unfold handlePacket
  split_ifs with hne hfits hsys
  · exact .keep
  · exact packetRoster_onOversized
  · exact packetRoster_onSystem (not_lt.mp hfits) hsys
  · rw [roster_onUser]
    exact .keep

/-! ### Calls -/

/-- The manager as `start` opens its transport. -/
def launching (T : ℕ → ITransport σ) (config : Config) (udp : ℕ) (net : NetworkManager σ) :
    NetworkManager σ :=
  let net := if net.mode = .none then net else net.stop T
  { net with config := config, mode := config.mode, transport := some (net.transport.getD udp) }

/-- The transport that `start` opens can be opened. -/
def opens (T : ℕ → ITransport σ) (config : Config) (udp : ℕ) (net : NetworkManager σ) : Bool :=
  ((net.launching T config udp).openTransport T
    ((if net.mode = .none then net else net.stop T).transport.getD udp)).2

/-- The ids that an attached replication manager is told of. -/
def attachedIds (net : NetworkManager σ) : List ClientId :=
  (net.clients.filter ClientEntry.approved).map ClientEntry.id ++
    if net.mode = .host ∧ net.localClientId ≠ 0 then [net.localClientId] else []

/-- The ways in which a call of the application changes the roster, polls apart. -/
inductive CallRoster (T : ℕ → ITransport σ) (net : NetworkManager σ) : Call σ → Roster → Prop
  | keep {call : Call σ} : CallRoster T net call net.roster
  | callbacks {callbacks : Callbacks} :
    CallRoster T net (.setCallbacks callbacks) { net.roster with callbacks := callbacks }
  | attach {rep : Option NetworkReplicationManager} :
    CallRoster T net (.setReplicationManager rep)
      { net.roster with
        tracked := rep.map fun rep => net.attachedIds.foldl (fun ids id => noteId id ids) rep.trackedIds }
  | close {call : Call σ} (ends : call.Ends) (client : call = .disconnect → net.mode = .client) :
    CallRoster T net call (net.roster.move Session.close)
  | fail {config : Config} {udp : ℕ} :
    CallRoster T net (.start config udp)
      (net.roster.move fun s => { s.launch config with mode := .none })
  | launch {config : Config} {udp : ℕ} :
    CallRoster T net (.start config udp) (net.roster.move (Session.launch config))
  | host {config : Config} {udp : ℕ} {id : ClientId} (mode : config.mode = .host)
    (opens : net.opens T config udp) (fresh : (net.session.launch config).Fresh id) :
    CallRoster T net (.start config udp)
      ((net.roster.move fun s => ((s.launch config).name id).enroll (.local id)).connected id)
  | addLocal {id : ClientId} (serving : net.serving) (fresh : net.session.Fresh id) :
    CallRoster T net .addLocalClient (net.roster.enter (.local id))
  | leave {call : Call σ} (own : call.Ends ∨ call = .disconnectClient net.localClientId)
    (known : ∃ c ∈ net.session.clients, c.id = net.localClientId) :
    CallRoster T net call ((net.roster.move (Session.name 0)).leave net.localClientId)
  | drop {client : ClientId} (other : client ≠ net.localClientId)
    (known : ∃ c ∈ net.session.clients, c.id = client) :
    CallRoster T net (.disconnectClient client) (net.roster.leave client)

/-- Stopping tells nobody of the clients that are gone. -/
theorem roster_stop : (net.stop T).roster = net.roster.move Session.close := by
  have htold : (net.stop T).callbacks = net.callbacks ∧ (net.stop T).calls = net.calls ∧
      (net.stop T).replicationManager = net.replicationManager := by
    unfold stop
    dsimp only
    split_ifs
    · refine List.foldlRecOn (motive := fun n : NetworkManager σ => n.callbacks = net.callbacks ∧
        n.calls = net.calls ∧ n.replicationManager = net.replicationManager) net.clients _
        ⟨rfl, rfl, rfl⟩ ?_
      intro n hn c _
      split
      · exact hn
      · split_ifs <;> exact hn
    · unfold transmit
      split <;> exact ⟨rfl, rfl, rfl⟩
    · exact ⟨rfl, rfl, rfl⟩
  obtain ⟨hcallbacks, hcalls, hrep⟩ := htold
  unfold roster visits tracked
  rw [session_stop, hcallbacks, hcalls, hrep]
  rfl

theorem callRoster_setTransport (t : Option ℕ) :
    net.CallRoster T (.setTransport t) (net.setTransport T t).roster := by
  unfold setTransport
  split_ifs
  · exact .keep
  · have hstop : ({ net.stop T with transport := t } : NetworkManager σ).roster =
      net.roster.move Session.close := roster_stop
    rw [hstop]
    exact .close trivial fun h => by cases h

theorem roster_launching (config : Config) (udp : ℕ) :
    (net.launching T config udp).roster = net.roster.move (Session.launch config) := by
  have hlaunch : ∀ s : Session, s.launch config =
      { (if s.mode = .none then s else s.close) with mode := config.mode, config := config } :=
    fun s => rfl
  unfold launching
  dsimp only
  by_cases hmode : net.mode = .none
  · rw [if_pos hmode]
    unfold roster Roster.move
    dsimp only
    rw [hlaunch, if_pos (show net.session.mode = .none from hmode)]
    rfl
  · rw [if_neg hmode]
    have hstop : (net.stop T).roster = net.roster.move Session.close := roster_stop
    have hclosed : net.roster.move (Session.launch config) =
        { net.roster.move Session.close with
          session := { net.session.close with mode := config.mode, config := config } } := by
      unfold Roster.move
      dsimp only
      rw [hlaunch, if_neg (show ¬net.roster.session.mode = .none from hmode)]
      rfl
    rw [hclosed]
    exact congrArg (fun r : Roster => { r with
      session := { r.session with mode := config.mode, config := config } }) hstop

theorem callRoster_start (config : Config) (udp : ℕ) :
    net.CallRoster T (.start config udp) (net.start T config udp).1.roster := by
  have hlaunching : (net.launching T config udp).roster = _ := roster_launching config udp
  have hopens : net.opens T config udp = ((net.launching T config udp).openTransport T
    ((if net.mode = .none then net else net.stop T).transport.getD udp)).2 := rfl
  have hstart : net.start T config udp =
      if ((net.launching T config udp).openTransport T
        ((if net.mode = .none then net else net.stop T).transport.getD udp)).2 then
        (launch T ((net.launching T config udp).openTransport T
          ((if net.mode = .none then net else net.stop T).transport.getD udp)).1, true)
      else ({ ((net.launching T config udp).openTransport T
          ((if net.mode = .none then net else net.stop T).transport.getD udp)).1 with
            mode := .none, transport := none }, false) := rfl
  have hopen : ((net.launching T config udp).openTransport T
      ((if net.mode = .none then net else net.stop T).transport.getD udp)).1.roster =
        net.roster.move (Session.launch config) := hlaunching
  rw [hstart, ← hopens]
  generalize ((net.launching T config udp).openTransport T
    ((if net.mode = .none then net else net.stop T).transport.getD udp)).1 = opened at hopen
  split_ifs with hok
  · unfold launch
    split_ifs with hclient hhost
    · rw [roster_sent _ (sent_sendConnectRequest _), hopen]
      exact .launch
    · have hmode : config.mode = .host :=
        (congrArg (fun r : Roster => r.session.mode) hopen).symm.trans hhost
      have hfresh := opened.fresh_generateClientId
      have hsession : opened.session = net.session.launch config := congrArg Roster.session hopen
      rw [hsession] at hfresh
      dsimp only
      rw [roster_callOnConnected]
      have hnew : ({ opened with
          clients := opened.clients ++ [localEntry opened.generateClientId]
          localClientId := opened.generateClientId, clientConnected := true } :
            NetworkManager σ).roster =
          net.roster.move fun s => ((s.launch config).name opened.generateClientId).enroll
            (.local opened.generateClientId) := by
        have hmove : ({ opened with
            clients := opened.clients ++ [localEntry opened.generateClientId]
            localClientId := opened.generateClientId, clientConnected := true } :
              NetworkManager σ).roster =
            opened.roster.move fun s => (s.name opened.generateClientId).enroll
              (.local opened.generateClientId) := by
          show Roster.mk ⟨opened.mode, opened.config, opened.generateClientId,
            (opened.clients ++ [localEntry opened.generateClientId]).map
              ClientEntry.toConnection⟩ opened.callbacks opened.visits opened.tracked = _
          rw [List.map_append]
          rfl
        rw [hmove, hopen]
        rfl
      rw [hnew]
      exact .host hmode hok hfresh
    · rw [hopen]
      exact .launch
  · have hfail : ({ opened with mode := .none, transport := none } : NetworkManager σ).roster =
        net.roster.move fun s => { s.launch config with mode := .none } :=
      congrArg (fun r : Roster => { r with session := { r.session with mode := .none } }) hopen
    rw [hfail]
    exact .fail

theorem callRoster_addLocalClient : net.CallRoster T .addLocalClient net.addLocalClient.1.roster := by
  unfold addLocalClient
  split_ifs with hs
  · exact .keep
  · dsimp only
    rw [roster_tellConnected, roster_callOnConnected]
    have henroll : ({ net with clients := net.clients ++ [localEntry net.generateClientId] } :
        NetworkManager σ).roster =
          net.roster.move (Session.enroll (.local net.generateClientId)) := by
      show Roster.mk ⟨net.mode, net.config, net.localClientId,
        (net.clients ++ [localEntry net.generateClientId]).map ClientEntry.toConnection⟩
          net.callbacks net.visits net.tracked = _
      rw [List.map_append]
      rfl
    rw [henroll]
    exact .addLocal (by simpa using hs) net.fresh_generateClientId

theorem callRoster_disconnectClient {call : Call σ} {client : ClientId}
    (hown : client = net.localClientId →
      call.Ends ∨ call = .disconnectClient net.localClientId)
    (hother : client ≠ net.localClientId → call = .disconnectClient client) :
    net.CallRoster T call (net.disconnectClient T client).roster := by
  unfold disconnectClient
  by_cases hs : net.serving
  · rw [if_neg (by simp [hs])]
    rcases hfind : net.findClientById client with _ | entry
    · exact .keep
    · dsimp only
      have hknown : ∃ c ∈ net.session.clients, c.id = client :=
        ⟨entry.toConnection, List.mem_map_of_mem (lookup_mem hfind),
          (lookup_key hfind : entry.id = client)⟩
      rw [roster_dropClient]
      split_ifs with hlocal
      · subst hlocal
        exact .leave (hown rfl) hknown
      · have hdrop : net.CallRoster T call (net.roster.leave client) := by
          rw [hother hlocal]
          exact .drop hlocal hknown
        split
        · exact hdrop
        · exact hdrop
  · rw [if_pos (by simp [hs])]
    exact .keep

theorem callRoster_disconnect :
    net.CallRoster T (.disconnect : Call σ) (net.disconnect T).roster := by
  unfold disconnect
  split_ifs with hclient hconnected
  · rw [roster_stop, roster_sent _ (sent_transmit net _ _)]
    exact .close trivial fun _ => hclient
  · rw [roster_stop]
    exact .close trivial fun _ => hclient
  · exact callRoster_disconnectClient (fun _ => .inl trivial) fun h => absurd rfl h
  · exact .keep

theorem foldl_noteId {α : Type*} {key : α → ClientId} (l : List α)
    (rep : NetworkReplicationManager) :
    (l.foldl (fun rep a => rep.onClientConnected (key a)) rep).trackedIds =
      (l.map key).foldl (fun ids id => noteId id ids) rep.trackedIds := by
  induction l generalizing rep with
  | nil => rfl
  | cons a l ih =>
    rw [List.foldl_cons, ih, NetworkReplicationManager.trackedIds_onClientConnected]
    rfl

theorem roster_setReplicationManager (rep : Option NetworkReplicationManager) :
    (net.setReplicationManager rep).roster =
      { net.roster with
        tracked := rep.map fun rep =>
          net.attachedIds.foldl (fun ids id => noteId id ids) rep.trackedIds } := by
  have htracked : (net.setReplicationManager rep).tracked = rep.map fun rep =>
      net.attachedIds.foldl (fun ids id => noteId id ids) rep.trackedIds := by
    unfold tracked setReplicationManager attachedIds
    dsimp only
    rw [Option.map_map]
    congr 1
    funext rep
    rw [List.foldl_append, ← foldl_noteId]
    simp only [Function.comp]
    split_ifs
    · rw [NetworkReplicationManager.trackedIds_onClientConnected]
      rfl
    · rfl
  unfold roster
  rw [htracked]
  rfl

theorem roster_spawnEntity (prefabId : PrefabId) (initData : Bytes) (handle : EntityHandle)
    (announce : Bool) :
    (net.spawnEntity T prefabId initData handle announce).roster = net.roster := by
  unfold spawnEntity
  split
  · rfl
  · rename_i em _
    have hspawn : ({ net with entityManager := some (em.spawn prefabId initData handle).1 }.called
        (em.spawn prefabId initData handle).2.1).roster = net.roster := by
      apply roster_called
      intro c hc
      apply AppCall.visit?_of_kind
      rw [NetworkEntityManager.spawn_calls hc]
      decide
    dsimp only
    split_ifs
    · rw [roster_sent _ (sent_broadcast _ _ _ _)]
      exact hspawn
    · exact hspawn

theorem roster_destroyEntity (id : NetworkId) (announce : Bool) :
    (net.destroyEntity T id announce).roster = net.roster := by
  have htell : (net.tellEntities fun em => em.destroy id).roster = net.roster :=
    roster_lifecycle net fun em c hc => NetworkEntityManager.destroy_calls hc
  unfold destroyEntity
  split
  · rfl
  · dsimp only
    split_ifs
    · rw [roster_sent _ (sent_broadcast _ _ _ _)]
      exact htell
    · exact htell

/-- Writing a state of the replication manager with the same clients. -/
theorem roster_replication {rep rep' : NetworkReplicationManager}
    (h : net.replicationManager = some rep) (hsame : rep'.trackedIds = rep.trackedIds) :
    ({ net with replicationManager := some rep' } : NetworkManager σ).roster = net.roster := by
  unfold roster tracked
  rw [h]
  show Roster.mk _ _ _ (some rep'.trackedIds) = _
  rw [hsame]
  rfl

theorem roster_serverTick {deltaTime : ℚ} {envs : List SnapshotEnv} {net' : NetworkManager σ}
    (h : net.serverTick T deltaTime envs = some net') : net'.roster = net.roster := by
  unfold serverTick at h
  split at h
  · cases h
    rfl
  · rename_i rep hrep
    split_ifs at h
    · cases h
      rfl
    · obtain ⟨out, hout, rfl⟩ := Option.map_eq_some_iff.mp h
      rw [roster_sent _ (Sent.foldl
        (f := fun (msg : ClientId × Bytes) net => (net.sendToClient T msg.1 msg.2 .unreliable).1)
        (fun msg net => sent_sendToClient net _ _ _) out.2 _)]
      exact roster_replication hrep (NetworkReplicationManager.trackedIds_serverTick hout)

theorem roster_clientTick {deltaTime : ℚ} {turns : ℕ} {net' : NetworkManager σ}
    (h : net.clientTick T deltaTime turns = some net') : net'.roster = net.roster := by
  unfold clientTick at h
  split at h
  · cases h
    rfl
  · rename_i rep hrep
    split_ifs at h
    · cases h
      rfl
    · obtain ⟨out, hout, rfl⟩ := Option.map_eq_some_iff.mp h
      rw [roster_sent _ (Sent.foldl (f := fun msg net => (net.send T msg .unreliable).1)
        (fun msg net => sent_send net _ _) out.2 _)]
      have hsame := NetworkReplicationManager.trackedIds_clientTickLoop hout
      exact roster_replication hrep hsame

theorem roster_finishPoll (env : PollEnv) : (net.finishPoll T env).roster = net.roster := by
  have htold : ∀ n : NetworkManager σ, n.session = net.session →
      { n.roster with session := net.session } = net.roster → n.roster = net.roster := by
    intro n hsession h
    rw [← h, ← hsession]
    rfl
  apply htold _ (session_finishPoll env)
  have hsync := roster_sent net (sent_pollClientTimeSync (T := T) net env)
  have hrequest := fun n : NetworkManager σ => roster_sent n (sent_sendConnectRequest (T := T) n)
  have hframe : ∀ n : NetworkManager σ, { n.roster with session := net.session } = net.roster →
      { (n.sendConnectRequest T).roster with session := net.session } = net.roster := by
    intro n hn
    rw [hrequest]
    exact hn
  have hstats : { ({ net.pollClientTimeSync T env with
      clients := (net.pollClientTimeSync T env).clients.map (updateStats env.now) } :
        NetworkManager σ).roster with session := net.session } = net.roster :=
    congrArg (fun r : Roster => { r with session := net.session }) hsync
  unfold finishPoll
  dsimp only
  split_ifs
  · exact hframe _ hstats
  · exact hframe _ hstats
  · exact hstats
  · exact hstats

/-- What one call can do to the roster. -/
theorem callRoster_step {call : Call σ} {net' : NetworkManager σ} (h : net.step T call = some net')
    (hpoll : ∀ env, call ≠ .poll env) : net.CallRoster T call net'.roster := by
  have hkeep : ∀ {n : NetworkManager σ}, n.roster = net.roster → net.CallRoster T call n.roster := by
    intro n hn
    rw [hn]
    exact .keep
  cases call with
  | poll env => exact absurd rfl (hpoll env)
  | network world => cases h; exact .keep
  | setTransport t => cases h; exact callRoster_setTransport t
  | addTransport t => cases h; exact .keep
  | start config udp => cases h; exact callRoster_start config udp
  | stop => cases h; exact roster_stop (T := T) ▸ .close trivial fun h => by cases h
  | addLocalClient => cases h; exact callRoster_addLocalClient
  | disconnectClient client =>
    cases h
    exact callRoster_disconnectClient (fun hown => .inr (congrArg _ hown)) fun _ => rfl
  | disconnect => cases h; exact callRoster_disconnect
  | sendToClient client data r => cases h; exact hkeep (roster_sent net (sent_sendToClient net _ _ _))
  | broadcast data r exclude => cases h; exact hkeep (roster_sent net (sent_broadcast net _ _ _))
  | send data r => cases h; exact hkeep (roster_sent net (sent_send net _ _))
  | popMessage =>
    cases h
    unfold popMessage
    split <;> exact .keep
  | setCallbacks callbacks => cases h; exact .callbacks
  | setConnectionToken token => cases h; exact .keep
  | setReplicationManager rep => cases h; exact roster_setReplicationManager rep ▸ .attach
  | setRpcManager rpc => cases h; exact .keep
  | spawn prefabId initData handle announce => cases h; exact hkeep (roster_spawnEntity _ _ _ _)
  | destroy id announce => cases h; exact hkeep (roster_destroyEntity id announce)
  | setOwner id owner =>
    cases h
    exact hkeep (roster_tellEntities net fun em c hc => absurd hc List.not_mem_nil)
  | sendFullState client => cases h; exact hkeep (roster_sent net (sent_sendFullStateToClient net _))
  | markDirty id => cases h; exact hkeep (roster_tellSame net fun rep => rfl)
  | serverTick deltaTime envs => exact hkeep (roster_serverTick h)
  | clientTick deltaTime turns => exact hkeep (roster_clientTick h)
  | invokeRpc target rpcId args => cases h; exact hkeep (roster_sent net (sent_invokeRpc net _ _ _))

end

/-! ### Servers and hosts -/

/-- The calls of an application that runs no client. -/
def Call.Serves : Call σ → Prop
  | .start config _ => config.mode ≠ .client
  | _ => True

instance : ∀ call : Call σ, Decidable call.Serves
  | .start config _ => inferInstanceAs (Decidable (config.mode ≠ .client))
  | .network _ | .setTransport _ | .addTransport _ | .stop | .poll _ | .addLocalClient
  | .disconnectClient _ | .disconnect | .sendToClient _ _ _ | .broadcast _ _ _ | .send _ _
  | .popMessage | .setCallbacks _ | .setConnectionToken _ | .setReplicationManager _
  | .setRpcManager _ | .spawn _ _ _ _ | .destroy _ _ | .setOwner _ _ | .sendFullState _
  | .markDirty _ | .serverTick _ _ | .clientTick _ _ | .invokeRpc _ _ _ => isTrue trivial

/-- The packet has a host report a client that does not connect. -/
def Impersonates (net : NetworkManager σ) (buffer : Bytes) (sender : Address) : Prop :=
  net.mode = .host ∧ net.SystemMessage SysType.connectAccept buffer ∧
    (net.findClientByAddress sender).isSome ∧ 8 ≤ (buffer.drop 3).length

instance (net : NetworkManager σ) (buffer : Bytes) (sender : Address) :
    Decidable (net.Impersonates buffer sender) :=
  inferInstanceAs (Decidable (_ ∧ (_ ∧ _ ∧ _) ∧ _ ∧ _))

end NetworkManager

end CampelloNet
