import CampelloNet.Manager.Authority
import CampelloNet.Manager.RpcAuthority
import CampelloNet.Transport.Udp.Interface

/-!
# Whom a client trusts

What a client takes from the network is its `Standing`: its id, its clock, its entities, what its
replication manager knows, the messages it hands out and the handlers it invokes. A client looks at
the sender of no packet, so a packet of anybody changes the standing that the server's would change:
`Intrudes` says when.
-/

namespace CampelloNet

open Lib Transport

namespace AppCall

/-- The callbacks of the network manager. -/
def IsCallback : AppCall → Prop
  | onConnected _ | onDisconnected _ | onData _ _ | onApproval _ _ => True
  | _ => False

instance : DecidablePred IsCallback
  | onConnected _ | onDisconnected _ | onData _ _ | onApproval _ _ => isTrue trivial
  | spawn _ _ _ | destroy _ | deserializeEntity _ _ | snapshotReceived _ _ | rpc _ _ _ => isFalse id

end AppCall

/-! ### The entity manager -/

namespace NetworkEntityManager

variable {em : NetworkEntityManager} {data : Bytes}

/-- A spawn without an effect is not told to the game. -/
theorem onReceiveSpawn_idle {handle : EntityHandle} (h : (em.onReceiveSpawn data handle).1 = em) :
    (em.onReceiveSpawn data handle).2 = [] := by
  have hno := (onReceiveSpawn_eq_iff handle).mp h
  unfold onReceiveSpawn
  dsimp only
  split_ifs with hshort hlen hknown hfull
  · rfl
  · rfl
  · rfl
  · rfl
  · refine absurd ⟨not_lt.mp hlen, ?_, ?_⟩ hno
    · simpa using hknown
    · simpa using hfull

theorem onReceiveDestroy_idle (h : (em.onReceiveDestroy data).1 = em) :
    (em.onReceiveDestroy data).2 = [] := by
  have hno := onReceiveDestroy_eq_iff.mp h
  unfold onReceiveDestroy destroy
  split_ifs with hlen
  · rfl
  · rcases hfind : em.find (readBe64 data) with _ | ent
    · rfl
    · exact absurd ⟨not_lt.mp hlen, by rw [hfind]; rfl⟩ hno

end NetworkEntityManager

/-! ### The replication manager -/

namespace NetworkReplicationManager

open Replication

theorem ne_of_newer {a b : UInt16} (h : newer a b) : a ≠ b := by
  rintro rfl
  simp [newer] at h

variable (rep : NetworkReplicationManager)

/-- The ack is the first of the client, or newer than its last. -/
def Acknowledges (client : ClientId) (snapshotId : UInt16) : Prop :=
  ∀ c ∈ lookup Prod.fst client rep.clientStates,
    c.2.hasAck → newer snapshotId c.2.lastAckedSnapshot

/-- The message is of a newer snapshot, or what it holds is buffered or handed to the game. -/
def Takes (data : Bytes) : Prop :=
  4 ≤ data.length ∧
    (newer (readBe16 data) rep.lastReceivedSnapshot ∨
      newer (readBe16 data) rep.latestReceivedSnapshot ∨
      if rep.predictionMode && rep.hasSnapshotCb then deltaEntities data ≠ []
      else rep.interpolationEnabled ∨ rep.hasBridge ∧ deltaEntities data ≠ [])

variable {rep}

theorem setClientState_eq_iff {client : ClientId} {state : ClientReplicationState} :
    rep.setClientState client state = rep ↔
      lookup Prod.fst client rep.clientStates = some (client, state) := by
  refine Iff.trans ⟨fun h => ?_, fun h => ?_⟩
    (upsert_eq_self_iff (a := (client, state)) (l := rep.clientStates))
  · exact congrArg NetworkReplicationManager.clientStates h
  · unfold setClientState
    rw [h]

theorem onClientDisconnected_eq_iff {client : ClientId} :
    rep.onClientDisconnected client = rep ↔ ∀ c ∈ rep.clientStates, c.1 ≠ client := by
  have hfilter : rep.clientStates.filter (fun c => c.1 ≠ client) = rep.clientStates ↔
      ∀ c ∈ rep.clientStates, c.1 ≠ client := by
    rw [List.filter_eq_self]
    simp
  refine Iff.trans ⟨fun h => ?_, fun h => ?_⟩ hfilter
  · exact congrArg NetworkReplicationManager.clientStates h
  · unfold onClientDisconnected
    rw [h]

theorem onSnapshotAck_eq_iff {client : ClientId} {snapshotId : UInt16} :
    rep.onSnapshotAck client snapshotId = rep ↔ ¬rep.Acknowledges client snapshotId := by
  unfold onSnapshotAck Acknowledges clientState
  dsimp only
  rw [setClientState_eq_iff]
  rcases hfind : lookup Prod.fst client rep.clientStates with _ | ⟨id, state⟩
  · simp
  · have hid : id = client := lookup_key hfind
    subst hid
    simp only [Option.map_some, Option.getD_some, Option.some.injEq, Prod.mk.injEq, true_and,
      Option.mem_some_iff, forall_eq']
    constructor
    · intro hsame hnew
      split_ifs at hsame with hcond
      · by_cases hack : state.hasAck
        · have hlast := congrArg ClientReplicationState.lastAckedSnapshot hsame
          exact ne_of_newer (hnew hack) hlast.symm
        · exact hack (by rw [hsame])
      · rw [not_or, not_not] at hcond
        exact hcond.2 (hnew hcond.1)
    · intro hold
      rw [Classical.not_imp] at hold
      rw [if_neg (by simp [hold.1, hold.2])]

theorem noteReceived_eq_iff {snapshotId : UInt16} :
    rep.noteReceived snapshotId = rep ↔
      ¬newer snapshotId rep.lastReceivedSnapshot ∧ ¬newer snapshotId rep.latestReceivedSnapshot := by
  constructor
  · intro h
    refine ⟨fun hnew => ?_, fun hnew => ?_⟩
    · have hlast := congrArg NetworkReplicationManager.lastReceivedSnapshot h
      exact ne_of_newer hnew (by simpa [noteReceived, hnew] using hlast)
    · have hlast := congrArg NetworkReplicationManager.latestReceivedSnapshot h
      exact ne_of_newer hnew (by simpa [noteReceived, hnew] using hlast)
  · rintro ⟨hlast, hlatest⟩
    unfold noteReceived
    rw [if_neg hlast, if_neg hlatest]

theorem store_ne (snapshotId : UInt16) (entities : List EntitySnapshot) :
    rep.clientSnapshotBuffer.store snapshotId rep.clientTime entities ≠ rep.clientSnapshotBuffer := by
  intro h
  have hhead : (rep.clientSnapshotBuffer.head + 1) % 128 = rep.clientSnapshotBuffer.head :=
    congrArg ClientSnapshotBuffer.head h
  omega

/-- What applying a delta leaves of a manager that has noted its snapshot. -/
theorem applyDelta_eq_iff {snapshotId : UInt16} {entities : List EntitySnapshot} :
    rep.applyDelta snapshotId entities = (rep, []) ↔
      ¬if rep.predictionMode && rep.hasSnapshotCb then entities ≠ []
        else rep.interpolationEnabled ∨ rep.hasBridge ∧ entities ≠ [] := by
  unfold applyDelta
  split_ifs with hpredict hinterpolate hbridge
  · simp
  · refine iff_of_false (fun h => ?_) (fun h => h (.inl hinterpolate))
    exact store_ne _ _ (congrArg (fun r => r.1.clientSnapshotBuffer) h)
  · simp [hinterpolate, hbridge]
  · simp [hinterpolate, hbridge]

theorem applyDelta_frame (snapshotId : UInt16) (entities : List EntitySnapshot) :
    (rep.applyDelta snapshotId entities).1.lastReceivedSnapshot = rep.lastReceivedSnapshot ∧
      (rep.applyDelta snapshotId entities).1.latestReceivedSnapshot = rep.latestReceivedSnapshot := by
  unfold applyDelta
  split_ifs <;> exact ⟨rfl, rfl⟩

theorem onReceiveDelta_eq_iff {data : Bytes} :
    rep.onReceiveDelta data = (rep, []) ↔ ¬rep.Takes data := by
  unfold onReceiveDelta Takes
  by_cases hlen : data.length < 4
  · rw [if_pos hlen]
    exact iff_of_true rfl fun h => by omega
  · rw [if_neg hlen]
    have hnoted : (rep.noteReceived (readBe16 data)).applyDelta (readBe16 data)
        (deltaEntities data) = (rep, []) → rep.noteReceived (readBe16 data) = rep := by
      intro h
      obtain ⟨hlast, hlatest⟩ :=
        (rep.noteReceived (readBe16 data)).applyDelta_frame (readBe16 data) (deltaEntities data)
      rw [h] at hlast hlatest
      unfold noteReceived at hlast hlatest ⊢
      dsimp only at hlast hlatest
      rw [← hlast, ← hlatest]
    constructor
    · rintro h ⟨-, htakes⟩
      have hsame := hnoted h
      rw [hsame, applyDelta_eq_iff] at h
      obtain ⟨hlast, hlatest⟩ := noteReceived_eq_iff.mp hsame
      rcases htakes with hnew | hnew | htakes
      · exact hlast hnew
      · exact hlatest hnew
      · exact h htakes
    · intro h
      rw [not_and] at h
      have hno := h (not_lt.mp hlen)
      rw [not_or, not_or] at hno
      rw [noteReceived_eq_iff.mpr ⟨hno.1, hno.2.1⟩, applyDelta_eq_iff]
      exact hno.2.2

end NetworkReplicationManager

namespace NetworkManager

variable {σ : Type} {T : ℕ → ITransport σ}

/-! ### The standing of a client -/

structure Standing where
  localClientId : ClientId
  clientConnected : Bool
  netTime : NetworkTime
  entityManager : Option NetworkEntityManager
  replicationManager : Option NetworkReplicationManager
  /-- what `pop_message` hands out -/
  messages : List ReceivedMessage
  /-- the calls of the bridges and of the RPC handlers -/
  acts : List AppCall

def standing (net : NetworkManager σ) : Standing where
  localClientId := net.localClientId
  clientConnected := net.clientConnected
  netTime := net.netTime
  entityManager := net.entityManager
  replicationManager := net.replicationManager
  messages := net.messageQueue
  acts := net.calls.filter fun c => ¬c.IsCallback

/-- The system message has an effect on the standing of a client. -/
def Sways (env : PacketEnv) (type : UInt8) (data : Bytes) (net : NetworkManager σ) : Prop :=
  if type = SysType.connectAccept then
    8 ≤ data.length ∧ ¬(net.clientConnected ∧ net.localClientId = readBe64 data ∧
      ∀ rep ∈ net.replicationManager,
        lookup Prod.fst (readBe64 data) rep.clientStates = some (readBe64 data, {}))
  else if type = SysType.connectReject then net.clientConnected = true
  else if type = SysType.disconnectNotify then
    net.clientConnected ∨ net.localClientId ≠ 0 ∨
      ∃ rep ∈ net.replicationManager, ∃ c ∈ rep.clientStates, c.1 = 0
  else if type = SysType.timeSyncResponse then 24 ≤ data.length
  else if type = SysType.entitySpawn then ∃ em ∈ net.entityManager, em.Spawns data
  else if type = SysType.entityDestroy then ∃ em ∈ net.entityManager, em.Destroys data
  else if type = SysType.entitySetOwner then ∃ em ∈ net.entityManager, em.Reassigns data
  else if type = SysType.deltaState then ∃ rep ∈ net.replicationManager, rep.Takes data
  else if type = SysType.snapshotAck then
    2 ≤ data.length ∧ ∃ rep ∈ net.replicationManager, rep.Acknowledges 0 (readBe16 data)
  else if type = SysType.rpc then ∃ rpc ∈ net.rpcManager, rpc.Accepts env.now 0 data
  else False

/-- The packet is a user message, or a system message that has an effect. -/
def Intrudes (env : PacketEnv) (buffer : Bytes) (net : NetworkManager σ) : Prop :=
  buffer ≠ [] ∧ buffer.length ≤ net.config.maxPacketSize ∧
    (isSystem buffer → net.Sways env (buffer.getD 2 0) (buffer.drop 3))

section
variable (net : NetworkManager σ)

theorem standing_acted (calls : List AppCall) : (net.called calls).standing =
    { net.standing with acts := net.standing.acts ++ calls.filter fun c => ¬c.IsCallback } := by
  unfold standing called
  dsimp only
  rw [List.filter_append]

theorem standing_called {calls : List AppCall} (h : ∀ c ∈ calls, c.IsCallback) :
    (net.called calls).standing = net.standing := by
  have hnil : calls.filter (fun c => ¬c.IsCallback) = [] :=
    List.filter_eq_nil_iff.mpr fun c hc => by simpa using h c hc
  rw [standing_acted, hnil, List.append_nil]

@[simp] theorem standing_callOnConnected (client : ClientId) :
    (net.callOnConnected client).standing = net.standing := by
  unfold callOnConnected
  split_ifs
  · exact standing_called net fun c hc => by rw [List.mem_singleton.mp hc]; trivial
  · rfl

@[simp] theorem standing_callOnDisconnected (client : ClientId) :
    (net.callOnDisconnected client).standing = net.standing := by
  unfold callOnDisconnected
  split_ifs
  · exact standing_called net fun c hc => by rw [List.mem_singleton.mp hc]; trivial
  · rfl

@[simp] theorem standing_flushToCallbacks (client : ClientId) (data : Bytes) :
    (net.flushToCallbacks client data).standing = net.standing := by
  unfold flushToCallbacks
  split_ifs
  · exact standing_called net fun c hc => by rw [List.mem_singleton.mp hc]; trivial
  · rfl

@[simp] theorem standing_disconnectTransport :
    (net.disconnectTransport T).standing = net.standing := by
  unfold disconnectTransport
  split <;> rfl

theorem standing_tellReplication (f : NetworkReplicationManager → NetworkReplicationManager) :
    (net.tellReplication f).standing =
      { net.standing with replicationManager := net.standing.replicationManager.map f } := rfl

theorem map_eq_self_iff {α : Type*} {f : α → α} {o : Option α} :
    o.map f = o ↔ ∀ a ∈ o, f a = a := by
  rcases o with _ | a <;> simp

variable {net}

theorem standing_onConnectAccept {data : Bytes} (hmode : net.mode = .client) :
    (net.onConnectAccept data).standing = net.standing ↔
      ¬(8 ≤ data.length ∧ ¬(net.clientConnected ∧ net.localClientId = readBe64 data ∧
        ∀ rep ∈ net.replicationManager,
          lookup Prod.fst (readBe64 data) rep.clientStates = some (readBe64 data, {}))) := by
  have hjoining : net.joining := by simp [joining, hmode]
  unfold onConnectAccept
  rw [if_neg (by simp [hjoining])]
  by_cases hlen : data.length < 8
  · rw [if_pos hlen]
    exact iff_of_true rfl fun h => by omega
  · rw [if_neg hlen, not_and_not_right]
    dsimp only
    rw [standing_tellReplication, standing_callOnConnected]
    unfold standing
    simp only [Standing.mk.injEq, true_and, and_true, map_eq_self_iff,
      NetworkReplicationManager.onClientConnected, NetworkReplicationManager.setClientState_eq_iff]
    constructor
    · rintro ⟨hid, hconnected, hrep⟩ _
      exact ⟨hconnected.symm, hid.symm, hrep⟩
    · intro h
      obtain ⟨hconnected, hid, hrep⟩ := h (not_lt.mp hlen)
      exact ⟨hid.symm, hconnected.symm, hrep⟩

theorem standing_onConnectReject (hmode : net.mode = .client) :
    (net.onConnectReject T).standing = net.standing ↔ ¬net.clientConnected := by
  have hjoining : net.joining := by simp [joining, hmode]
  have hsame : (net.onConnectReject T).standing =
      { net.standing with clientConnected := false } := by
    unfold onConnectReject
    rw [if_neg (by simp [hjoining])]
    have hrest := standing_disconnectTransport (T := T) { net with awaitingAccept := false }
    exact congrArg (fun s : Standing => { s with clientConnected := false }) hrest
  rw [hsame]
  unfold standing
  rcases net.clientConnected <;> simp

theorem standing_onDisconnectNotify {sender : Address} (hmode : net.mode = .client) :
    (net.onDisconnectNotify T sender).standing = net.standing ↔
      ¬(net.clientConnected ∨ net.localClientId ≠ 0 ∨
        ∃ rep ∈ net.replicationManager, ∃ c ∈ rep.clientStates, c.1 = 0) := by
  have hserving : ¬net.serving := by simp [serving, hmode]
  unfold onDisconnectNotify
  rw [if_neg hserving, if_pos hmode]
  dsimp only
  rw [standing_tellReplication, standing_callOnDisconnected, standing_disconnectTransport]
  unfold standing
  simp only [Standing.mk.injEq, true_and, and_true, map_eq_self_iff,
    NetworkReplicationManager.onClientDisconnected_eq_iff]
  constructor
  · rintro ⟨hid, hconnected, hrep⟩ (hc | hi | ⟨rep, hrep', c, hc, hzero⟩)
    · rw [hc] at hconnected
      cases hconnected
    · exact hi hid.symm
    · exact hrep rep hrep' c hc hzero
  · intro h
    rw [not_or, not_or, not_not] at h
    obtain ⟨hconnected, hid, hrep⟩ := h
    refine ⟨hid.symm, by simpa using hconnected, fun rep hrep' c hc hzero => ?_⟩
    exact hrep ⟨rep, hrep', c, hc, hzero⟩

theorem recordSample_ne (time : NetworkTime) (t0 t1 t2 t3 : ℚ) :
    time.recordSample t0 t1 t2 t3 ≠ time := by
  intro h
  have hcount := congrArg NetworkTime.sampleCount h
  unfold NetworkTime.recordSample at hcount
  split_ifs at hcount with hzero
  · rw [hzero] at hcount
    cases hcount
  · have hone := UInt32.add_eq_left.mp hcount
    cases hone

theorem standing_onTimeSyncResponse {env : PacketEnv} {data : Bytes} (hmode : net.mode = .client) :
    (net.onTimeSyncResponse env data).standing = net.standing ↔ ¬24 ≤ data.length := by
  have hjoining : net.joining := by simp [joining, hmode]
  unfold onTimeSyncResponse
  rw [if_neg (by simp [hjoining])]
  by_cases hlen : data.length < 24
  · rw [if_pos hlen]
    exact iff_of_true rfl (not_le.mpr hlen)
  · rw [if_neg hlen]
    refine iff_of_false (fun h => ?_) (not_not_intro (not_lt.mp hlen))
    exact recordSample_ne _ _ _ _ _ (congrArg Standing.netTime h)

theorem standing_tellEntities {f : NetworkEntityManager → NetworkEntityManager × List AppCall}
    (hcalls : ∀ em, (f em).1 = em → (f em).2 = []) :
    (net.tellEntities f).standing = net.standing ↔ ∀ em ∈ net.entityManager, (f em).1 = em := by
  unfold tellEntities
  rcases hem : net.entityManager with _ | em
  · simp
  · dsimp only
    constructor
    · intro h em' hem'
      cases hem'
      have hsame := congrArg Standing.entityManager h
      exact Option.some.inj (hsame.trans hem)
    · intro h
      have hsame := h em rfl
      rw [hsame, hcalls em hsame, ← hem]
      exact standing_called net fun c hc => absurd hc List.not_mem_nil

theorem standing_onDeltaState {data : Bytes} :
    (net.onDeltaState data).standing = net.standing ↔
      ¬∃ rep ∈ net.replicationManager, rep.Takes data := by
  unfold onDeltaState
  rcases hrep : net.replicationManager with _ | rep
  · simp
  · have hpair : ({ net with replicationManager := some (rep.onReceiveDelta data).1 }.called
        (rep.onReceiveDelta data).2).standing = net.standing ↔ rep.onReceiveDelta data = (rep, []) := by
      have hstate : ∀ c ∈ (rep.onReceiveDelta data).2, ¬c.IsCallback := by
        intro c hc
        have hkind := NetworkReplicationManager.onReceiveDelta_kind hc
        cases c <;> first | exact not_false | cases hkind
      have hkept : (rep.onReceiveDelta data).2.filter (fun c => ¬c.IsCallback) =
          (rep.onReceiveDelta data).2 := List.filter_eq_self.mpr fun c hc => by simpa using hstate c hc
      rw [standing_acted, hkept]
      unfold standing
      simp [Prod.ext_iff, hrep]
    rw [hpair, NetworkReplicationManager.onReceiveDelta_eq_iff]
    simp

theorem standing_onSnapshotAck {client : ClientId} {data : Bytes} :
    (net.onSnapshotAck client data).standing = net.standing ↔
      ¬(2 ≤ data.length ∧
        ∃ rep ∈ net.replicationManager, rep.Acknowledges client (readBe16 data)) := by
  unfold onSnapshotAck
  by_cases hlen : data.length ≥ 2
  · rw [if_pos hlen, standing_tellReplication]
    unfold standing
    simp only [Standing.mk.injEq, true_and, and_true, map_eq_self_iff,
      NetworkReplicationManager.onSnapshotAck_eq_iff]
    simp [hlen]
  · rw [if_neg hlen]
    exact iff_of_true rfl fun h => hlen h.1

theorem standing_onRpc {env : PacketEnv} {client : ClientId} {sender : Address} {data : Bytes}
    (hmode : net.mode = .client) :
    (net.onRpc T env client sender data).standing = net.standing ↔
      ¬∃ rpc ∈ net.rpcManager, rpc.Accepts env.now client data := by
  have hserving : ¬net.serving := by simp [serving, hmode]
  have hallow : net.allowRpc env sender = (net, true) := if_neg hserving
  unfold onRpc
  rw [hallow]
  rcases hrpc : net.rpcManager with _ | rpc
  · simp
  · dsimp only
    rw [if_pos rfl, standing_acted]
    generalize hrenv : (⟨env.now, net.networkTime env.now, net.clientRtt T client⟩ :
      RpcManager.ReceiveEnv) = renv
    have hnow : env.now = renv.now := congrArg RpcManager.ReceiveEnv.now hrenv
    rw [hnow]
    by_cases haccepts : rpc.Accepts renv.now client data
    · refine iff_of_false (fun h => ?_) (not_not_intro ⟨rpc, rfl, haccepts⟩)
      have hacts := congrArg Standing.acts h
      rw [RpcManager.onReceive_accepted haccepts] at hacts
      exact absurd (List.append_right_eq_self.mp hacts) (List.cons_ne_nil _ _)
    · refine iff_of_true ?_ ?_
      · rw [RpcManager.onReceive_rejected haccepts]
        exact congrArg (fun acts => { net.standing with acts := acts }) (List.append_nil _)
      · rintro ⟨_, hsame, hacc⟩
        cases hsame
        exact haccepts hacc

theorem standing_entityFullState {data : Bytes} :
    (net.tellEntities fun em => (em.onReceiveFullState data, [])).standing = net.standing :=
  (standing_tellEntities fun _ _ => rfl).mpr fun _ _ => rfl

theorem standing_entity {f : NetworkEntityManager → NetworkEntityManager × List AppCall}
    {P : NetworkEntityManager → Prop} (hiff : ∀ em, (f em).1 = em ↔ ¬P em)
    (hidle : ∀ em, (f em).1 = em → (f em).2 = []) :
    (net.tellEntities f).standing = net.standing ↔ ¬∃ em ∈ net.entityManager, P em := by
  rw [standing_tellEntities hidle]
  simp only [hiff, not_exists, not_and]

/-- A client's standing is changed by the messages that sway it, whoever sent them. -/
theorem standing_processSystemMessage {env : PacketEnv} {sender : Address} {t : ℕ} {type : UInt8}
    {data : Bytes} (hmode : net.mode = .client) :
    (net.processSystemMessage T env 0 sender t type data).standing = net.standing ↔
      ¬net.Sways env type data := by
  have hserving : ¬net.serving := by simp [serving, hmode]
  by_cases haccept : type = SysType.connectAccept
  · rw [haccept]
    exact standing_onConnectAccept hmode
  by_cases hreject : type = SysType.connectReject
  · rw [hreject]
    exact standing_onConnectReject hmode
  by_cases hnotify : type = SysType.disconnectNotify
  · rw [hnotify]
    exact standing_onDisconnectNotify hmode
  by_cases hsync : type = SysType.timeSyncResponse
  · rw [hsync]
    exact standing_onTimeSyncResponse hmode
  by_cases hspawn : type = SysType.entitySpawn
  · rw [hspawn]
    exact standing_entity (fun em => em.onReceiveSpawn_eq_iff env.handle) fun em =>
      em.onReceiveSpawn_idle
  by_cases hdestroy : type = SysType.entityDestroy
  · rw [hdestroy]
    exact standing_entity (fun em => em.onReceiveDestroy_eq_iff) fun em => em.onReceiveDestroy_idle
  by_cases howner : type = SysType.entitySetOwner
  · rw [howner]
    exact standing_entity (fun em => em.onReceiveSetOwner_eq_iff) fun _ _ => rfl
  by_cases hdelta : type = SysType.deltaState
  · rw [hdelta]
    exact standing_onDeltaState
  by_cases hack : type = SysType.snapshotAck
  · rw [hack]
    exact standing_onSnapshotAck
  by_cases hrpc : type = SysType.rpc
  · rw [hrpc]
    exact standing_onRpc hmode
  · have hno : ¬net.Sways env type data := by
      unfold Sways
      rw [if_neg haccept, if_neg hreject, if_neg hnotify, if_neg hsync, if_neg hspawn,
        if_neg hdestroy, if_neg howner, if_neg hdelta, if_neg hack, if_neg hrpc]
      exact not_false
    refine iff_of_true ?_ hno
    apply processSystemMessage_cases (P := fun next => next.standing = net.standing)
    case connectRequest =>
      intro _
      unfold onConnectRequest
      rw [if_pos (by simp [hserving])]
    case timeSyncRequest =>
      intro _
      unfold onTimeSyncRequest
      rw [if_pos (by simp [hserving])]
    case entityFullState => exact fun _ => standing_entityFullState
    case unknown => rfl
    case connectAccept => exact fun h => absurd h haccept
    case connectReject => exact fun h => absurd h hreject
    case disconnectNotify => exact fun h => absurd h hnotify
    case timeSyncResponse => exact fun h => absurd h hsync
    case entitySpawn => exact fun h => absurd h hspawn
    case entityDestroy => exact fun h => absurd h hdestroy
    case entitySetOwner => exact fun h => absurd h howner
    case deltaState => exact fun h => absurd h hdelta
    case snapshotAck => exact fun h => absurd h hack
    case rpc => exact fun h => absurd h hrpc

end

/-- Processing a packet leaves a client's standing as it was exactly if the packet does not intrude:
who sent it makes no difference. -/
theorem clientTrust (T : ℕ → ITransport σ) (net : NetworkManager σ) (env : PacketEnv) (t : ℕ)
    (buffer : Bytes) (sender : Address) (hmode : net.mode = .client) :
    (net.handlePacket T env t buffer sender).standing = net.standing ↔ ¬net.Intrudes env buffer := by
  have hserving : ¬net.serving := by simp [serving, hmode]
  unfold handlePacket Intrudes
  by_cases hne : buffer = []
  · rw [if_pos hne]
    exact iff_of_true rfl fun h => h.1 hne
  rw [if_neg hne]
  by_cases hfits : buffer.length > net.config.maxPacketSize
  · rw [if_pos hfits]
    unfold onOversized
    rw [if_pos (by simp [hserving])]
    exact iff_of_true rfl fun h => absurd h.2.1 (not_le.mpr hfits)
  rw [if_neg hfits]
  have hlen := not_lt.mp hfits
  by_cases hsys : isSystem buffer
  · rw [if_pos hsys]
    unfold onSystem
    dsimp only
    rw [if_neg hserving, standing_processSystemMessage hmode, not_iff_not]
    exact ⟨fun h => ⟨hne, hlen, fun _ => h⟩, fun h => h.2.2 hsys⟩
  · rw [if_neg hsys]
    unfold onUser
    rw [if_neg hserving, if_pos hmode, standing_flushToCallbacks]
    refine iff_of_false (fun h => ?_) (not_not_intro ⟨hne, hlen, fun h => absurd h hsys⟩)
    have hmessages : net.messageQueue ++ [⟨0, buffer⟩] = net.messageQueue :=
      congrArg Standing.messages h
    exact absurd (List.append_right_eq_self.mp hmessages) (List.cons_ne_nil _ _)

/-! ### A stranger on the network -/

def udp : ℕ → ITransport UdpHost := fun _ => UdpTransport.iTransport

def stranger : Address := .ofIPv4 10 0 0 66 666

/-- A client that its server has accepted, with an RPC that the server alone may invoke. -/
def acceptedClient (incoming : List Udp.Arrival) : NetworkManager UdpHost where
  mode := .client
  config := { mode := .client, serverAddress := .ofIPv4 10 0 0 1 7777 }
  world :=
    { impl :=
        { socketOpen := true, mode := .client
          connections := [{ address := .ofIPv4 10 0 0 1 7777, state := .connected }] }
      platform := ⟨fun _ => 0⟩
      env := ⟨0, fun _ => true⟩
      incoming := incoming }
  transport := some 0
  clientConnected := true
  localClientId := 1
  rpcManager := some { hasNet := true, handlers := [(7, .serverOnly)] }

/-- A payload as the stranger sends it: he has no connection, and needs none. -/
def fromStranger (payload : Bytes) : Udp.Arrival where
  sender := stranger
  bytes := (Udp.userHeader PacketReliability.unreliable.index {} 0 payload.length).serialize ++ payload
  env := ⟨0, fun _ => true⟩

theorem clientTrust_pong :
    ((acceptedClient []).handlePacket udp packetEnv 0 (sysPacket SysType.timeSyncResponse [])
      stranger).standing = (acceptedClient []).standing :=
  (clientTrust udp (acceptedClient []) packetEnv 0 (sysPacket SysType.timeSyncResponse []) stranger
    rfl).mpr fun h => absurd (h.2.2 rfl) (show ¬24 ≤ ([] : Bytes).length by decide)

/-- The client polls, hands out the stranger's message and invokes the handler for him. -/
theorem clientTrust_stranger :
    stranger ≠ (acceptedClient []).config.serverAddress ∧
      ((acceptedClient [fromStranger (sysPacket SysType.rpc (be16 7)), fromStranger [1]]).step udp
        (.poll ⟨0, zeroFormat, [packetEnv, packetEnv]⟩)).map
          (fun net => (net.popMessage.2, net.calls)) =
        some (some ⟨0, [1]⟩, [.rpc 7 {} []]) := by
  decide +kernel

end NetworkManager

end CampelloNet
