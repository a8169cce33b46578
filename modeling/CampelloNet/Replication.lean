import CampelloNet.Application
import CampelloNet.Lib.Floats
import CampelloNet.Lib.Keyed
import Mathlib.Data.Finset.Basic
import Mathlib.Logic.Function.Basic

/-!
# State replication

`SnapshotHistory`, the receive side's snapshot buffer and `NetworkReplicationManager`, server and
client. Spans into a blob are the byte strings they cover; `Replication.Memory` has the blobs. What the
bridge, the interest filter and the manager answer during a tick is the `TickEnv` of the tick. Hash
maps and sets are visited in the order in which their elements were inserted.
-/

namespace CampelloNet

open Lib

/-- `EntitySnapshot`: an entity and its serialised bytes. -/
abbrev EntitySnapshot := NetworkId × Bytes

namespace Replication

def MAX_SNAPSHOTS : ℕ := 128

/-- `static_cast<std::int16_t>(a - b) > 0` -/
def newer (a b : UInt16) : Bool := 0 < (a - b).toNat && (a - b).toNat < 2 ^ 15

structure Snapshot where
  id : UInt16 := 0
  entities : List EntitySnapshot := []

/-- `ClientSnapshotBuffer::Snapshot` -/
structure BufferedSnapshot where
  snapshotId : UInt16 := 0
  receiveTime : ℚ := 0
  entities : List EntitySnapshot := []

structure ClientReplicationState where
  lastAckedSnapshot : UInt16 := 0
  hasAck : Bool := false
  visibleEntities : Finset NetworkId := ∅
  deriving DecidableEq

end Replication

open Replication

/-! ### Rings of snapshots -/

structure SnapshotHistory where
  snapshots : ℕ → Snapshot := fun _ => {}
  count : ℕ := 0
  /-- the index of the snapshot stored last -/
  head : ℕ := 0

namespace SnapshotHistory

def store (snapshotId : UInt16) (entities : List EntitySnapshot) (h : SnapshotHistory) :
    SnapshotHistory :=
  let head := (h.head + 1) % MAX_SNAPSHOTS
  { snapshots := Function.update h.snapshots head ⟨snapshotId, entities⟩
    count := if h.count < MAX_SNAPSHOTS then h.count + 1 else h.count
    head := head }

def retrieve (snapshotId : UInt16) (h : SnapshotHistory) : Option (List EntitySnapshot) :=
  if h.count = 0 then none
  else
    let delta := ((h.snapshots h.head).id - snapshotId).toNat
    if h.count ≤ delta then none
    else some (h.snapshots ((h.head + MAX_SNAPSHOTS - delta) % MAX_SNAPSHOTS)).entities

end SnapshotHistory

structure ClientSnapshotBuffer where
  snapshots : ℕ → BufferedSnapshot := fun _ => {}
  count : ℕ := 0
  head : ℕ := 0

def ClientSnapshotBuffer.store (snapshotId : UInt16) (receiveTime : ℚ)
    (entities : List EntitySnapshot) (b : ClientSnapshotBuffer) : ClientSnapshotBuffer :=
  let head := (b.head + 1) % MAX_SNAPSHOTS
  { snapshots := Function.update b.snapshots head ⟨snapshotId, receiveTime, entities⟩
    count := if b.count < MAX_SNAPSHOTS then b.count + 1 else b.count
    head := head }

/-! ### The manager -/

structure NetworkReplicationManager where
  hasBridge : Bool := false
  hasEntityMgr : Bool := false
  dirtyEntities : List NetworkId := []
  snapshotId : UInt16 := 0
  /-- 0 for never -/
  fullSyncInterval : UInt16 := 10
  maxBaselineAge : UInt16 := 64
  tickRate : ℚ := 30
  accumulator : FloatValue := .finite 0
  snapshotHistory : SnapshotHistory := {}
  clientStates : List (ClientId × ClientReplicationState) := []
  hasInterestFilter : Bool := false
  lastReceivedSnapshot : UInt16 := 0
  clientAckAccumulator : FloatValue := .finite 0
  interpolationEnabled : Bool := false
  clientSnapshotBuffer : ClientSnapshotBuffer := {}
  clientTime : ℚ := 0
  interpolationDelay : ℚ := 0
  predictionMode : Bool := false
  hasSnapshotCb : Bool := false
  latestReceivedSnapshot : UInt16 := 0

/-- What `build_and_send_snapshot` is told by the others. -/
structure TickEnv where
  /-- the answer of `serialize_entity`, `none` for false -/
  serialize : NetworkId → Option Bytes
  interested : NetworkId → ClientId → Bool := fun _ _ => true
  /-- `net.is_client_connected` -/
  connected : ClientId → Bool
  /-- the entities that `for_each_entity` visits -/
  entities : List NetworkId

namespace NetworkReplicationManager

/-- The time between ticks. -/
def targetDt (tickRate : ℚ) : FloatValue := binary32.inverse tickRate

def markDirty (netId : NetworkId) (rep : NetworkReplicationManager) : NetworkReplicationManager :=
  { rep with dirtyEntities := if netId ∈ rep.dirtyEntities then rep.dirtyEntities
      else rep.dirtyEntities ++ [netId] }

def clientState (client : ClientId) (rep : NetworkReplicationManager) : ClientReplicationState :=
  ((lookup Prod.fst client rep.clientStates).map Prod.snd).getD {}

def setClientState (client : ClientId) (state : ClientReplicationState)
    (rep : NetworkReplicationManager) : NetworkReplicationManager :=
  { rep with clientStates := upsert Prod.fst (client, state) rep.clientStates }

/-- The entry of a client that has none is created. -/
def onSnapshotAck (client : ClientId) (snapshotId : UInt16) (rep : NetworkReplicationManager) :
    NetworkReplicationManager :=
  let state := rep.clientState client
  rep.setClientState client
    (if ¬state.hasAck ∨ newer snapshotId state.lastAckedSnapshot then
      { state with lastAckedSnapshot := snapshotId, hasAck := true }
    else state)

def onClientConnected (client : ClientId) (rep : NetworkReplicationManager) :
    NetworkReplicationManager :=
  rep.setClientState client {}

def onClientDisconnected (client : ClientId) (rep : NetworkReplicationManager) :
    NetworkReplicationManager :=
  { rep with clientStates := rep.clientStates.filter fun c => c.1 ≠ client }

section
variable {rep : NetworkReplicationManager} {client client' : ClientId} {state : ClientReplicationState}

theorem lookup_setClientState :
    lookup Prod.fst client (rep.setClientState client state).clientStates = some (client, state) :=
  lookup_upsert_self (client, state) rep.clientStates

theorem lookup_setClientState_ne (h : client' ≠ client) :
    lookup Prod.fst client' (rep.setClientState client state).clientStates =
      lookup Prod.fst client' rep.clientStates :=
  lookup_upsert_ne (client, state) rep.clientStates h.symm

theorem clientState_setClientState : (rep.setClientState client state).clientState client' =
    if client' = client then state else rep.clientState client' := by
  unfold clientState
  split_ifs with h
  · rw [h, lookup_setClientState]
    rfl
  · rw [lookup_setClientState_ne h]

theorem clientState_onClientDisconnected : (rep.onClientDisconnected client).clientState client' =
    if client' = client then {} else rep.clientState client' := by
  unfold clientState onClientDisconnected
  split_ifs with h
  · rw [h, lookup_erased]
    rfl
  · rw [lookup_erased_ne h]

/-- An ack does not touch what is visible. -/
theorem visible_onSnapshotAck {id : UInt16} :
    ((rep.onSnapshotAck client id).clientState client').visibleEntities =
      (rep.clientState client').visibleEntities := by
  unfold onSnapshotAck
  rw [clientState_setClientState]
  split_ifs with h
  · rw [h]
  · rw [h]
  · rfl

end

/-! ### Snapshot building -/

/-- The bytes differ from those of the baseline, or the baseline has none. -/
def changed (baseline : List EntitySnapshot) (cur : EntitySnapshot) : Bool :=
  match lookup Prod.fst cur.1 baseline with
  | none => true
  | some base => base.2 ≠ cur.2

/-- The delta for one client and the entities that are then visible to it. -/
def scratchDelta (useInterest : Bool) (interested : NetworkId → Bool)
    (baseline : List EntitySnapshot) :
    Finset NetworkId → List EntitySnapshot → Finset NetworkId × List EntitySnapshot
  | visible, [] => (visible, [])
  | visible, cur :: rest =>
    if useInterest && !interested cur.1 then
      scratchDelta useInterest interested baseline (visible.erase cur.1) rest
    else if useInterest && decide (cur.1 ∉ visible) then
      let (visible, delta) := scratchDelta useInterest interested baseline (insert cur.1 visible) rest
      (visible, cur :: delta)
    else
      let (visible, delta) := scratchDelta useInterest interested baseline visible rest
      (visible, if changed baseline cur then cur :: delta else delta)

/-- The entities of a full send to one client and the entities that are then visible to it. -/
def scratchFiltered {β : Type} (useInterest : Bool) (interested : NetworkId → Bool)
    (visible : Finset NetworkId) (snap : List (NetworkId × β)) :
    Finset NetworkId × List (NetworkId × β) :=
  if useInterest then
    (snap.foldl (fun visible ent =>
      if interested ent.1 then insert ent.1 visible else visible.erase ent.1) visible,
      snap.filter fun ent => interested ent.1)
  else (visible, snap)

/-- What is sent to one connected client, and its state after it. -/
def snapshotFor (env : TickEnv) (forceFullSync : Bool) (snap : List EntitySnapshot)
    (rep : NetworkReplicationManager) (client : ClientId) (state : ClientReplicationState) :
    ClientReplicationState × List EntitySnapshot :=
  let full := scratchFiltered rep.hasInterestFilter (env.interested · client)
    state.visibleEntities snap
  if forceFullSync || !state.hasAck then ({ state with visibleEntities := full.1 }, full.2)
  else
    match rep.snapshotHistory.retrieve state.lastAckedSnapshot with
    | none => ({ state with visibleEntities := full.1 }, full.2)
    | some baseline =>
      if rep.snapshotId - state.lastAckedSnapshot > rep.maxBaselineAge then
        ({ state with visibleEntities := full.1 }, full.2)
      else
        let delta := scratchDelta rep.hasInterestFilter (env.interested · client) baseline
          state.visibleEntities snap
        ({ state with visibleEntities := delta.1 }, delta.2)

/-- One entity of a snapshot packet. -/
def entityBytes (ent : EntitySnapshot) : Bytes :=
  let dataLen := UInt16.ofNat ent.2.length
  be64 ent.1 ++ be16 dataLen ++ ent.2.take dataLen.toNat

/-- The system message of `send_snapshot_to_client`. -/
def snapshotMessage (snapshotId : UInt16) (entities : List EntitySnapshot) : Bytes :=
  [0xCA, 0xFE, 0x20] ++ be16 snapshotId ++ be16 (UInt16.ofNat entities.length) ++
    entities.flatMap entityBytes

def forceFullSync (rep : NetworkReplicationManager) : Bool :=
  rep.fullSyncInterval > 0 && rep.snapshotId % rep.fullSyncInterval == 0

/-- The entities that are serialised at a tick. -/
def snapshotEntities (env : TickEnv) (rep : NetworkReplicationManager) : List NetworkId :=
  let anyNeedsFull := rep.forceFullSync ||
    rep.clientStates.any fun c => env.connected c.1 && !c.2.hasAck
  let buildFull := rep.hasInterestFilter || (anyNeedsFull && rep.hasEntityMgr)
  if buildFull && rep.hasEntityMgr then env.entities else rep.dirtyEntities

/-- The current snapshot. -/
def scratchSnap (env : TickEnv) (rep : NetworkReplicationManager) : List EntitySnapshot :=
  (rep.snapshotEntities env).filterMap fun id => (env.serialize id).map fun data => (id, data)

/-- The snapshot is built and stored; the messages are what is passed to `net.send`. -/
def buildAndSendSnapshot (env : TickEnv) (rep : NetworkReplicationManager) :
    NetworkReplicationManager × List (ClientId × Bytes) :=
  if rep.clientStates.isEmpty then ({ rep with dirtyEntities := [] }, [])
  else
    let snap := rep.scratchSnap env
    let rep := { rep with snapshotHistory := rep.snapshotHistory.store rep.snapshotId snap }
    let sent := rep.clientStates.map fun c =>
      if env.connected c.1 then
        (c.1, rep.snapshotFor env rep.forceFullSync snap c.1 c.2)
      else (c.1, c.2, [])
    ({ rep with dirtyEntities := [], clientStates := sent.map fun c => (c.1, c.2.1) },
      (sent.filter fun c => !c.2.2.isEmpty).map fun c =>
        (c.1, snapshotMessage rep.snapshotId c.2.2))

/-- The loop of `server_tick`, one environment for each snapshot. -/
def serverTickLoop : List TickEnv → NetworkReplicationManager →
    Option (NetworkReplicationManager × List (ClientId × Bytes))
  | envs, rep =>
    if targetDt rep.tickRate ≤ rep.accumulator then
      match envs with
      | [] => none
      | env :: envs =>
        let (rep, sent) := buildAndSendSnapshot env
          { rep with
            accumulator := binary32.sub rep.accumulator (targetDt rep.tickRate)
            snapshotId := rep.snapshotId + 1 }
        (serverTickLoop envs rep).map fun out => (out.1, sent ++ out.2)
    else some (rep, [])

/-- `server_tick` of a manager in Server or Host mode. -/
def serverTick (deltaTime : ℚ) (envs : List TickEnv) (rep : NetworkReplicationManager) :
    Option (NetworkReplicationManager × List (ClientId × Bytes)) :=
  if rep.hasBridge then
    serverTickLoop envs { rep with accumulator := binary32.add rep.accumulator (.finite deltaTime) }
  else some (rep, [])

/-! ### Client -/

/-- The entities of a snapshot packet, up to the first that the packet does not hold whole. -/
def parseEntities : ℕ → Bytes → List EntitySnapshot
  | 0, _ => []
  | n + 1, data =>
    if data.length < 10 then []
    else
      let dataLen := (readBe16 (data.drop 8)).toNat
      let body := data.drop 10
      if body.length < dataLen then []
      else (readBe64 data, body.take dataLen) :: parseEntities n (body.drop dataLen)

/-- The entities of a delta message. -/
def deltaEntities (data : Bytes) : List EntitySnapshot :=
  parseEntities (readBe16 (data.drop 2)).toNat (data.drop 4)

/-- The newest snapshot received, for the ack and for interpolation. -/
def noteReceived (snapshotId : UInt16) (rep : NetworkReplicationManager) :
    NetworkReplicationManager :=
  { rep with
    lastReceivedSnapshot :=
      if newer snapshotId rep.lastReceivedSnapshot then snapshotId else rep.lastReceivedSnapshot
    latestReceivedSnapshot :=
      if newer snapshotId rep.latestReceivedSnapshot then snapshotId else rep.latestReceivedSnapshot }

/-- Prediction, interpolation, or at once. -/
def applyDelta (snapshotId : UInt16) (entities : List EntitySnapshot)
    (rep : NetworkReplicationManager) : NetworkReplicationManager × List AppCall :=
  if rep.predictionMode && rep.hasSnapshotCb then
    (rep, entities.map fun ent => .snapshotReceived ent.1 ent.2)
  else if rep.interpolationEnabled then
    ({ rep with clientSnapshotBuffer :=
        rep.clientSnapshotBuffer.store snapshotId rep.clientTime entities }, [])
  else if rep.hasBridge then (rep, entities.map fun ent => .deserializeEntity ent.1 ent.2)
  else (rep, [])

def onReceiveDelta (data : Bytes) (rep : NetworkReplicationManager) :
    NetworkReplicationManager × List AppCall :=
  if data.length < 4 then (rep, [])
  else (rep.noteReceived (readBe16 data)).applyDelta (readBe16 data) (deltaEntities data)

def ackMessage (snapshotId : UInt16) : Bytes := [0xCA, 0xFE, 0x21] ++ be16 snapshotId

/-- The loop of `client_tick`, in at most the given number of turns. -/
def clientTickLoop : ℕ → NetworkReplicationManager →
    Option (NetworkReplicationManager × List Bytes)
  | turns, rep =>
    if targetDt rep.tickRate ≤ rep.clientAckAccumulator then
      match turns with
      | 0 => none
      | turns + 1 =>
        let acks := if rep.lastReceivedSnapshot ≠ 0 then [ackMessage rep.lastReceivedSnapshot] else []
        (clientTickLoop turns { rep with
          clientAckAccumulator := binary32.sub rep.clientAckAccumulator (targetDt rep.tickRate) }).map
            fun out => (out.1, acks ++ out.2)
    else some (rep, [])

/-- `client_tick` of a manager in Client or Host mode: the acks are passed to `net.send`. -/
def clientTick (deltaTime : ℚ) (turns : ℕ) (rep : NetworkReplicationManager) :
    Option (NetworkReplicationManager × List Bytes) :=
  clientTickLoop turns { rep with
    clientTime := rep.clientTime + deltaTime
    clientAckAccumulator := binary32.add rep.clientAckAccumulator (.finite deltaTime) }

end NetworkReplicationManager

end CampelloNet
