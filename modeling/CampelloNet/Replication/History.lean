import CampelloNet.Lib.Ring
import CampelloNet.Lib.Run
import CampelloNet.Replication.Server

/-!
# Which snapshot an id retrieves

`SnapshotHistory::retrieve` finds a snapshot by the distance of its id from the newest one's, so it
relies on ids without a gap. A tick without clients takes an id and stores no snapshot. In the runs
whose snapshots leave no gap each id retrieves its own snapshot, and in no others
(`baselines_faithful_iff`).
-/

namespace CampelloNet

open Lib Replication

/-! ### The ring of snapshots -/

namespace SnapshotHistory

/-- The slot that `retrieve` looks at, if it is one that holds a snapshot. -/
def retrieved (snapshotId : UInt16) (h : SnapshotHistory) : Option Snapshot :=
  let delta := ((h.snapshots h.head).id - snapshotId).toNat
  if h.count ≤ delta then none else some (Ring.back MAX_SNAPSHOTS h.snapshots h.head delta)

theorem retrieve_eq (snapshotId : UInt16) (h : SnapshotHistory) :
    h.retrieve snapshotId = (h.retrieved snapshotId).map Snapshot.entities := by
  unfold retrieve retrieved
  dsimp only
  by_cases hcount : h.count = 0
  · rw [if_pos hcount, if_pos (by omega)]
    rfl
  · rw [if_neg hcount]
    split_ifs <;> rfl

/-- The slots hold the snapshots that were stored last. -/
def Records (h : SnapshotHistory) (stored : List Snapshot) : Prop :=
  Ring.Records MAX_SNAPSHOTS h.snapshots h.head h.count stored

/-- Each slot has the id that its place stands for. -/
def Exact (h : SnapshotHistory) : Prop :=
  ∀ k < h.count, (Ring.back MAX_SNAPSHOTS h.snapshots h.head k).id =
    (h.snapshots h.head).id - UInt16.ofNat k

variable {h : SnapshotHistory} {stored : List Snapshot} {id : UInt16} {entities : List EntitySnapshot}

theorem Records.store (hr : h.Records stored) :
    (h.store id entities).Records (⟨id, entities⟩ :: stored) := Ring.Records.push hr _

theorem sub_sub_self (a b : UInt16) : a - (a - b) = b := by grind

theorem sub_toNat_ofNat (a : UInt16) {k : ℕ} (hk : k < 2 ^ 16) : (a - (a - UInt16.ofNat k)).toNat = k := by
  rw [sub_sub_self]
  exact UInt16.toNat_ofNat_of_lt' hk

theorem exact_iff (hr : h.Records stored) :
    h.Exact ↔ ∀ id, ∀ snap ∈ h.retrieved id, snap.id = id := by
  have hcount : h.count ≤ 128 := hr.count_le
  unfold retrieved
  constructor
  · intro hexact id snap hsnap
    dsimp only at hsnap
    split_ifs at hsnap with hdelta
    · cases hsnap
    · cases hsnap
      rw [hexact _ (by omega), UInt16.ofNat_toNat, sub_sub_self]
  · intro hall k hk
    refine hall _ _ ?_
    dsimp only
    rw [sub_toNat_ofNat _ (by omega), if_neg (by omega)]
    rfl

/-- The slot of an id is the last one that was stored under it. -/
theorem lookup_of_retrieved (hr : h.Records stored) (hexact : h.Exact) {snap : Snapshot}
    (hsnap : h.retrieved id = some snap) : lookup Snapshot.id id stored = some snap := by
  have hid := (exact_iff hr).mp hexact id snap hsnap
  have hcount : h.count ≤ 128 := hr.count_le
  unfold retrieved at hsnap
  dsimp only at hsnap
  split_ifs at hsnap with hdelta
  obtain rfl := Option.some.inj hsnap
  refine lookup_of_first (hr.slot _ (by omega)) hid fun j hj b hb => ?_
  -- the ids of the newer slots are not the one that is looked for
  rw [hr.slot j (by omega)] at hb
  obtain rfl := Option.some.inj hb
  rw [hexact j (by omega)]
  intro heq
  have hj' : ((h.snapshots h.head).id - ((h.snapshots h.head).id - UInt16.ofNat j)).toNat = j :=
    sub_toNat_ofNat _ (by omega)
  rw [heq] at hj'
  omega

/-- A store leaves the ring exact if it leaves no gap. -/
theorem exact_store (hr : h.Records stored) (hexact : h.Exact) :
    (h.store id entities).Exact ↔ h.count = 0 ∨ id = (h.snapshots h.head).id + 1 := by
  have hcount : h.count ≤ 128 := hr.count_le
  have hhead : h.head < 128 := hr.head_lt
  have hnew : (h.store id entities).snapshots (h.store id entities).head = ⟨id, entities⟩ :=
    Function.update_self ..
  have hcount' : (h.store id entities).count = if h.count < 128 then h.count + 1 else h.count := rfl
  have hback : ∀ k, k + 1 < 128 → Ring.back MAX_SNAPSHOTS (h.store id entities).snapshots
      (h.store id entities).head (k + 1) = Ring.back MAX_SNAPSHOTS h.snapshots h.head k :=
    fun k hk => Ring.back_push_succ hhead hk _
  have hfirst : Ring.back MAX_SNAPSHOTS h.snapshots h.head 0 = h.snapshots h.head := Ring.back_zero hhead
  have hlast : Ring.back MAX_SNAPSHOTS (h.store id entities).snapshots (h.store id entities).head 0 =
      ⟨id, entities⟩ := Ring.back_push_zero hhead _
  unfold Exact
  rw [hnew, hcount']
  constructor
  · intro hstore
    by_cases hzero : h.count = 0
    · exact .inl hzero
    · have hone := hstore 1 (by split_ifs <;> omega)
      rw [hback 0 (by decide), hfirst] at hone
      have hsub : (h.snapshots h.head).id = id - 1 := hone
      right
      grind
  · intro hgap k hk
    rcases k with _ | k
    · rw [hlast]
      simp
    · have hk' : k < h.count ∧ k + 1 < 128 := by split_ifs at hk <;> omega
      have hid := hgap.resolve_left (by omega)
      rw [hback k hk'.2, hexact k hk'.1, hid, UInt16.ofNat_add]
      show _ = (h.snapshots h.head).id + 1 - (UInt16.ofNat k + 1)
      grind

end SnapshotHistory

/-! ### Rewinding -/

namespace LagCompensator

def getEntityState (tick : UInt16) (entity : NetworkId) (history : SnapshotHistory) : Option Bytes :=
  (history.retrieve tick).bind fun snap => (lookup Prod.fst entity snap).map Prod.snd

def getAllEntities (tick : UInt16) (history : SnapshotHistory) : Option (List EntitySnapshot) :=
  history.retrieve tick

end LagCompensator

/-! ### The ticks of a server -/

/-- A server's replication manager, and the snapshots that its ticks have stored, the last first. -/
structure ServerRun where
  rep : NetworkReplicationManager
  stored : List Snapshot := []

namespace ServerRun

/-- The keys of the entity manager's table are distinct. -/
inductive Call
  | markDirty (netId : NetworkId)
  | tick (env : TickEnv) (distinct : env.entities.Nodup)
  | clientConnected (client : ClientId)
  | clientDisconnected (client : ClientId)
  | snapshotAck (client : ClientId) (id : UInt16)
  | setEntityManager (set : Bool)
  | setInterestFilter (set : Bool)
  | setFullSyncInterval (interval : UInt16)
  | setMaxBaselineAge (age : UInt16)

/-- The manager as it is when a turn of the loop of `server_tick` builds a snapshot. -/
def ticking (s : ServerRun) : NetworkReplicationManager := { s.rep with snapshotId := s.rep.snapshotId + 1 }

def tick (env : TickEnv) (s : ServerRun) : ServerRun where
  rep := (s.ticking.buildAndSendSnapshot env).1
  stored := if s.rep.clientStates.isEmpty then s.stored
    else ⟨s.rep.snapshotId + 1, s.ticking.scratchSnap env⟩ :: s.stored

/-- What a tick passes to `net.send`. -/
def sent (env : TickEnv) (s : ServerRun) : List (ClientId × Bytes) :=
  (s.ticking.buildAndSendSnapshot env).2

def step (s : ServerRun) : Call → Option ServerRun
  | .markDirty netId => some { s with rep := s.rep.markDirty netId }
  | .tick env _ => some (s.tick env)
  | .clientConnected client => some { s with rep := s.rep.onClientConnected client }
  | .clientDisconnected client => some { s with rep := s.rep.onClientDisconnected client }
  | .snapshotAck client id => some { s with rep := s.rep.onSnapshotAck client id }
  | .setEntityManager set => some { s with rep := { s.rep with hasEntityMgr := set } }
  | .setInterestFilter set => some { s with rep := { s.rep with hasInterestFilter := set } }
  | .setFullSyncInterval interval => some { s with rep := { s.rep with fullSyncInterval := interval } }
  | .setMaxBaselineAge age => some { s with rep := { s.rep with maxBaselineAge := age } }

/-- The snapshot of the last tick that had the id. -/
def lastStored (id : UInt16) (s : ServerRun) : Option Snapshot := lookup Snapshot.id id s.stored

/-- What an id retrieves is the snapshot that the last tick with that id stored, for the deltas as for
the lag compensator. -/
structure Faithful (s : ServerRun) : Prop where
  slot : ∀ id, ∀ snap ∈ s.rep.snapshotHistory.retrieved id, snap.id = id ∧ s.lastStored id = some snap
  entityState : ∀ id e, ∀ data ∈ LagCompensator.getEntityState id e s.rep.snapshotHistory,
    ∃ snap ∈ s.lastStored id, lookup Prod.fst e snap.entities = some (e, data)
  allEntities : ∀ id, ∀ entities ∈ LagCompensator.getAllEntities id s.rep.snapshotHistory,
    ∃ snap ∈ s.lastStored id, snap.entities = entities

/-- A tick that stores a snapshot gives it the id after that of the snapshot stored before. -/
def Gapless (s : ServerRun) : Call → Prop
  | .tick _ _ => s.rep.clientStates.isEmpty = true ∨ s.rep.snapshotHistory.count = 0 ∨
      s.rep.snapshotId = (s.rep.snapshotHistory.snapshots s.rep.snapshotHistory.head).id
  | _ => True

instance (s : ServerRun) : DecidablePred s.Gapless
  | .tick _ _ => inferInstanceAs (Decidable (_ ∨ _ ∨ _))
  | .markDirty _ | .clientConnected _ | .clientDisconnected _ | .snapshotAck _ _ | .setEntityManager _
  | .setInterestFilter _ | .setFullSyncInterval _ | .setMaxBaselineAge _ => isTrue trivial

variable {s t : ServerRun} {call : Call} {env : TickEnv}

theorem retrieve_lastStored (hslot : ∀ id, ∀ snap ∈ s.rep.snapshotHistory.retrieved id,
    snap.id = id ∧ s.lastStored id = some snap) {id : UInt16} {entities : List EntitySnapshot}
    (h : s.rep.snapshotHistory.retrieve id = some entities) :
    ∃ snap ∈ s.lastStored id, snap.entities = entities := by
  rw [SnapshotHistory.retrieve_eq] at h
  obtain ⟨snap, hsnap, hentities⟩ := Option.map_eq_some_iff.mp h
  exact ⟨snap, (hslot id snap hsnap).2, hentities⟩

theorem Faithful.of_slot (hslot : ∀ id, ∀ snap ∈ s.rep.snapshotHistory.retrieved id,
    snap.id = id ∧ s.lastStored id = some snap) : s.Faithful where
  slot := hslot
  entityState := by
    intro id e data hdata
    obtain ⟨entities, hentities, hfound⟩ := Option.bind_eq_some_iff.mp hdata
    obtain ⟨snap, hsnap, rfl⟩ := retrieve_lastStored hslot hentities
    obtain ⟨⟨e', data'⟩, hlookup, rfl⟩ := Option.map_eq_some_iff.mp hfound
    obtain rfl : e' = e := lookup_key hlookup
    exact ⟨snap, hsnap, hlookup⟩
  allEntities := fun id entities h => retrieve_lastStored hslot h

/-- The history holds the snapshots that were stored last. -/
def Recorded (s : ServerRun) : Prop := s.rep.snapshotHistory.Records s.stored

theorem faithful_iff (hr : s.Recorded) : s.Faithful ↔ s.rep.snapshotHistory.Exact := by
  constructor
  · intro h
    exact (SnapshotHistory.exact_iff hr).mpr fun id snap hsnap => (h.slot id snap hsnap).1
  · intro hexact
    exact .of_slot fun id snap hsnap => ⟨(SnapshotHistory.exact_iff hr).mp hexact id snap hsnap,
      SnapshotHistory.lookup_of_retrieved hr hexact hsnap⟩

theorem history_tick (hclients : s.rep.clientStates.isEmpty = false) :
    (s.tick env).rep.snapshotHistory =
      s.rep.snapshotHistory.store (s.rep.snapshotId + 1) (s.ticking.scratchSnap env) := by
  unfold tick NetworkReplicationManager.buildAndSendSnapshot
  rw [if_neg (by simpa [ticking] using hclients)]
  rfl

theorem history_tick_idle (hclients : s.rep.clientStates.isEmpty = true) :
    (s.tick env).rep.snapshotHistory = s.rep.snapshotHistory := by
  unfold tick NetworkReplicationManager.buildAndSendSnapshot
  rw [if_pos (by simpa [ticking] using hclients)]
  rfl

theorem recorded_step (hr : s.Recorded) (h : s.step call = some t) : t.Recorded := by
  cases call with
  | tick env distinct =>
    cases h
    unfold Recorded
    rcases Bool.eq_false_or_eq_true s.rep.clientStates.isEmpty with hclients | hclients
    · rw [history_tick_idle hclients, tick, if_pos hclients]
      exact hr
    · rw [history_tick hclients, tick, if_neg (by simp [hclients])]
      exact SnapshotHistory.Records.store hr
  | _ =>
    cases h
    exact hr

theorem history_step (h : s.step call = some t) (hcall : ∀ env distinct, call ≠ .tick env distinct) :
    t.rep.snapshotHistory = s.rep.snapshotHistory := by
  cases call with
  | tick env distinct => exact absurd rfl (hcall env distinct)
  | _ =>
    cases h
    rfl

theorem faithful_step (hr : s.Recorded) (hf : s.Faithful) (h : s.step call = some t) :
    t.Faithful ↔ s.Gapless call := by
  have hexact := (faithful_iff hr).mp hf
  rw [faithful_iff (recorded_step hr h)]
  cases call with
  | tick env distinct =>
    cases h
    unfold Gapless
    dsimp only
    rcases Bool.eq_false_or_eq_true s.rep.clientStates.isEmpty with hclients | hclients
    · rw [history_tick_idle hclients]
      exact iff_of_true hexact (.inl hclients)
    · rw [history_tick hclients, SnapshotHistory.exact_store hr hexact, hclients]
      have hnext : s.rep.snapshotId + 1 =
          (s.rep.snapshotHistory.snapshots s.rep.snapshotHistory.head).id + 1 ↔
          s.rep.snapshotId = (s.rep.snapshotHistory.snapshots s.rep.snapshotHistory.head).id := by
        grind
      rw [hnext]
      simp
  | _ =>
    rw [history_step h fun _ _ => nofun]
    exact iff_of_true hexact trivial

/-- In every run from an empty history, what each id retrieves in every state is what the last tick
with that id stored, if and only if each tick that stores a snapshot gives it the id after that of the
snapshot stored before. -/
theorem baselines_faithful_iff (s : ServerRun) (run : List Call)
    (hempty : s.rep.snapshotHistory = {}) (hstored : s.stored = []) :
    Run.Always step Faithful s run ↔ Run.Admits step Gapless s run := by
  have hr : s.Recorded := by
    unfold Recorded
    rw [hempty, hstored]
    exact ⟨by decide, by decide, fun k hk => absurd hk (Nat.not_lt_zero k)⟩
  have hfaithful : s.Faithful := by
    rw [faithful_iff hr, hempty]
    exact fun k hk => absurd hk (Nat.not_lt_zero k)
  exact Run.always_iff_admits (I := Recorded) (fun _ _ _ hr h => recorded_step hr h)
    (fun _ _ _ hr hf h => faithful_step hr hf h) (fun s call _ h => by cases call <;> cases h) run hr
    hfaithful

/-- A tick at which entity 5 has the given bytes. -/
def tickWith (data : Bytes) : Call :=
  .tick { serialize := fun _ => some data, connected := fun _ => true, entities := [5] }
    (List.nodup_singleton 5)

def start : ServerRun := { rep := { hasBridge := true, hasEntityMgr := true } }

theorem baselines_faithful_joins : Run.Always step Faithful start
    [tickWith [0], .clientConnected 1, tickWith [1], .clientConnected 2, .snapshotAck 1 2, tickWith [2]] :=
  (baselines_faithful_iff start _ rfl rfl).mpr (by decide +kernel)

/-- The only client leaves, a tick passes, and another client joins: the id of that tick retrieves the
state of the tick before it. -/
theorem baseline_confused : ∃ s, Run.exec step start [.clientConnected 1, tickWith [1],
    .clientDisconnected 1, tickWith [2], .clientConnected 2, tickWith [3]] = some s ∧
    LagCompensator.getEntityState 2 5 s.rep.snapshotHistory = some [1] ∧ s.lastStored 2 = none ∧
    ¬s.Faithful := by
  have hconfused : ∀ s : ServerRun, LagCompensator.getEntityState 2 5 s.rep.snapshotHistory = some [1] →
      s.lastStored 2 = none → ¬s.Faithful := by
    intro s hstate hnone hf
    obtain ⟨snap, hsnap, -⟩ := hf.entityState 2 5 [1] hstate
    rw [hnone] at hsnap
    cases hsnap
  exact ⟨_, rfl, by decide +kernel, by decide +kernel,
    hconfused _ (by decide +kernel) (by decide +kernel)⟩

/-- The baseline of a delta is then the snapshot of the tick that the client has acked. -/
theorem baseline_faithful {state : ClientReplicationState} {baseline : List EntitySnapshot}
    (hclients : s.rep.clientStates.isEmpty = false) (hf : (s.tick env).Faithful)
    (h : s.ticking.deltaBaseline env state = some baseline) :
    ∃ snap ∈ (s.tick env).lastStored state.lastAckedSnapshot, snap.entities = baseline := by
  have hstored : (s.ticking.stored env).snapshotHistory = (s.tick env).rep.snapshotHistory :=
    (history_tick hclients).symm
  unfold NetworkReplicationManager.deltaBaseline at h
  split_ifs at h
  rw [hstored] at h
  exact hf.allEntities _ _ h

end ServerRun

end CampelloNet
