import CampelloNet.Replication.SnapshotWindow

/-!
# Building a snapshot in memory

`build_and_send_snapshot` serialises the entities into one scratch blob. Its spans are moved along when
the blob grows out of its region, they are copied to the lists that are sent to the clients, and they are
compared with spans into the history. Here this is said with the blobs, the allocator answering what it
likes: in every run all reads are in bounds, and what is sent and stored is what the list functions of
`NetworkReplicationManager` compute (`exec_step`).
-/

namespace CampelloNet

open Lib Replication

namespace Replication.Memory

/-- `EntitySnapshot`: an entity and where its bytes are. -/
abbrev SpanSnapshot := NetworkId × Span

/-- A replication manager in memory: its history and its scratch buffers are blobs with spans. The history
in `rep` is not used. -/
structure Replicator where
  rep : NetworkReplicationManager
  snapshotHistory : SnapshotHistory := {}
  /-- `scratch_blob_` and `scratch_snap_` -/
  scratch : Parsed := ⟨⟨0, [], 0, Nat.le_refl 0⟩, []⟩

/-- What the allocator answers during a tick, to the scratch blob and to the blob of the history's slot. -/
structure Regions where
  scratch : ℕ → Region
  slot : ℕ → Region

/-! ### The scratch buffers -/

/-- One turn of the loops that serialise the entities. -/
def appendSnap (region : Region) (id : NetworkId) (data : Bytes) (scratch : Parsed) : Parsed :=
  let offset := scratch.blob.bytes.length
  let oldData := scratch.blob.address
  let blob := scratch.blob.insert region data
  let snap := fixupSpansAfterRealloc blob scratch.entities oldData
  ⟨blob, snap ++ [(id, ⟨blob.address + offset, data.length⟩)]⟩

/-- `regions n` is what the allocator answers in the turn after which `n` turns are left. -/
def buildLoop (regions : ℕ → Region) (serialize : NetworkId → Option Bytes) :
    List NetworkId → Parsed → Parsed
  | [], scratch => scratch
  | id :: ids, scratch =>
    match serialize id with
    | none => buildLoop regions serialize ids scratch
    | some data => buildLoop regions serialize ids (appendSnap (regions ids.length) id data scratch)

/-- The comparison with the baseline, `none` on a read out of bounds. -/
def changed (baseline : Parsed) (scratchBlob : Blob) (cur : SpanSnapshot) : Option Bool :=
  match lookup Prod.fst cur.1 baseline.entities with
  | none => some true
  | some base => do
    return decide ((← baseline.blob.read base.2) ≠ (← scratchBlob.read cur.2))

def scratchDelta (useInterest : Bool) (interested : NetworkId → Bool) (baseline : Parsed)
    (scratchBlob : Blob) :
    Finset NetworkId → List SpanSnapshot → Option (Finset NetworkId × List SpanSnapshot)
  | visible, [] => some (visible, [])
  | visible, cur :: rest =>
    if useInterest && !interested cur.1 then
      scratchDelta useInterest interested baseline scratchBlob (visible.erase cur.1) rest
    else if useInterest && decide (cur.1 ∉ visible) then do
      let (visible, delta) ←
        scratchDelta useInterest interested baseline scratchBlob (insert cur.1 visible) rest
      return (visible, cur :: delta)
    else do
      let differs ← changed baseline scratchBlob cur
      let (visible, delta) ← scratchDelta useInterest interested baseline scratchBlob visible rest
      return (visible, if differs then cur :: delta else delta)

/-- What `send_snapshot_to_client` passes to `net.send` of entities with spans into the blob. -/
def sendSpans (snapshotId : UInt16) (blob : Blob) (entities : List SpanSnapshot) :
    Option (Option Bytes) := do
  return sendSnapshotToClient snapshotId (← handOver ⟨blob, entities⟩)

namespace Replicator

def snapshotFor (env : TickEnv) (m : Replicator) (client : ClientId) (state : ClientReplicationState) :
    Option (ClientReplicationState × List SpanSnapshot) :=
  let full := NetworkReplicationManager.scratchFiltered m.rep.hasInterestFilter (env.interested · client)
    state.visibleEntities m.scratch.entities
  if m.rep.forceFullSync || !state.hasAck then some ({ state with visibleEntities := full.1 }, full.2)
  else
    match m.snapshotHistory.retrieve state.lastAckedSnapshot with
    | none => some ({ state with visibleEntities := full.1 }, full.2)
    | some baseline =>
      if m.rep.snapshotId - state.lastAckedSnapshot > m.rep.maxBaselineAge then
        some ({ state with visibleEntities := full.1 }, full.2)
      else do
        let delta ← scratchDelta m.rep.hasInterestFilter (env.interested · client) baseline
          m.scratch.blob state.visibleEntities m.scratch.entities
        return ({ state with visibleEntities := delta.1 }, delta.2)

/-- The loop over the clients: their states, and what is passed to `net.send`. -/
def sendLoop (env : TickEnv) (m : Replicator) : List (ClientId × ClientReplicationState) →
    Option (List (ClientId × ClientReplicationState) × List (ClientId × Bytes))
  | [] => some ([], [])
  | (client, state) :: rest =>
    if env.connected client then do
      let (state, entities) ← m.snapshotFor env client state
      let message ← sendSpans m.rep.snapshotId m.scratch.blob entities
      let (states, sent) ← sendLoop env m rest
      return ((client, state) :: states, message.toList.map (fun bytes => (client, bytes)) ++ sent)
    else do
      let (states, sent) ← sendLoop env m rest
      return ((client, state) :: states, sent)

/-- `build_and_send_snapshot`, `none` on a read out of bounds. -/
def buildAndSendSnapshot (regions : Regions) (env : TickEnv) (m : Replicator) :
    Option (Replicator × List (ClientId × Bytes)) :=
  if m.rep.clientStates.isEmpty then some ({ m with rep := { m.rep with dirtyEntities := [] } }, [])
  else do
    let scratch := buildLoop regions.scratch env.serialize (m.rep.snapshotEntities env)
      ⟨m.scratch.blob.clear, []⟩
    let history := m.snapshotHistory.store regions.slot m.rep.snapshotId (← handOver scratch)
    let m : Replicator := { m with snapshotHistory := history, scratch := scratch }
    let (states, sent) ← m.sendLoop env m.rep.clientStates
    return ({ m with rep := { m.rep with dirtyEntities := [], clientStates := states } }, sent)

/-- A turn of the loop of `server_tick`. -/
def tick (regions : Regions) (env : TickEnv) (m : Replicator) :
    Option (Replicator × List (ClientId × Bytes)) :=
  { m with rep := { m.rep with snapshotId := m.rep.snapshotId + 1 } }.buildAndSendSnapshot regions env

/-- A call, and what the allocator answers if it is a tick. -/
def step (m : Replicator) : ServerRun.Call × Regions → Option Replicator
  | (.tick env _, regions) => (m.tick regions env).map Prod.fst
  | (call, _) => (ServerRun.step ⟨m.rep, []⟩ call).map fun s => { m with rep := s.rep }

end Replicator

/-! ### What the scratch buffers denote -/

variable {region : Region} {id : NetworkId} {p scratch baseline : Parsed}
  {entities snap base : List EntitySnapshot}

theorem denotes_buildLoop (regions : ℕ → Region) (serialize : NetworkId → Option Bytes)
    (ids : List NetworkId) (h : Denotes scratch entities) :
    Denotes (buildLoop regions serialize ids scratch)
      (entities ++ ids.filterMap fun id => (serialize id).map fun data => (id, data)) := by
  induction ids generalizing scratch entities with
  | nil => simpa [buildLoop] using h
  | cons id ids ih =>
    rw [buildLoop, List.filterMap_cons]
    rcases serialize id with _ | data
    · exact ih h
    · have hnext := ih (h.insert (regions ids.length) id data)
      rwa [List.append_assoc, List.singleton_append] at hnext

/-- What is looked for is found in memory where it is found in the list. -/
theorem Denotes.lookup (h : Denotes p entities) (id : NetworkId) :
    Option.Rel (fun held ent => p.blob.read held.2 = some ent.2)
      (Lib.lookup Prod.fst id p.entities) (Lib.lookup Prod.fst id entities) := by
  obtain ⟨blob, helds⟩ := p
  unfold Denotes at h
  dsimp only at h ⊢
  induction h with
  | nil => exact .none
  | @cons held ent helds entities hent _ ih =>
    rw [lookup_cons, lookup_cons, hent.1]
    split_ifs
    · exact .some hent.2
    · exact ih

theorem changed_eq (hbase : Denotes baseline base) {blob : Blob} {cur : SpanSnapshot}
    {ent : EntitySnapshot} (hid : cur.1 = ent.1) (hread : blob.read cur.2 = some ent.2) :
    changed baseline blob cur = some (NetworkReplicationManager.changed base ent) := by
  have hfound := hbase.lookup ent.1
  unfold changed NetworkReplicationManager.changed
  rw [hid, hread]
  generalize lookup Prod.fst ent.1 baseline.entities = held at hfound
  generalize lookup Prod.fst ent.1 base = found at hfound
  cases hfound with
  | none => rfl
  | some hspan =>
    dsimp only
    rw [hspan]
    rfl

theorem denotes_scratchFiltered (useInterest : Bool) (interested : NetworkId → Bool)
    (visible : Finset NetworkId) (h : Denotes p snap) :
    let held := NetworkReplicationManager.scratchFiltered useInterest interested visible p.entities
    let full := NetworkReplicationManager.scratchFiltered useInterest interested visible snap
    held.1 = full.1 ∧ Denotes ⟨p.blob, held.2⟩ full.2 := by
  unfold NetworkReplicationManager.scratchFiltered
  dsimp only
  split_ifs
  · obtain ⟨blob, helds⟩ := p
    unfold Denotes at h ⊢
    dsimp only at h ⊢
    induction h generalizing visible with
    | nil => exact ⟨rfl, .nil⟩
    | @cons held ent helds snap hent _ ih =>
      rw [List.foldl_cons, List.foldl_cons, List.filter_cons, List.filter_cons, hent.1]
      refine ⟨(ih _).1, ?_⟩
      split_ifs
      · exact .cons hent (ih visible).2
      · exact (ih visible).2
  · exact ⟨rfl, h⟩

/-- The delta is built without a read out of bounds. -/
theorem denotes_scratchDelta (useInterest : Bool) (interested : NetworkId → Bool)
    (visible : Finset NetworkId) (hbase : Denotes baseline base) (h : Denotes p snap) :
    let delta := NetworkReplicationManager.scratchDelta useInterest interested base visible snap
    ∃ held, scratchDelta useInterest interested baseline p.blob visible p.entities =
      some (delta.1, held) ∧ Denotes ⟨p.blob, held⟩ delta.2 := by
  obtain ⟨blob, helds⟩ := p
  unfold Denotes at h ⊢
  dsimp only at h ⊢
  induction h generalizing visible with
  | nil => exact ⟨[], rfl, .nil⟩
  | @cons held ent helds snap hent _ ih =>
    rw [scratchDelta, NetworkReplicationManager.scratchDelta, hent.1]
    split_ifs
    · exact ih _
    · obtain ⟨rest, heq, hrest⟩ := ih (insert ent.1 visible)
      exact ⟨held :: rest, by rw [heq]; rfl, .cons hent hrest⟩
    all_goals
      obtain ⟨rest, heq, hrest⟩ := ih visible
      rw [changed_eq hbase hent.1 hent.2, heq]
    · next hdiffers =>
      rw [hdiffers]
      exact ⟨held :: rest, rfl, .cons hent hrest⟩
    · next hsame =>
      rw [Bool.eq_false_iff.mpr hsame]
      exact ⟨rest, rfl, hrest⟩

theorem sendSpans_eq (id : UInt16) (h : Denotes p entities) :
    sendSpans id p.blob p.entities =
      some (if entities.isEmpty then none
        else some (NetworkReplicationManager.snapshotMessage id entities)) := by
  unfold sendSpans
  rw [h.handOver_eq]
  change some (sendSnapshotToClient id entities) = _
  split_ifs with hempty
  · rw [sendSnapshotToClient, if_pos hempty]
  · rw [sendSnapshotToClient_eq id (by simpa using hempty)]

/-! ### What a tick does -/

/-- The manager in memory stands for the one whose snapshots are lists. -/
def Replicator.Implements (m : Replicator) (rep : NetworkReplicationManager) : Prop :=
  ∃ history, rep = { m.rep with snapshotHistory := history } ∧ Refines m.snapshotHistory history

namespace Replicator

variable {m : Replicator} {rep : NetworkReplicationManager} {env : TickEnv}

theorem snapshotFor_spec (hm : m.Implements rep) (hs : Denotes m.scratch snap) (env : TickEnv)
    (client : ClientId) (state : ClientReplicationState) :
    let out := rep.snapshotFor env rep.forceFullSync snap client state
    ∃ held, m.snapshotFor env client state = some (out.1, held) ∧
      Denotes ⟨m.scratch.blob, held⟩ out.2 := by
  obtain ⟨history, rfl, hr⟩ := hm
  have hfull := denotes_scratchFiltered m.rep.hasInterestFilter (env.interested · client)
    state.visibleEntities hs
  have hfound := hr.denotes_retrieve state.lastAckedSnapshot
  unfold snapshotFor NetworkReplicationManager.snapshotFor
  dsimp only at hfull ⊢
  have hforce : NetworkReplicationManager.forceFullSync { m.rep with snapshotHistory := history } =
      m.rep.forceFullSync := rfl
  rw [hforce]
  generalize m.snapshotHistory.retrieve state.lastAckedSnapshot = held at hfound ⊢
  generalize history.retrieve state.lastAckedSnapshot = baseline at hfound ⊢
  cases hfound with
  | none => split_ifs <;> exact ⟨_, by rw [hfull.1], hfull.2⟩
  | some hbase =>
    dsimp only
    split_ifs
    · exact ⟨_, by rw [hfull.1], hfull.2⟩
    · exact ⟨_, by rw [hfull.1], hfull.2⟩
    · obtain ⟨held, hdelta, hheld⟩ := denotes_scratchDelta m.rep.hasInterestFilter
        (env.interested · client) state.visibleEntities hbase hs
      exact ⟨held, by rw [hdelta]; rfl, hheld⟩

theorem sendLoop_spec (hm : m.Implements rep) (hs : Denotes m.scratch snap) (env : TickEnv)
    (clients : List (ClientId × ClientReplicationState)) :
    let turns := clients.map fun c =>
      if env.connected c.1 then (c.1, rep.snapshotFor env rep.forceFullSync snap c.1 c.2)
      else (c.1, c.2, [])
    m.sendLoop env clients = some (turns.map fun c => (c.1, c.2.1),
      (turns.filter fun c => !c.2.2.isEmpty).map fun c =>
        (c.1, NetworkReplicationManager.snapshotMessage rep.snapshotId c.2.2)) := by
  induction clients with
  | nil => rfl
  | cons c clients ih =>
    obtain ⟨client, state⟩ := c
    dsimp only at ih ⊢
    rw [sendLoop, ih]
    by_cases hconn : env.connected client
    · obtain ⟨held, hturn, hheld⟩ := snapshotFor_spec hm hs env client state
      have hid : m.rep.snapshotId = rep.snapshotId := by
        obtain ⟨history, rfl, -⟩ := hm
        rfl
      have hsent := sendSpans_eq rep.snapshotId hheld
      dsimp only at hsent
      rw [if_pos hconn, hturn, hid, List.map_cons, if_pos hconn, List.map_cons, List.filter_cons]
      dsimp only [Option.bind_eq_bind, Option.bind_some]
      rw [hsent]
      rcases rep.snapshotFor env rep.forceFullSync snap client state with ⟨state', _ | ⟨ent, entities⟩⟩
      · rfl
      · rfl
    · rw [if_neg hconn, List.map_cons, if_neg hconn, List.map_cons, List.filter_cons]
      rfl

/-- All reads of a tick are in bounds, and it does what the list functions say. -/
theorem buildAndSendSnapshot_spec (hm : m.Implements rep) (regions : Regions) (env : TickEnv) :
    ∃ m', m.buildAndSendSnapshot regions env = some (m', (rep.buildAndSendSnapshot env).2) ∧
      m'.Implements (rep.buildAndSendSnapshot env).1 := by
  obtain ⟨history, rfl, hr⟩ := hm
  unfold buildAndSendSnapshot NetworkReplicationManager.buildAndSendSnapshot
  dsimp only
  split_ifs with hempty
  · exact ⟨_, rfl, history, rfl, hr⟩
  · have hblob : Denotes ⟨m.scratch.blob.clear, []⟩ [] := List.Forall₂.nil
    have hscratch := denotes_buildLoop regions.scratch env.serialize (m.rep.snapshotEntities env) hblob
    rw [List.nil_append] at hscratch
    generalize buildLoop regions.scratch env.serialize (m.rep.snapshotEntities env) _ = scratch
      at hscratch ⊢
    have hstored := hr.store regions.slot m.rep.snapshotId
      ((m.rep.snapshotEntities env).filterMap fun id => (env.serialize id).map fun data => (id, data))
    rw [hscratch.handOver_eq]
    dsimp only [Option.bind_eq_bind, Option.bind_some]
    have hnext : Implements
        { m with
          snapshotHistory := m.snapshotHistory.store regions.slot m.rep.snapshotId _
          scratch := scratch }
        { m.rep with snapshotHistory := history.store m.rep.snapshotId _ } :=
      ⟨_, rfl, hstored⟩
    have hloop := sendLoop_spec hnext hscratch env m.rep.clientStates
    rw [hloop]
    exact ⟨_, rfl, _, rfl, hstored⟩

/-! ### Runs -/

/-- A manager that has been called by nobody. -/
structure Fresh (m : Replicator) : Prop where
  clients : m.rep.clientStates = []
  dirty : m.rep.dirtyEntities = []
  history : m.snapshotHistory = {}

/-- The manager that a fresh one stands for. -/
def listed (m : Replicator) : ServerRun := ⟨{ m.rep with snapshotHistory := {} }, []⟩

theorem Fresh.implements (h : m.Fresh) : m.Implements m.listed.rep :=
  ⟨{}, rfl, h.history ▸ refines_start⟩

variable {s : ServerRun}

theorem tick_spec (hm : m.Implements s.rep) (regions : Regions) (env : TickEnv) :
    ∃ m', m.tick regions env = some (m', s.sent env) ∧ m'.Implements (s.tick env).rep := by
  obtain ⟨history, hrep, hr⟩ := hm
  have hnext : Implements { m with rep := { m.rep with snapshotId := m.rep.snapshotId + 1 } }
      s.ticking := by
    refine ⟨history, ?_, hr⟩
    unfold ServerRun.ticking
    rw [hrep]
  exact buildAndSendSnapshot_spec hnext regions env

theorem step_spec (hm : m.Implements s.rep) (call : ServerRun.Call × Regions) :
    ∃ m' t, m.step call = some m' ∧ s.step call.1 = some t ∧ m'.Implements t.rep := by
  obtain ⟨call, regions⟩ := call
  cases call with
  | tick env distinct =>
    obtain ⟨m', htick, hm'⟩ := tick_spec hm regions env
    refine ⟨m', s.tick env, ?_, rfl, hm'⟩
    show (m.tick regions env).map Prod.fst = some m'
    rw [htick]
    rfl
  | _ =>
    obtain ⟨rep, stored⟩ := s
    obtain ⟨history, rfl, hr⟩ := hm
    exact ⟨_, _, rfl, rfl, history, rfl, hr⟩

/-- No run of calls reads out of bounds, and it does what the run of the list functions does. -/
theorem exec_step (hm : m.Implements s.rep) (run : List (ServerRun.Call × Regions)) :
    ∃ m' t, Run.exec step m run = some m' ∧
      Run.exec ServerRun.step s (run.map Prod.fst) = some t ∧ m'.Implements t.rep := by
  induction run generalizing m s with
  | nil => exact ⟨m, s, rfl, rfl, hm⟩
  | cons call run ih =>
    obtain ⟨m₁, s₁, hcall, hlisted, hm₁⟩ := step_spec hm call
    obtain ⟨m', t, hrun, hlist, hm'⟩ := ih hm₁
    refine ⟨m', t, ?_, ?_, hm'⟩
    · rw [Run.exec, hcall]
      exact hrun
    · rw [List.map_cons, Run.exec, hlisted]
      exact hlist

end Replicator

end Replication.Memory

end CampelloNet
