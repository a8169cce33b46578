import CampelloNet.Replication.Scratch

/-!
# What a snapshot message contains

Whether all entities are serialised at a tick or only the dirty ones is decided before it is decided
which clients are sent a full state, so a full state can be one of the dirty entities only
(`fullSync_full_iff`). The interest filter is asked about every entity that is sent to a client at the
tick it is sent, and the spans under which the entities are sent cover their own bytes
(`interest_secrecy`).
-/

namespace CampelloNet

open Lib Replication NetworkReplicationManager

namespace ServerRun

/-- The manager of a server that has not ticked. -/
structure Fresh (s : ServerRun) : Prop where
  clients : s.rep.clientStates = []
  dirty : s.rep.dirtyEntities = []

/-- The keys of a hash map and a hash set. -/
structure Distinct (s : ServerRun) : Prop where
  clients : (s.rep.clientStates.map Prod.fst).Nodup
  dirty : s.rep.dirtyEntities.Nodup

variable {s t : ServerRun} {call : Call} {env : TickEnv} {client : ClientId}
  {state : ClientReplicationState} {e : NetworkId} {data message : Bytes}

theorem dirty_tick : (s.tick env).rep.dirtyEntities = [] := by
  unfold tick buildAndSendSnapshot
  split_ifs <;> rfl

theorem distinct_step (hd : s.Distinct) (h : s.step call = some t) : t.Distinct := by
  cases call with
  | markDirty netId =>
    cases h
    refine ⟨hd.clients, ?_⟩
    show (markDirty netId s.rep).dirtyEntities.Nodup
    unfold NetworkReplicationManager.markDirty
    dsimp only
    split_ifs with hmem
    · exact hd.dirty
    · exact List.Nodup.append hd.dirty (List.nodup_singleton netId) (by simpa using hmem)
  | tick env distinct =>
    cases h
    refine ⟨?_, by rw [dirty_tick]; exact List.nodup_nil⟩
    show ((s.ticking.buildAndSendSnapshot env).1.clientStates.map Prod.fst).Nodup
    rw [map_fst_buildAndSendSnapshot]
    exact hd.clients
  | clientConnected client =>
    cases h
    exact ⟨nodup_map_key_upsert _ hd.clients, hd.dirty⟩
  | clientDisconnected client =>
    cases h
    exact ⟨hd.clients.sublist (List.filter_sublist.map _), hd.dirty⟩
  | snapshotAck client id =>
    cases h
    exact ⟨nodup_map_key_upsert _ hd.clients, hd.dirty⟩
  | _ =>
    cases h
    exact ⟨hd.clients, hd.dirty⟩

theorem distinct_run {run : List Call} (hfresh : s.Fresh) (h : Run.exec step s run = some t) :
    t.Distinct := by
  have hd : s.Distinct := ⟨by simp [hfresh.clients], by simp [hfresh.dirty]⟩
  exact Run.invariant_exec h hd fun _ _ _ hd hs => distinct_step hd hs

/-- The entities that are put into the message to a connected client. -/
def entitiesFor (env : TickEnv) (client : ClientId) (state : ClientReplicationState) (s : ServerRun) :
    List EntitySnapshot := (s.ticking.turnFor env client state).2

/-! ### Full states -/

/-- The server decides to send the client the full state: the sync is forced, the client has acked
nothing, or what it acked is too old or no longer in the history. -/
def SendsFull (env : TickEnv) (state : ClientReplicationState) (s : ServerRun) : Prop :=
  s.ticking.forceFullSync = true ∨ state.hasAck = false ∨
    s.ticking.snapshotId - state.lastAckedSnapshot > s.rep.maxBaselineAge ∨
    (s.ticking.stored env).snapshotHistory.retrieve state.lastAckedSnapshot = none

/-- The entity belongs in a full state for the client. -/
def Due (env : TickEnv) (client : ClientId) (s : ServerRun) (e : NetworkId) : Prop :=
  e ∈ env.entities ∧ (env.serialize e).isSome = true ∧
    (s.rep.hasInterestFilter = true → env.interested e client = true)

instance (env : TickEnv) (client : ClientId) (s : ServerRun) : DecidablePred (s.Due env client) :=
  fun _ => inferInstanceAs (Decidable (_ ∧ _ ∧ (_ → _)))

/-- All managed entities are serialised at the tick, or the dirty ones are those that have a state. -/
def CoversAll (env : TickEnv) (s : ServerRun) : Prop :=
  s.rep.hasInterestFilter = true ∨ s.ticking.forceFullSync = true ∨
    (∃ c ∈ s.rep.clientStates, env.connected c.1 = true ∧ c.2.hasAck = false) ∨
    ∀ e, (env.serialize e).isSome = true → (e ∈ s.rep.dirtyEntities ↔ e ∈ env.entities)

theorem deltaBaseline_of_sendsFull (h : s.SendsFull env state) :
    s.ticking.deltaBaseline env state = none := by
  unfold deltaBaseline
  split_ifs with hforced hage
  · rfl
  · rfl
  · simp only [Bool.or_eq_true, Bool.not_eq_true', not_or] at hforced
    exact ((h.resolve_left hforced.1).resolve_left hforced.2).resolve_left hage

theorem mem_entitiesFor (hfull : s.SendsFull env state) : e ∈ (s.entitiesFor env client state).map Prod.fst ↔
    e ∈ s.ticking.snapshotEntities env ∧ (env.serialize e).isSome = true ∧
      (s.rep.hasInterestFilter = true → env.interested e client = true) := by
  have hsnap : e ∈ (s.ticking.scratchSnap env).map Prod.fst ↔
      e ∈ s.ticking.snapshotEntities env ∧ (env.serialize e).isSome = true := by
    simp only [List.mem_map, Prod.exists, exists_and_right, exists_eq_right, mem_scratchSnap,
      Option.isSome_iff_exists, exists_and_left]
  have hfilter : s.ticking.hasInterestFilter = s.rep.hasInterestFilter := rfl
  unfold entitiesFor
  rw [turnFor_eq, deltaBaseline_of_sendsFull hfull, hfilter]
  dsimp only
  unfold scratchFiltered
  rcases Bool.eq_false_or_eq_true s.rep.hasInterestFilter with hset | hset
  · rw [if_pos hset]
    simp only [hset, true_imp_iff, ← and_assoc, ← hsnap, List.mem_map, List.mem_filter]
    constructor
    · rintro ⟨ent, ⟨hent, hinterested⟩, rfl⟩
      exact ⟨⟨ent, hent, rfl⟩, hinterested⟩
    · rintro ⟨⟨ent, hent, rfl⟩, hinterested⟩
      exact ⟨ent, ⟨hent, hinterested⟩, rfl⟩
  · rw [if_neg (by simp [hset])]
    simpa [hset] using hsnap

/-- What is serialised at a tick. -/
theorem snapshotEntities_eq (hmgr : s.rep.hasEntityMgr = true) : s.ticking.snapshotEntities env =
    if s.rep.hasInterestFilter = true ∨ s.ticking.forceFullSync = true ∨
      (∃ c ∈ s.rep.clientStates, env.connected c.1 = true ∧ c.2.hasAck = false) then env.entities
    else s.rep.dirtyEntities := by
  have hmgr' : s.ticking.hasEntityMgr = true := hmgr
  have hiff : (s.ticking.hasInterestFilter || ((s.ticking.forceFullSync ||
      s.ticking.clientStates.any fun c => env.connected c.1 && !c.2.hasAck) && true)) = true ↔
      s.rep.hasInterestFilter = true ∨ s.ticking.forceFullSync = true ∨
        ∃ c ∈ s.rep.clientStates, env.connected c.1 = true ∧ c.2.hasAck = false := by
    simp [ticking]
  unfold snapshotEntities
  dsimp only
  rw [hmgr', Bool.and_true]
  by_cases hcovers : s.rep.hasInterestFilter = true ∨ s.ticking.forceFullSync = true ∨
      ∃ c ∈ s.rep.clientStates, env.connected c.1 = true ∧ c.2.hasAck = false
  · rw [if_pos hcovers, if_pos (hiff.mpr hcovers)]
  · rw [if_neg hcovers, if_neg fun h => hcovers (hiff.mp h)]
    rfl

/-- In every reachable state, whenever a connected client is sent the full state, the entities in its
message are exactly the managed ones that have a state and pass the filter, if and only if there is a
filter, the sync is forced, a connected client has acked nothing, or the dirty entities that have a state
are the managed ones. -/
theorem fullSync_full_iff (s₀ s : ServerRun) (run : List Call) (env : TickEnv) (client : ClientId)
    (state : ClientReplicationState) (hfresh : s₀.Fresh) (h : Run.exec step s₀ run = some s)
    (hmgr : s.rep.hasEntityMgr = true)
    (hclient : lookup Prod.fst client s.rep.clientStates = some (client, state))
    (hconn : env.connected client = true) (hfull : s.SendsFull env state) :
    (lookup Prod.fst client (s.sent env)).map Prod.snd =
      (if s.entitiesFor env client state = [] then none
        else some (snapshotMessage (s.rep.snapshotId + 1) (s.entitiesFor env client state))) ∧
    ((∀ e, e ∈ (s.entitiesFor env client state).map Prod.fst ↔ s.Due env client e) ↔
      s.CoversAll env) := by
  refine ⟨(buildAndSendSnapshot_client s.ticking (distinct_run hfresh h).clients hclient hconn).2, ?_⟩
  unfold Due CoversAll
  simp only [mem_entitiesFor hfull, snapshotEntities_eq hmgr]
  by_cases hcovers : s.rep.hasInterestFilter = true ∨ s.ticking.forceFullSync = true ∨
      ∃ c ∈ s.rep.clientStates, env.connected c.1 = true ∧ c.2.hasAck = false
  · simp only [if_pos hcovers, implies_true, true_iff]
    rcases hcovers with hset | hforced | hnew
    · exact .inl hset
    · exact .inr (.inl hforced)
    · exact .inr (.inr (.inl hnew))
  · simp only [if_neg hcovers]
    rw [not_or, not_or] at hcovers
    obtain ⟨hset, hforced, hnew⟩ := hcovers
    simp [hset, hforced, hnew, and_congr_left_iff]

/-- A tick at which two entities have a state. -/
def twoEntities : TickEnv where
  serialize := fun _ => some [2]
  connected := fun _ => true
  entities := [5, 6]

/-- A client that has acked nothing is sent all. -/
theorem fullSync_full_first : ∃ s, Run.exec step start [.clientConnected 1, tickWith [1]] = some s ∧
    ∀ e, e ∈ (s.entitiesFor twoEntities 1 {}).map Prod.fst ↔ s.Due twoEntities 1 e := by
  refine ⟨_, rfl, (fullSync_full_iff start _ [.clientConnected 1, tickWith [1]] twoEntities 1 {}
    ⟨rfl, rfl⟩ rfl rfl rfl rfl (.inr (.inl rfl))).2.mpr ?_⟩
  exact .inr (.inr (.inl ⟨_, List.mem_singleton.mpr rfl, rfl, rfl⟩))

/-- A client whose baseline is too old is sent nothing when nothing is dirty. -/
theorem fullSync_empty : ∃ s, Run.exec step start [.setMaxBaselineAge 1, .clientConnected 1, tickWith [1],
      .snapshotAck 1 1, tickWith [1]] = some s ∧
    lookup Prod.fst 1 s.rep.clientStates = some (1, { lastAckedSnapshot := 1, hasAck := true }) ∧
    s.SendsFull twoEntities { lastAckedSnapshot := 1, hasAck := true } ∧
    s.sent twoEntities = [] ∧ s.Due twoEntities 1 5 := by
  refine ⟨_, rfl, by decide +kernel, ?_, by decide +kernel, by decide +kernel⟩
  exact .inr (.inr (.inl (by decide +kernel)))

/-! ### The interest filter -/

/-- Everything in a delta is of interest to the client. -/
theorem interested_scratchDelta {interested : NetworkId → Bool} {baseline snap : List EntitySnapshot}
    {visible : Finset NetworkId} {ent : EntitySnapshot}
    (h : ent ∈ (scratchDelta true interested baseline visible snap).2) : interested ent.1 = true := by
  induction snap generalizing visible with
  | nil => cases h
  | cons cur rest ih =>
    rcases Bool.eq_false_or_eq_true (interested cur.1) with hyes | hno
    · by_cases hold : cur.1 ∈ visible
      · rw [scratchDelta_old hyes hold] at h
        dsimp only at h
        split_ifs at h
        · rcases List.mem_cons.mp h with rfl | h
          · exact hyes
          · exact ih h
        · exact ih h
      · rw [scratchDelta_new hyes hold] at h
        rcases List.mem_cons.mp h with rfl | h
        · exact hyes
        · exact ih h
    · rw [scratchDelta_out hno] at h
      exact ih h

theorem interested_entitiesFor (hfilter : s.rep.hasInterestFilter = true) {ent : EntitySnapshot}
    (h : ent ∈ s.entitiesFor env client state) : env.interested ent.1 client = true := by
  have hset : s.ticking.hasInterestFilter = true := hfilter
  unfold entitiesFor at h
  rw [turnFor_eq, hset] at h
  dsimp only at h
  rcases hbase : s.ticking.deltaBaseline env state with _ | baseline
  · rw [hbase] at h
    exact (List.mem_filter.mp h).2
  · rw [hbase] at h
    exact interested_scratchDelta h

/-- No entity is serialised twice at a tick. -/
theorem nodup_scratchSnap (hd : s.Distinct) (distinct : env.entities.Nodup) :
    ((s.ticking.scratchSnap env).map Prod.fst).Nodup := by
  have hids : (s.ticking.snapshotEntities env).Nodup := by
    unfold snapshotEntities
    dsimp only
    split_ifs
    · exact distinct
    · exact hd.dirty
  have hsub : ((s.ticking.scratchSnap env).map Prod.fst).Sublist (s.ticking.snapshotEntities env) := by
    unfold scratchSnap
    induction s.ticking.snapshotEntities env with
    | nil => exact List.Sublist.refl _
    | cons id ids ih =>
      rw [List.filterMap_cons]
      rcases env.serialize id with _ | data
      · exact ih.cons id
      · exact ih.cons_cons id
  exact hids.sublist hsub

theorem mem_sent (h : (client, message) ∈ s.sent env) : ∃ state,
    message = snapshotMessage (s.rep.snapshotId + 1) (s.entitiesFor env client state) := by
  unfold sent buildAndSendSnapshot at h
  by_cases hclients : s.ticking.clientStates.isEmpty = true
  · rw [if_pos hclients] at h
    cases h
  · rw [if_neg hclients] at h
    obtain ⟨turn, hturn, heq⟩ := List.mem_map.mp h
    obtain ⟨hturn, hsome⟩ := List.mem_filter.mp hturn
    obtain ⟨c, hc, rfl⟩ := List.mem_map.mp hturn
    by_cases hconn : env.connected c.1 = true
    · rw [if_pos hconn] at heq
      cases heq
      exact ⟨c.2, rfl⟩
    · rw [if_neg hconn] at hsome
      cases hsome

/-- The entities and their bytes are within what the format can count. -/
structure Bounded (env : TickEnv) (rep : NetworkReplicationManager) : Prop where
  managed : env.entities.length ≤ 65535
  dirty : rep.dirtyEntities.length ≤ 65535
  data : ∀ e, ∀ data ∈ env.serialize e, data.length ≤ 65535

theorem fits_entitiesFor (hb : Bounded env s.rep) : Fits (s.entitiesFor env client state) := by
  have hsub : (s.entitiesFor env client state).Sublist (s.ticking.scratchSnap env) :=
    turnFor_sublist env client state s.ticking
  have hids : (s.ticking.snapshotEntities env).length ≤ 65535 := by
    unfold snapshotEntities
    dsimp only
    split_ifs
    · exact hb.managed
    · exact hb.dirty
  refine ⟨?_, fun ent hent => ?_⟩
  · have hsnap : (s.ticking.scratchSnap env).length ≤ (s.ticking.snapshotEntities env).length :=
      List.length_filterMap_le _ _
    have hlen := hsub.length_le
    omega
  · have hmem := (mem_scratchSnap.mp (hsub.subset hent)).2
    exact Nat.lt_succ_of_le (hb.data _ _ hmem)

/-- What a client may read from a message at a tick. -/
structure Secret (env : TickEnv) (client : ClientId) (message : Bytes) : Prop where
  interested : ∀ ent ∈ deltaEntities (message.drop 3), env.interested ent.1 client = true
  genuine : ∀ ent ∈ deltaEntities (message.drop 3), env.serialize ent.1 = some ent.2
  once : ((deltaEntities (message.drop 3)).map Prod.fst).Nodup

theorem secret_sent (hd : s.Distinct) (hfilter : s.rep.hasInterestFilter = true)
    (distinct : env.entities.Nodup) (hb : Bounded env s.rep) (hsent : (client, message) ∈ s.sent env) :
    Secret env client message := by
  obtain ⟨state, rfl⟩ := mem_sent hsent
  have hread : deltaEntities ((snapshotMessage (s.rep.snapshotId + 1)
      (s.entitiesFor env client state)).drop 3) = s.entitiesFor env client state :=
    deltaEntities_snapshotMessage (fits_entitiesFor hb) _
  have hsub : (s.entitiesFor env client state).Sublist (s.ticking.scratchSnap env) :=
    turnFor_sublist env client state s.ticking
  refine ⟨?_, ?_, ?_⟩ <;> rw [hread]
  · exact fun ent hent => interested_entitiesFor hfilter hent
  · exact fun ent hent => (mem_scratchSnap.mp (hsub.subset hent)).2
  · exact (nodup_scratchSnap hd distinct).sublist (hsub.map Prod.fst)

end ServerRun

namespace Replication.Memory.Replicator

open ServerRun (Bounded Secret)

/-- Whatever the allocator does, no run reads out of bounds; and at every tick with an interest filter
from every state that a run reaches, each entity that a client can read from its message is one that the
filter lets it see at that tick, with the bytes that were serialised for it at that tick, and is in the
message once. -/
theorem interest_secrecy (m₀ : Replicator) (run : List (ServerRun.Call × Regions))
    (hfresh : m₀.Fresh) : ∃ m, Run.exec step m₀ run = some m ∧
    ∀ (regions : Regions) (env : TickEnv), m.rep.hasInterestFilter = true → env.entities.Nodup →
      Bounded env m.rep → ∃ m' sent, m.tick regions env = some (m', sent) ∧
        ∀ client message, (client, message) ∈ sent → Secret env client message := by
  obtain ⟨m, s, hrun, hlist, hm⟩ := exec_step hfresh.implements run
  refine ⟨m, hrun, fun regions env hfilter distinct hb => ?_⟩
  obtain ⟨m', htick, -⟩ := tick_spec hm regions env
  refine ⟨m', s.sent env, htick, fun client message hsent => ?_⟩
  have hlisted : s.rep.hasInterestFilter = m.rep.hasInterestFilter ∧
      s.rep.dirtyEntities = m.rep.dirtyEntities := by
    obtain ⟨history, hrep, -⟩ := hm
    rw [hrep]
    exact ⟨rfl, rfl⟩
  have hstart : m₀.listed.Fresh := ⟨hfresh.clients, hfresh.dirty⟩
  exact ServerRun.secret_sent (ServerRun.distinct_run hstart hlist) (hlisted.1.trans hfilter) distinct
    ⟨hb.managed, hlisted.2 ▸ hb.dirty, hb.data⟩ hsent

/-- A tick at which entity 6 is hidden. -/
def sixHidden : TickEnv where
  serialize := fun e => some [2, e.toUInt8]
  interested := fun e _ => e ≠ 6
  connected := fun _ => true
  entities := [5, 6, 7]

/-- The scratch blob has to move at every entity. -/
def tight : Regions := ⟨fun n => ⟨1000 * (n + 1), 0⟩, fun _ => ⟨5000, 0⟩⟩

def secretStart : Replicator := { rep := { hasBridge := true, hasEntityMgr := true } }

def secretRun : List (ServerRun.Call × Regions) :=
  [(.setInterestFilter true, tight), (.clientConnected 1, tight), (ServerRun.tickWith [1], tight)]

theorem interest_secrecy_hidden : ∃ m m' sent, Run.exec step secretStart secretRun = some m ∧
    m.tick tight sixHidden = some (m', sent) ∧
    sent = [(1, snapshotMessage 2 [(5, [2, 5]), (7, [2, 7])])] ∧
    ∀ client message, (client, message) ∈ sent → Secret sixHidden client message := by
  obtain ⟨m, hrun, hall⟩ := interest_secrecy secretStart secretRun ⟨rfl, rfl, rfl⟩
  have hmanager : (Run.exec step secretStart secretRun).map (fun m =>
      (m.rep.hasInterestFilter, m.rep.dirtyEntities)) = some (true, []) := by
    decide +kernel
  have hsent : ((Run.exec step secretStart secretRun).bind (tick tight sixHidden)).map Prod.snd =
      some [(1, snapshotMessage 2 [(5, [2, 5]), (7, [2, 7])])] := by
    decide +kernel
  rw [hrun] at hmanager hsent
  obtain ⟨hfilter, hdirty⟩ := Prod.ext_iff.mp (Option.some.inj hmanager)
  change m.rep.hasInterestFilter = true at hfilter
  change m.rep.dirtyEntities = [] at hdirty
  obtain ⟨m', sent, htick, hsecret⟩ := hall tight sixHidden hfilter (by decide)
    ⟨by decide, by simp [hdirty], fun e data hdata => by cases hdata; simp⟩
  change (m.tick tight sixHidden).map Prod.snd = _ at hsent
  rw [htick] at hsent
  exact ⟨m, m', sent, hrun, htick, Option.some.inj hsent, hsecret⟩

end Replication.Memory.Replicator

end CampelloNet
