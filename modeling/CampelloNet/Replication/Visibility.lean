import CampelloNet.Entity.Tables
import CampelloNet.Lib.Run
import CampelloNet.Replication.Server

/-!
# Destroyed entities in the visibility sets

A tick enters and removes an entity of a client's visibility set only when it serialises it, and it
serialises those that the entity manager has. An entity that is destroyed while it is visible stays in
the set. Hence the sets have only entities that exist, after every tick of a run, exactly if none is
destroyed while a client sees it whose entry is still the same at the next tick (`visible_exist_iff`).
-/

namespace CampelloNet

open Lib Replication

namespace NetworkReplicationManager

variable {env : TickEnv} {client : ClientId} {state : ClientReplicationState}
  {rep : NetworkReplicationManager} {e : NetworkId}

/-! ### What is not in the snapshot -/

theorem mem_scratchDelta_iff {useInterest : Bool} {interested : NetworkId → Bool}
    {baseline snap : List EntitySnapshot} {visible : Finset NetworkId} (h : e ∉ snap.map Prod.fst) :
    e ∈ (scratchDelta useInterest interested baseline visible snap).1 ↔ e ∈ visible := by
  induction snap generalizing visible with
  | nil => exact Iff.rfl
  | cons cur rest ih =>
    rw [List.map_cons, List.mem_cons, not_or] at h
    rw [scratchDelta]
    split_ifs
    · exact (ih h.2).trans (Finset.mem_erase.trans (and_iff_right h.1))
    · exact (ih h.2).trans (Finset.mem_insert.trans (or_iff_right h.1))
    · exact ih h.2
    · exact ih h.2

theorem mem_scratchFiltered_iff {useInterest : Bool} {interested : NetworkId → Bool}
    {snap : List EntitySnapshot} {visible : Finset NetworkId} (h : e ∉ snap.map Prod.fst) :
    e ∈ (scratchFiltered useInterest interested visible snap).1 ↔ e ∈ visible := by
  rw [scratchFiltered]
  split_ifs
  · dsimp only
    induction snap generalizing visible with
    | nil => exact Iff.rfl
    | cons cur rest ih =>
      rw [List.map_cons, List.mem_cons, not_or] at h
      rw [List.foldl_cons, ih h.2]
      split_ifs
      · exact Finset.mem_insert.trans (or_iff_right h.1)
      · exact Finset.mem_erase.trans (and_iff_right h.1)
  · exact Iff.rfl

/-- An entity that is not serialised stays as visible as it is. -/
theorem mem_visible_turnFor_iff (h : e ∉ (rep.scratchSnap env).map Prod.fst) :
    e ∈ (rep.turnFor env client state).1.visibleEntities ↔ e ∈ state.visibleEntities := by
  rw [turnFor_eq]
  dsimp only
  rcases rep.deltaBaseline env state with _ | baseline
  · exact mem_scratchFiltered_iff h
  · exact mem_scratchDelta_iff h

/-! ### Ticks -/

/-- All that the tracked clients see satisfies the predicate. -/
def VisibleAll (live : NetworkId → Prop) (rep : NetworkReplicationManager) : Prop :=
  ∀ c ∈ rep.clientStates, ∀ id ∈ c.2.visibleEntities, live id

/-- A manager with an entity manager and an interest filter. -/
structure Filters (rep : NetworkReplicationManager) : Prop where
  filter : rep.hasInterestFilter = true
  managed : rep.hasEntityMgr = true

variable {live : NetworkId → Prop}

theorem visibleAll_buildAndSendSnapshot (h : rep.Filters) (hlive : ∀ id ∈ env.entities, live id) :
    (rep.buildAndSendSnapshot env).1.VisibleAll live ↔ rep.VisibleAll live := by
  have hsnap : ∀ id, ¬live id → id ∉ (rep.scratchSnap env).map Prod.fst := by
    intro id hdead hid
    obtain ⟨⟨id', data⟩, hmem, rfl⟩ := List.mem_map.mp hid
    have hent := (mem_scratchSnap.mp hmem).1
    rw [snapshotEntities_of_filter h.filter h.managed] at hent
    exact hdead (hlive id' hent)
  have hone : ∀ c : ClientId × ClientReplicationState,
      (∀ id ∈ (rep.turnFor env c.1 c.2).1.visibleEntities, live id) ↔
        ∀ id ∈ c.2.visibleEntities, live id := by
    intro c
    constructor
    · intro hall id hid
      by_contra hdead
      exact hdead (hall id ((mem_visible_turnFor_iff (hsnap id hdead)).mpr hid))
    · intro hall id hid
      by_contra hdead
      exact hdead (hall id ((mem_visible_turnFor_iff (hsnap id hdead)).mp hid))
  unfold VisibleAll buildAndSendSnapshot
  by_cases hempty : rep.clientStates.isEmpty = true
  · rw [if_pos hempty]
  · rw [if_neg hempty]
    dsimp only
    rw [List.map_map, List.forall_mem_map]
    refine forall₂_congr fun c _ => ?_
    dsimp only [Function.comp_apply]
    split_ifs
    · exact hone c
    · exact Iff.rfl

/-- The tracked clients are told apart. -/
def Keyed (rep : NetworkReplicationManager) : Prop := (rep.clientStates.map Prod.fst).Nodup

theorem visibleAll_serverTickLoop {envs : List TickEnv}
    {out : NetworkReplicationManager × List (ClientId × Bytes)} (h : rep.Filters)
    (hlive : ∀ env ∈ envs, ∀ id ∈ env.entities, live id) (hout : serverTickLoop envs rep = some out) :
    out.1.Filters ∧ (out.1.Keyed ↔ rep.Keyed) ∧ (out.1.VisibleAll live ↔ rep.VisibleAll live) := by
  induction envs generalizing rep out with
  | nil =>
    unfold serverTickLoop at hout
    split_ifs at hout
    cases hout
    exact ⟨h, Iff.rfl, Iff.rfl⟩
  | cons env envs ih =>
    unfold serverTickLoop at hout
    split_ifs at hout with hdue
    · obtain ⟨rest, hrest, rfl⟩ := Option.map_eq_some_iff.mp hout
      have hconfig := config_buildAndSendSnapshot env
        { rep with
          accumulator := binary32.sub rep.accumulator (targetDt rep.tickRate)
          snapshotId := rep.snapshotId + 1 }
      obtain ⟨hfilters, hkeyed, hiff⟩ := ih ⟨hconfig.1.trans h.filter, hconfig.2.1.trans h.managed⟩
        (fun env' henv' => hlive env' (List.mem_cons_of_mem _ henv')) hrest
      refine ⟨hfilters, hkeyed.trans ?_, hiff.trans ?_⟩
      · unfold Keyed
        rw [map_fst_buildAndSendSnapshot]
      · exact visibleAll_buildAndSendSnapshot ⟨h.filter, h.managed⟩ (hlive env List.mem_cons_self)
    · cases hout
      exact ⟨h, Iff.rfl, Iff.rfl⟩

theorem visibleAll_serverTick {deltaTime : ℚ} {envs : List TickEnv}
    {out : NetworkReplicationManager × List (ClientId × Bytes)} (h : rep.Filters)
    (hlive : ∀ env ∈ envs, ∀ id ∈ env.entities, live id)
    (hout : rep.serverTick deltaTime envs = some out) :
    out.1.Filters ∧ (out.1.Keyed ↔ rep.Keyed) ∧ (out.1.VisibleAll live ↔ rep.VisibleAll live) := by
  unfold serverTick at hout
  split_ifs at hout
  · have hloop := visibleAll_serverTickLoop (by exact ⟨h.filter, h.managed⟩) hlive hout
    exact hloop
  · cases hout
    exact ⟨h, Iff.rfl, Iff.rfl⟩

/-! ### What one client sees -/

def Sees (rep : NetworkReplicationManager) (client : ClientId) (id : NetworkId) : Prop :=
  id ∈ (rep.clientState client).visibleEntities

theorem forall_visible_iff (h : rep.Keyed) {P : ClientId → NetworkId → Prop} :
    (∀ c ∈ rep.clientStates, ∀ id ∈ c.2.visibleEntities, P c.1 id) ↔
      ∀ client id, rep.Sees client id → P client id := by
  constructor
  · intro hall client id hsees
    unfold Sees clientState at hsees
    rcases hfind : lookup Prod.fst client rep.clientStates with _ | c
    · rw [hfind] at hsees
      exact absurd hsees (Finset.notMem_empty id)
    · rw [hfind] at hsees
      rw [← lookup_key hfind]
      exact hall c (lookup_mem hfind) id hsees
  · intro hall c hc id hid
    refine hall c.1 id ?_
    unfold Sees clientState
    rw [lookup_of_mem h hc]
    exact hid

end NetworkReplicationManager

/-! ### Runs -/

/-- A server's replication and entity managers. -/
structure VisibilityRun where
  rep : NetworkReplicationManager
  entityMgr : NetworkEntityManager
  /-- the last call was a server tick -/
  ticked : Bool := false

namespace VisibilityRun

open NetworkReplicationManager

inductive Call
  | spawn (prefabId : PrefabId) (initData : Bytes) (handle : EntityHandle)
  | destroy (id : NetworkId)
  | markDirty (netId : NetworkId)
  | clientConnected (client : ClientId)
  | clientDisconnected (client : ClientId)
  | snapshotAck (client : ClientId) (id : UInt16)
  | tick (deltaTime : ℚ) (envs : List TickEnv)

/-- A tick visits the entities of the entity manager, in any order. -/
def step (s : VisibilityRun) : Call → Option VisibilityRun
  | .spawn prefabId initData handle =>
    some ⟨s.rep, (s.entityMgr.spawn prefabId initData handle).1, false⟩
  | .destroy id => some ⟨s.rep, (s.entityMgr.destroy id).1, false⟩
  | .markDirty netId => some ⟨s.rep.markDirty netId, s.entityMgr, false⟩
  | .clientConnected client => some ⟨s.rep.onClientConnected client, s.entityMgr, false⟩
  | .clientDisconnected client => some ⟨s.rep.onClientDisconnected client, s.entityMgr, false⟩
  | .snapshotAck client id => some ⟨s.rep.onSnapshotAck client id, s.entityMgr, false⟩
  | .tick deltaTime envs =>
    if ∀ env ∈ envs, env.entities.Perm (s.entityMgr.entities.map Entity.netId) then
      (s.rep.serverTick deltaTime envs).map fun out => ⟨out.1, s.entityMgr, true⟩
    else none

def Exists (s : VisibilityRun) (id : NetworkId) : Prop := (s.entityMgr.find id).isSome

/-- After a tick, what the tracked clients see exists. -/
def VisibleExist (s : VisibilityRun) : Prop := s.ticked = true → s.rep.VisibleAll s.Exists

def Call.isTick : Call → Bool
  | .tick .. => true
  | _ => false

/-- After the call the client has not been shown the entity that had the id: its entry is made anew or
erased, or the id is given to another entity. -/
def Drops (client : ClientId) (id : NetworkId) (s : VisibilityRun) : Call → Prop
  | .clientConnected client' => client' = client
  | .clientDisconnected client' => client' = client
  | .spawn .. => s.entityMgr.full = false ∧ s.entityMgr.nextId = id
  | _ => False

/-- One of the calls before the next tick does so. -/
def Forgets (client : ClientId) (id : NetworkId) : VisibilityRun → List Call → Prop
  | _, [] => True
  | s, call :: calls =>
    s.Drops client id call ∨ ¬call.isTick ∧ ∀ t ∈ s.step call, Forgets client id t calls

/-- If the call destroys an entity, each tracked client that sees it forgets it. -/
def Culls (s t : VisibilityRun) (calls : List Call) : Call → Prop
  | .destroy id => ∀ c ∈ s.rep.clientStates, id ∈ c.2.visibleEntities → Forgets c.1 id t calls
  | _ => True

def Culled : VisibilityRun → List Call → Prop
  | _, [] => True
  | s, call :: calls => ∀ t ∈ s.step call, Culls s t calls call ∧ Culled t calls

variable {s t : VisibilityRun} {call : Call} {client : ClientId} {id : NetworkId}

theorem exists_of_mem (h : id ∈ s.entityMgr.entities.map Entity.netId) : s.Exists id := by
  obtain ⟨ent, hent, rfl⟩ := List.mem_map.mp h
  exact List.find?_isSome.mpr ⟨ent, hent, decide_eq_true rfl⟩

/-- What every run keeps. -/
structure Sound (s : VisibilityRun) : Prop where
  filters : s.rep.Filters
  keyed : s.rep.Keyed

/-- A tick leaves the dead entities of the sets where they are. -/
theorem tick_spec {deltaTime : ℚ} {envs : List TickEnv} (h : s.Sound)
    (hstep : s.step (.tick deltaTime envs) = some t) :
    t.Sound ∧ t.ticked = true ∧ (t.rep.VisibleAll t.Exists ↔ s.rep.VisibleAll s.Exists) := by
  unfold step at hstep
  dsimp only at hstep
  split_ifs at hstep with hperm
  obtain ⟨out, hout, rfl⟩ := Option.map_eq_some_iff.mp hstep
  have hlive : ∀ env ∈ envs, ∀ id ∈ env.entities, s.Exists id := fun env henv id hid =>
    exists_of_mem ((hperm env henv).mem_iff.mp hid)
  obtain ⟨hfilters, hkeyed, hiff⟩ := visibleAll_serverTick h.filters hlive hout
  exact ⟨⟨hfilters, hkeyed.mpr h.keyed⟩, rfl, hiff⟩

/-! ### Dead entities that a client is still shown -/

def Dangling (s : VisibilityRun) (client : ClientId) (id : NetworkId) : Prop :=
  s.rep.Sees client id ∧ ¬s.Exists id

theorem visibleAll_iff_dangling (h : s.Sound) :
    s.rep.VisibleAll s.Exists ↔ ∀ client id, ¬s.Dangling client id := by
  refine (forall_visible_iff h.keyed (P := fun _ id => s.Exists id)).trans ?_
  exact forall₂_congr fun client id => (not_and_not_right).symm

theorem exists_spawn {prefabId : PrefabId} {initData : Bytes} {handle : EntityHandle} :
    ((s.entityMgr.spawn prefabId initData handle).1.find id).isSome ↔
      s.Exists id ∨ s.entityMgr.full = false ∧ s.entityMgr.nextId = id := by
  unfold Exists
  rw [NetworkEntityManager.spawn_fst]
  cases hfull : s.entityMgr.full with
  | true => simp
  | false =>
    obtain ⟨ent, hid, -, -, hput⟩ := @NetworkEntityManager.create_fst
      { s.entityMgr with nextId := s.entityMgr.nextId + 1 } s.entityMgr.nextId prefabId initData handle
    rw [if_neg Bool.false_ne_true, hput, NetworkEntityManager.find_put, hid]
    split_ifs with heq
    · simp [heq]
    · simp only [true_and, Ne.symm heq, or_false]
      exact Iff.rfl

theorem exists_destroy {id' : NetworkId} :
    ((s.entityMgr.destroy id').1.find id).isSome ↔ s.Exists id ∧ id ≠ id' := by
  unfold Exists NetworkEntityManager.destroy
  rcases hfind : s.entityMgr.find id' with _ | ent
  · refine (and_iff_left_of_imp ?_).symm
    rintro hsome rfl
    rw [hfind] at hsome
    cases hsome
  · have hid : ent.netId = id' := lookup_key hfind
    show ((s.entityMgr.erase ent.netId).find id).isSome ↔ _
    rw [hid, NetworkEntityManager.find_erase]
    split_ifs with heq <;> simp [heq]

/-- Between ticks a client is shown dead entities until it forgets them, and those that are destroyed. -/
theorem dangling_step (h : s.Sound) (hcall : call.isTick = false)
    (hstep : s.step call = some t) : t.Sound ∧ t.ticked = false ∧ ∀ client id, t.Dangling client id ↔
      s.Dangling client id ∧ ¬s.Drops client id call ∨ call = .destroy id ∧ s.rep.Sees client id := by
  obtain ⟨⟨hfilter, hmanaged⟩, hkeyed⟩ := h
  cases call with
  | tick => cases hcall
  | spawn prefabId initData handle =>
    cases hstep
    refine ⟨⟨⟨hfilter, hmanaged⟩, hkeyed⟩, rfl, fun client id => ?_⟩
    show _ ∧ ¬(Option.isSome _ = true) ↔ _
    rw [exists_spawn]
    simp [Dangling, Drops, and_assoc]
  | destroy id' =>
    cases hstep
    refine ⟨⟨⟨hfilter, hmanaged⟩, hkeyed⟩, rfl, fun client id => ?_⟩
    show _ ∧ ¬(Option.isSome _ = true) ↔ _
    rw [exists_destroy]
    simp only [Dangling, Drops, Call.destroy.injEq]
    grind
  | markDirty netId =>
    cases hstep
    refine ⟨⟨⟨hfilter, hmanaged⟩, hkeyed⟩, rfl, fun client id => ?_⟩
    simp only [Drops, reduceCtorEq, not_false_eq_true, and_true, false_and, or_false]
    exact Iff.rfl
  | clientConnected client' =>
    cases hstep
    refine ⟨⟨⟨hfilter, hmanaged⟩, nodup_map_key_upsert _ hkeyed⟩, rfl, fun client id => ?_⟩
    show id ∈ ((s.rep.setClientState client' {}).clientState client).visibleEntities ∧ ¬s.Exists id ↔ _
    rw [clientState_setClientState]
    split_ifs with heq
    · simp [Drops, heq]
    · simp [Drops, Dangling, Sees, Ne.symm heq]
  | clientDisconnected client' =>
    cases hstep
    refine ⟨⟨⟨hfilter, hmanaged⟩, hkeyed.sublist (List.filter_sublist.map _)⟩, rfl, fun client id => ?_⟩
    show id ∈ ((s.rep.onClientDisconnected client').clientState client).visibleEntities ∧ ¬s.Exists id ↔ _
    rw [clientState_onClientDisconnected]
    split_ifs with heq
    · simp [Drops, heq]
    · simp [Drops, Dangling, Sees, Ne.symm heq]
  | snapshotAck client' ack =>
    cases hstep
    refine ⟨⟨⟨hfilter, hmanaged⟩, nodup_map_key_upsert _ hkeyed⟩, rfl, fun client id => ?_⟩
    show id ∈ ((s.rep.onSnapshotAck client' ack).clientState client).visibleEntities ∧ ¬s.Exists id ↔ _
    rw [visible_onSnapshotAck]
    simp only [Drops, reduceCtorEq, not_false_eq_true, and_true, false_and, or_false]
    exact Iff.rfl

theorem forgets_cons {calls : List Call} (hcall : call.isTick = false) (hstep : s.step call = some t) :
    Forgets client id s (call :: calls) ↔ s.Drops client id call ∨ Forgets client id t calls := by
  simp [Forgets, hcall, hstep]

theorem culls_iff {calls : List Call} (h : s.Sound) : Culls s t calls call ↔
    ∀ client id, call = .destroy id → s.rep.Sees client id → Forgets client id t calls := by
  cases call with
  | destroy id' =>
    refine Iff.trans ?_ ((forall_visible_iff h.keyed
      (P := fun client id => id = id' → Forgets client id t calls)).trans ?_)
    · exact forall₂_congr fun c _ => ⟨fun hid id hid' heq => by subst heq; exact hid hid',
        fun hall hid => hall id' hid rfl⟩
    · refine forall₂_congr fun client id => ⟨fun hall heq hsees => ?_, fun hall hsees heq => ?_⟩
      · exact hall hsees (Call.destroy.inj heq).symm
      · exact hall (congrArg Call.destroy heq.symm) hsees
  | _ => exact iff_of_true trivial nofun

/-- A run in which no dead entity is to be shown at a tick. -/
theorem always_iff {calls : List Call} (h : s.Sound) (hrun : Run.exec step s calls = some t) :
    Run.Always step VisibleExist s calls ↔ s.VisibleExist ∧
      (∀ client id, s.Dangling client id → Forgets client id s calls) ∧ Culled s calls := by
  induction calls generalizing s with
  | nil => exact ⟨fun hs => ⟨hs, fun _ _ _ => trivial, trivial⟩, fun hs => hs.1⟩
  | cons call calls ih =>
    obtain ⟨u, hstep, hrest⟩ := Option.bind_eq_some_iff.mp hrun
    have halways : Run.Always step VisibleExist s (call :: calls) ↔
        s.VisibleExist ∧ Run.Always step VisibleExist u calls := by
      show s.VisibleExist ∧ (∀ t ∈ s.step call, Run.Always step VisibleExist t calls) ↔ _
      simp only [hstep, Option.mem_some_iff, forall_eq']
    have hculled : Culled s (call :: calls) ↔
        (∀ client id, call = .destroy id → s.rep.Sees client id → Forgets client id u calls) ∧
          Culled u calls := by
      rw [← culls_iff h]
      simp [Culled, hstep]
    rw [halways, hculled]
    cases htick : call.isTick with
    | true =>
      obtain ⟨deltaTime, envs, rfl⟩ : ∃ deltaTime envs, call = .tick deltaTime envs := by
        cases call with
        | tick deltaTime envs => exact ⟨_, _, rfl⟩
        | _ => cases htick
      obtain ⟨hu, hticked, hiff⟩ := tick_spec h hstep
      have hexist : u.VisibleExist ↔ ∀ client id, ¬s.Dangling client id :=
        (imp_iff_right hticked).trans (hiff.trans (visibleAll_iff_dangling h))
      have hclean : u.VisibleExist → ∀ client id, ¬u.Dangling client id := fun hexists =>
        (visibleAll_iff_dangling hu).mp (hexists hticked)
      rw [ih hu hrest]
      constructor
      · rintro ⟨hs, hexists, -, hculled⟩
        exact ⟨hs, fun client id hdead => absurd hdead (hexist.mp hexists client id), nofun, hculled⟩
      · rintro ⟨hs, hforgets, -, hculled⟩
        have hexists : u.VisibleExist := hexist.mpr fun client id hdead => by
          simpa [Forgets, Drops, Call.isTick] using hforgets client id hdead
        exact ⟨hs, hexists, fun client id hdead => absurd hdead (hclean hexists client id), hculled⟩
    | false =>
      obtain ⟨hu, hticked, hdangling⟩ := dangling_step h htick hstep
      have hexists : u.VisibleExist := fun h => absurd (hticked.symm.trans h) Bool.false_ne_true
      rw [ih hu hrest]
      simp only [hdangling, forgets_cons htick hstep, hexists, true_and]
      constructor
      · rintro ⟨hs, hforgets, hculled⟩
        refine ⟨hs, fun client id hdead => ?_, fun client id heq hsees => ?_, hculled⟩
        · by_cases hdrops : s.Drops client id call
          · exact .inl hdrops
          · exact .inr (hforgets client id (.inl ⟨hdead, hdrops⟩))
        · exact hforgets client id (.inr ⟨heq, hsees⟩)
      · rintro ⟨hs, hforgets, hseen, hculled⟩
        refine ⟨hs, ?_, hculled⟩
        rintro client id (⟨hdead, hdrops⟩ | ⟨heq, hsees⟩)
        · exact (hforgets client id hdead).resolve_left hdrops
        · exact hseen client id heq hsees

/-- A server that has shown no client an entity that does not exist. -/
structure Starts (s : VisibilityRun) : Prop where
  sound : s.Sound
  visible : s.rep.VisibleAll s.Exists

/-- In every run, what a tracked client sees exists after each server tick, if and only if each time that
an entity is destroyed, the tracked clients that see it are connected anew or disconnected before the next
tick, or its id is given again. -/
theorem visible_exist_iff (s t : VisibilityRun) (calls : List Call) (hstart : s.Starts)
    (hrun : Run.exec step s calls = some t) :
    Run.Always step VisibleExist s calls ↔ Culled s calls := by
  have hdead := (visibleAll_iff_dangling hstart.sound).mp hstart.visible
  rw [always_iff hstart.sound hrun]
  exact ⟨fun h => h.2.2, fun h =>
    ⟨fun _ => hstart.visible, fun client id hdangling => absurd hdangling (hdead client id), h⟩⟩

/-! ### A destroyed entity -/

instance (s : VisibilityRun) : DecidablePred s.Exists :=
  fun id => inferInstanceAs (Decidable ((s.entityMgr.find id).isSome = true))

instance (rep : NetworkReplicationManager) (live : NetworkId → Prop) [DecidablePred live] :
    Decidable (rep.VisibleAll live) :=
  have : ∀ c : ClientId × ClientReplicationState, Decidable (∀ id ∈ c.2.visibleEntities, live id) :=
    fun _ => Finset.decidableDforallFinset
  inferInstanceAs (Decidable (∀ c ∈ rep.clientStates, ∀ id ∈ c.2.visibleEntities, live id))

instance (s : VisibilityRun) : DecidablePred (s.Drops client id)
  | .clientConnected _ | .clientDisconnected _ => inferInstanceAs (Decidable (_ = _))
  | .spawn .. => inferInstanceAs (Decidable (_ ∧ _))
  | .destroy _ | .markDirty _ | .snapshotAck .. | .tick .. => isFalse fun h => h

instance decidableForgets : ∀ s calls, Decidable (Forgets client id s calls)
  | _, [] => isTrue trivial
  | s, call :: calls =>
    have : DecidablePred fun t => Forgets client id t calls := fun t => decidableForgets t calls
    inferInstanceAs (Decidable (_ ∨ _ ∧ ∀ t ∈ s.step call, Forgets client id t calls))

instance (s t : VisibilityRun) (calls : List Call) : DecidablePred (Culls s t calls)
  | .destroy id =>
    inferInstanceAs (Decidable (∀ c ∈ s.rep.clientStates, id ∈ c.2.visibleEntities → _))
  | .spawn .. | .markDirty _ | .clientConnected _ | .clientDisconnected _ | .snapshotAck .. | .tick .. =>
    isTrue trivial

instance decidableCulled : ∀ s calls, Decidable (Culled s calls)
  | _, [] => isTrue trivial
  | s, call :: calls =>
    have : DecidablePred fun t => Culls s t calls call ∧ Culled t calls := fun t =>
      have := decidableCulled t calls
      inferInstanceAs (Decidable (_ ∧ _))
    inferInstanceAs (Decidable (∀ t ∈ s.step call, Culls s t calls call ∧ Culled t calls))

/-- A server with one client, which sees everything. -/
def watched : VisibilityRun where
  rep := { hasBridge := true, hasEntityMgr := true, hasInterestFilter := true, clientStates := [(7, {})] }
  entityMgr := {}

theorem watched_starts : watched.Starts :=
  ⟨⟨⟨rfl, rfl⟩, List.nodup_singleton _⟩, by decide⟩

/-- A tick of the given entities, all of which have a state. -/
def tickOf (entities : List NetworkId) : Call :=
  .tick (1 / 30) [{ serialize := fun _ => some [1], connected := fun _ => true, entities := entities }]

/-- Two entities are destroyed that the client sees: it is connected anew before the next tick. -/
def renewed : List Call :=
  [.spawn 1 [] 0, .spawn 1 [] 0, tickOf [1, 2], .destroy 1, .markDirty 2, .clientConnected 7, tickOf [2],
    .destroy 2, .clientDisconnected 7, tickOf []]

theorem visible_exist_renewed : ∃ t, Run.exec step watched renewed = some t ∧
    Run.Always step VisibleExist watched renewed := by
  obtain ⟨t, ht⟩ := Option.isSome_iff_exists.mp
    (show (Run.exec step watched renewed).isSome = true by decide +kernel)
  exact ⟨t, ht, (visible_exist_iff watched t renewed watched_starts ht).mpr (by decide +kernel)⟩

/-- After every tick of every run the visible entities exist. -/
def AlwaysVisibleExist : Prop :=
  ∀ (s t : VisibilityRun) (calls : List Call), s.Starts → Run.exec step s calls = some t →
    Run.Always step VisibleExist s calls

/-- An entity is destroyed that the client sees. -/
theorem not_alwaysVisibleExist : ¬AlwaysVisibleExist := by
  intro h
  obtain ⟨t, ht⟩ := Option.isSome_iff_exists.mp
    (show (Run.exec step watched [.spawn 1 [] 0, tickOf [1], .destroy 1, tickOf []]).isSome = true by
      decide +kernel)
  have hkept := h watched t _ watched_starts ht
  have hculled := ((always_iff watched_starts.sound ht).mp hkept).2.2
  revert hculled
  decide +kernel

end VisibilityRun

end CampelloNet
