import CampelloNet.Replication

/-!
# What a tick sends to a client

`build_and_send_snapshot` visits all clients. For one of them, it sends the entities of the current
snapshot that the client is interested in: all of these, or, where there is a baseline to compare with,
those that enter interest and those whose bytes differ from the baseline.
-/

namespace CampelloNet

open Lib Replication

namespace NetworkReplicationManager

section
variable (env : TickEnv) (client : ClientId) (state : ClientReplicationState)
  (rep : NetworkReplicationManager)

/-- The manager with the current snapshot in its history. -/
def stored : NetworkReplicationManager :=
  { rep with snapshotHistory := rep.snapshotHistory.store rep.snapshotId (rep.scratchSnap env) }

/-- The baseline of the delta for a client, `none` if it gets a full snapshot. -/
def deltaBaseline : Option (List EntitySnapshot) :=
  if rep.forceFullSync || !state.hasAck then none
  else if rep.snapshotId - state.lastAckedSnapshot > rep.maxBaselineAge then none
  else (rep.stored env).snapshotHistory.retrieve state.lastAckedSnapshot

/-- The entities that a connected client is sent, and its state after it. -/
def turnFor : ClientReplicationState × List EntitySnapshot :=
  (rep.stored env).snapshotFor env rep.forceFullSync (rep.scratchSnap env) client state

end

variable {env : TickEnv} {client : ClientId} {state : ClientReplicationState}
  {rep : NetworkReplicationManager} {e : NetworkId} {data : Bytes}

theorem turnFor_eq : rep.turnFor env client state =
    let out := match rep.deltaBaseline env state with
      | none => scratchFiltered rep.hasInterestFilter (env.interested · client) state.visibleEntities
          (rep.scratchSnap env)
      | some baseline => scratchDelta rep.hasInterestFilter (env.interested · client) baseline
          state.visibleEntities (rep.scratchSnap env)
    ({ state with visibleEntities := out.1 }, out.2) := by
  unfold turnFor snapshotFor deltaBaseline
  dsimp only
  by_cases hfull : (rep.forceFullSync || !state.hasAck) = true
  · rw [if_pos hfull, if_pos hfull]
    rfl
  · rw [if_neg hfull, if_neg hfull]
    have hid : (rep.stored env).snapshotId = rep.snapshotId := rfl
    have hage : (rep.stored env).maxBaselineAge = rep.maxBaselineAge := rfl
    rw [hid, hage]
    rcases (rep.stored env).snapshotHistory.retrieve state.lastAckedSnapshot with _ | baseline
    · rw [ite_self]
      rfl
    · dsimp only
      split_ifs
      · rfl
      · rfl

/-- What a tick does for a client that is connected. -/
theorem buildAndSendSnapshot_client (rep : NetworkReplicationManager)
    (hn : (rep.clientStates.map Prod.fst).Nodup)
    (hclient : lookup Prod.fst client rep.clientStates = some (client, state))
    (hconn : env.connected client = true) :
    lookup Prod.fst client (rep.buildAndSendSnapshot env).1.clientStates =
      some (client, (rep.turnFor env client state).1) ∧
    (lookup Prod.fst client (rep.buildAndSendSnapshot env).2).map Prod.snd =
      if (rep.turnFor env client state).2 = [] then none
      else some (snapshotMessage rep.snapshotId (rep.turnFor env client state).2) := by
  have hsome : ¬rep.clientStates.isEmpty = true := by
    intro hempty
    rw [List.isEmpty_iff.mp hempty] at hclient
    cases hclient
  -- the turn of every client
  let turn : ClientId × ClientReplicationState → ClientId × ClientReplicationState × List EntitySnapshot :=
    fun c => if env.connected c.1 then (c.1, rep.turnFor env c.1 c.2) else (c.1, c.2, [])
  have hkey : ∀ c, (turn c).1 = c.1 := by
    intro c
    show (if _ then _ else _ : ClientId × ClientReplicationState × List EntitySnapshot).1 = c.1
    split_ifs <;> rfl
  have hturn : lookup Prod.fst client (rep.clientStates.map turn) =
      some (client, rep.turnFor env client state) := by
    rw [lookup_map hkey, hclient, Option.map_some]
    exact congrArg some (if_pos hconn)
  have hnodup : ((rep.clientStates.map turn).map Prod.fst).Nodup := by
    rwa [List.map_map, show Prod.fst ∘ turn = Prod.fst from funext hkey]
  have hbuild : rep.buildAndSendSnapshot env =
      ({ rep.stored env with
          dirtyEntities := []
          clientStates := (rep.clientStates.map turn).map fun c => (c.1, c.2.1) },
        ((rep.clientStates.map turn).filter fun c => !c.2.2.isEmpty).map fun c =>
          (c.1, snapshotMessage rep.snapshotId c.2.2)) := by
    unfold buildAndSendSnapshot
    rw [if_neg hsome]
    rfl
  rw [hbuild]
  constructor
  · refine (lookup_map (fun _ => rfl) client _).trans ?_
    rw [hturn]
    rfl
  · refine (congrArg (Option.map Prod.snd) (lookup_map (fun _ => rfl) client _)).trans ?_
    rw [lookup_filter hnodup, hturn]
    by_cases hnil : (rep.turnFor env client state).2 = []
    · rw [if_pos hnil, Option.filter_some, if_neg (by simp [hnil])]
      rfl
    · rw [if_neg hnil, Option.filter_some, if_pos (by simp [hnil])]
      rfl

/-- A tick keeps the table of clients. -/
theorem map_fst_buildAndSendSnapshot (env : TickEnv) (rep : NetworkReplicationManager) :
    (rep.buildAndSendSnapshot env).1.clientStates.map Prod.fst = rep.clientStates.map Prod.fst := by
  unfold buildAndSendSnapshot
  by_cases hempty : rep.clientStates.isEmpty
  · rw [if_pos hempty]
  · rw [if_neg hempty, List.map_map, List.map_map]
    apply List.map_congr_left
    intro c _
    show (if _ then _ else _ : ClientId × ClientReplicationState × List EntitySnapshot).1 = c.1
    split_ifs <;> rfl

theorem config_buildAndSendSnapshot (env : TickEnv) (rep : NetworkReplicationManager) :
    (rep.buildAndSendSnapshot env).1.hasInterestFilter = rep.hasInterestFilter ∧
      (rep.buildAndSendSnapshot env).1.hasEntityMgr = rep.hasEntityMgr ∧
      (rep.buildAndSendSnapshot env).1.snapshotId = rep.snapshotId := by
  unfold buildAndSendSnapshot
  split_ifs <;> exact ⟨rfl, rfl, rfl⟩

/-! ### The current snapshot -/

theorem mem_scratchSnap : (e, data) ∈ rep.scratchSnap env ↔
    e ∈ rep.snapshotEntities env ∧ env.serialize e = some data := by
  unfold scratchSnap
  rw [List.mem_filterMap]
  constructor
  · rintro ⟨id, hid, hsome⟩
    obtain ⟨d, hd, heq⟩ := Option.map_eq_some_iff.mp hsome
    cases heq
    exact ⟨hid, hd⟩
  · rintro ⟨hid, hd⟩
    exact ⟨e, hid, by rw [hd]; rfl⟩

/-- With an entity manager and an interest filter the snapshot covers the managed entities. -/
theorem snapshotEntities_of_filter (hfilter : rep.hasInterestFilter = true)
    (hmgr : rep.hasEntityMgr = true) : rep.snapshotEntities env = env.entities := by
  unfold snapshotEntities
  rw [hfilter, hmgr]
  rfl

/-- It covers them also as long as there is a connected client without an ack. -/
theorem snapshotEntities_of_noAck (hmgr : rep.hasEntityMgr = true)
    (hclient : (client, state) ∈ rep.clientStates) (hconn : env.connected client = true)
    (hack : state.hasAck = false) : rep.snapshotEntities env = env.entities := by
  have hany : (rep.clientStates.any fun c => env.connected c.1 && !c.2.hasAck) = true :=
    List.any_eq_true.mpr ⟨_, hclient, by simp [hconn, hack]⟩
  unfold snapshotEntities
  rw [hany, hmgr]
  simp

/-- A dirty entity is covered, unless there is an entity manager that does not know it. -/
theorem mem_snapshotEntities_of_dirty (hdirty : e ∈ rep.dirtyEntities)
    (hlive : rep.hasEntityMgr = true → e ∈ env.entities) : e ∈ rep.snapshotEntities env := by
  unfold snapshotEntities
  dsimp only
  split_ifs with hfull
  · rw [Bool.and_eq_true] at hfull
    exact hlive hfull.2
  · exact hdirty

theorem scratchDelta_sublist (useInterest : Bool) (interested : NetworkId → Bool)
    (baseline : List EntitySnapshot) (visible : Finset NetworkId) (snap : List EntitySnapshot) :
    (scratchDelta useInterest interested baseline visible snap).2.Sublist snap := by
  induction snap generalizing visible with
  | nil => exact List.Sublist.refl _
  | cons cur rest ih =>
    rw [scratchDelta]
    by_cases hout : (useInterest && !interested cur.1) = true
    · rw [if_pos hout]
      exact (ih _).cons cur
    · rw [if_neg hout]
      by_cases hnew : (useInterest && decide (cur.1 ∉ visible)) = true
      · rw [if_pos hnew]
        exact (ih _).cons_cons cur
      · rw [if_neg hnew]
        dsimp only
        split_ifs
        · exact (ih _).cons_cons cur
        · exact (ih _).cons cur

/-- Only entities of the current snapshot are sent. -/
theorem turnFor_sublist (env : TickEnv) (client : ClientId) (state : ClientReplicationState)
    (rep : NetworkReplicationManager) :
    (rep.turnFor env client state).2.Sublist (rep.scratchSnap env) := by
  rw [turnFor_eq]
  dsimp only
  rcases rep.deltaBaseline env state with _ | baseline
  · show (scratchFiltered _ _ _ _).2.Sublist _
    unfold scratchFiltered
    split_ifs
    · exact List.filter_sublist
    · exact List.Sublist.refl _
  · exact scratchDelta_sublist _ _ _ _ _

/-! ### Without an interest filter -/

theorem scratchDelta_unfiltered (interested : NetworkId → Bool) (baseline : List EntitySnapshot)
    (visible : Finset NetworkId) (snap : List EntitySnapshot) :
    scratchDelta false interested baseline visible snap = (visible, snap.filter (changed baseline)) := by
  induction snap with
  | nil => rfl
  | cons cur rest ih =>
    rw [scratchDelta, ih, List.filter_cons]
    rfl

theorem turnFor_unfiltered (hfilter : rep.hasInterestFilter = false) :
    (rep.turnFor env client state).2 = match rep.deltaBaseline env state with
      | none => rep.scratchSnap env
      | some baseline => (rep.scratchSnap env).filter (changed baseline) := by
  rw [turnFor_eq, hfilter]
  dsimp only
  rcases rep.deltaBaseline env state with _ | baseline
  · rfl
  · dsimp only
    rw [scratchDelta_unfiltered]

/-- An entity of the snapshot is sent unless its bytes are those of the baseline. -/
theorem mem_turnFor (hfilter : rep.hasInterestFilter = false) :
    (e, data) ∈ (rep.turnFor env client state).2 ↔ (e, data) ∈ rep.scratchSnap env ∧
      ∀ baseline ∈ rep.deltaBaseline env state, changed baseline (e, data) = true := by
  rw [turnFor_unfiltered hfilter]
  rcases rep.deltaBaseline env state with _ | baseline
  · simp
  · simp [List.mem_filter]

/-! ### With an interest filter -/

section
variable {interested : NetworkId → Bool} {baseline : List EntitySnapshot} {visible : Finset NetworkId}
  {snap : List EntitySnapshot}

theorem scratchDelta_out {cur : EntitySnapshot} (h : interested cur.1 = false) :
    scratchDelta true interested baseline visible (cur :: snap) =
      scratchDelta true interested baseline (visible.erase cur.1) snap := by
  rw [scratchDelta, if_pos (by simp [h])]

theorem scratchDelta_new {cur : EntitySnapshot} (h : interested cur.1 = true)
    (hnew : cur.1 ∉ visible) :
    scratchDelta true interested baseline visible (cur :: snap) =
      ((scratchDelta true interested baseline (insert cur.1 visible) snap).1,
        cur :: (scratchDelta true interested baseline (insert cur.1 visible) snap).2) := by
  rw [scratchDelta, if_neg (by simp [h]), if_pos (by simp [hnew])]

theorem scratchDelta_old {cur : EntitySnapshot} (h : interested cur.1 = true)
    (hold : cur.1 ∈ visible) :
    scratchDelta true interested baseline visible (cur :: snap) =
      ((scratchDelta true interested baseline visible snap).1,
        if changed baseline cur then cur :: (scratchDelta true interested baseline visible snap).2
        else (scratchDelta true interested baseline visible snap).2) := by
  rw [scratchDelta, if_neg (by simp [h]), if_neg (by simp [hold])]

/-- An entity that enters interest is in the delta. -/
theorem mem_scratchDelta_of_new (hmem : e ∈ snap.map Prod.fst) (hinterest : interested e = true)
    (hnew : e ∉ visible) :
    e ∈ (scratchDelta true interested baseline visible snap).2.map Prod.fst := by
  induction snap generalizing visible with
  | nil => exact absurd hmem List.not_mem_nil
  | cons cur rest ih =>
    by_cases hcur : e = cur.1
    · subst hcur
      rw [scratchDelta_new hinterest hnew]
      exact List.mem_cons_self
    · have hrest : e ∈ rest.map Prod.fst := (List.mem_cons.mp hmem).resolve_left hcur
      rcases Bool.eq_false_or_eq_true (interested cur.1) with hyes | hno
      · by_cases hold : cur.1 ∈ visible
        · rw [scratchDelta_old hyes hold]
          have hin := ih hrest hnew
          dsimp only
          split_ifs
          · exact List.mem_cons_of_mem _ hin
          · exact hin
        · rw [scratchDelta_new hyes hold]
          refine List.mem_cons_of_mem _ (ih hrest fun h => ?_)
          exact hnew ((Finset.mem_insert.mp h).resolve_left hcur)
      · rw [scratchDelta_out hno]
        exact ih hrest fun h => hnew (Finset.mem_of_mem_erase h)

theorem visible_scratchDelta (h : e ∈ (scratchDelta true interested baseline visible snap).1) :
    interested e = true ∨ e ∈ visible ∧ e ∉ snap.map Prod.fst := by
  induction snap generalizing visible with
  | nil => exact .inr ⟨h, List.not_mem_nil⟩
  | cons cur rest ih =>
    rcases Bool.eq_false_or_eq_true (interested cur.1) with hyes | hno
    · by_cases hint : interested e = true
      · exact .inl hint
      · have hcur : e ≠ cur.1 := fun heq => hint (heq ▸ hyes)
        right
        by_cases hold : cur.1 ∈ visible
        · rw [scratchDelta_old hyes hold] at h
          obtain ⟨hin, hnot⟩ := (ih h).resolve_left hint
          exact ⟨hin, List.not_mem_cons_of_ne_of_not_mem hcur hnot⟩
        · rw [scratchDelta_new hyes hold] at h
          obtain ⟨hin, hnot⟩ := (ih h).resolve_left hint
          exact ⟨(Finset.mem_insert.mp hin).resolve_left hcur,
            List.not_mem_cons_of_ne_of_not_mem hcur hnot⟩
    · rw [scratchDelta_out hno] at h
      rcases ih h with hint | ⟨hin, hnot⟩
      · exact .inl hint
      · exact .inr ⟨Finset.mem_of_mem_erase hin,
          List.not_mem_cons_of_ne_of_not_mem (Finset.ne_of_mem_erase hin) hnot⟩

theorem visible_scratchFiltered (h : e ∈ (scratchFiltered true interested visible snap).1) :
    interested e = true ∨ e ∈ visible ∧ e ∉ snap.map Prod.fst := by
  have hfold : ∀ (snap : List EntitySnapshot) (visible : Finset NetworkId),
      e ∈ snap.foldl (fun visible ent => if interested ent.1 then insert ent.1 visible
        else visible.erase ent.1) visible →
      interested e = true ∨ e ∈ visible ∧ e ∉ snap.map Prod.fst := by
    intro snap
    induction snap with
    | nil => exact fun visible h => .inr ⟨h, List.not_mem_nil⟩
    | cons cur rest ih =>
      intro visible h
      rcases ih _ h with hint | ⟨hin, hnot⟩
      · exact .inl hint
      · dsimp only at hin
        by_cases hyes : interested cur.1 = true
        · rw [if_pos hyes] at hin
          by_cases hcur : e = cur.1
          · exact .inl (hcur ▸ hyes)
          · exact .inr ⟨(Finset.mem_insert.mp hin).resolve_left hcur,
              List.not_mem_cons_of_ne_of_not_mem hcur hnot⟩
        · rw [if_neg hyes] at hin
          exact .inr ⟨Finset.mem_of_mem_erase hin,
            List.not_mem_cons_of_ne_of_not_mem (Finset.ne_of_mem_erase hin) hnot⟩
  exact hfold snap visible h

theorem mem_scratchFiltered (hmem : e ∈ snap.map Prod.fst) (hinterest : interested e = true) :
    e ∈ (scratchFiltered true interested visible snap).2.map Prod.fst := by
  obtain ⟨ent, hent, rfl⟩ := List.mem_map.mp hmem
  exact List.mem_map_of_mem (List.mem_filter.mpr ⟨hent, hinterest⟩)

end

/-- An entity that enters interest is sent. -/
theorem mem_turnFor_of_new (hfilter : rep.hasInterestFilter = true)
    (hmem : (e, data) ∈ rep.scratchSnap env) (hinterest : env.interested e client = true)
    (hnew : e ∉ state.visibleEntities) : e ∈ (rep.turnFor env client state).2.map Prod.fst := by
  have hkey : e ∈ (rep.scratchSnap env).map Prod.fst := List.mem_map_of_mem hmem
  rw [turnFor_eq, hfilter]
  dsimp only
  rcases rep.deltaBaseline env state with _ | baseline
  · exact mem_scratchFiltered hkey hinterest
  · exact mem_scratchDelta_of_new hkey hinterest hnew

/-- What is visible after a tick is of interest, or it was visible and is not in the snapshot. -/
theorem visible_turnFor (rep : NetworkReplicationManager) (hfilter : rep.hasInterestFilter = true)
    (h : e ∈ (rep.turnFor env client state).1.visibleEntities) :
    env.interested e client = true ∨
      e ∈ state.visibleEntities ∧ e ∉ (rep.scratchSnap env).map Prod.fst := by
  rw [turnFor_eq, hfilter] at h
  dsimp only at h
  rcases hbase : rep.deltaBaseline env state with _ | baseline
  · rw [hbase] at h
    exact visible_scratchFiltered h
  · rw [hbase] at h
    exact visible_scratchDelta h

end NetworkReplicationManager

end CampelloNet
