import CampelloNet.Replication.Contents
import CampelloNet.Replication.SpatialInterest
import Mathlib.Data.Finset.Card
import Mathlib.Data.Rat.Floor

/-!
# The cap on the entities of a client

`max_entities_per_client` cuts what `query_visible` returns. The filter that a replication manager is given
asks `is_relevant` about one entity after the other and counts none, so that a full state has all that is
relevant. No message has more entities than the cap exactly if no more are relevant to the client
(`cap_kept_iff`).
-/

namespace CampelloNet.Replication

open Lib NetworkReplicationManager

/-! ### Counting the entities of a message -/

/-- The entities that follow the header, whatever number the header announces. -/
def entityCount (message : Bytes) : ℕ := (parseEntities (message.drop 7).length (message.drop 7)).length

/-- The length of an entity's bytes is sent in 16 bits, and no more bytes than it says. -/
def truncated (ent : EntitySnapshot) : EntitySnapshot :=
  (ent.1, ent.2.take (UInt16.ofNat ent.2.length).toNat)

theorem length_truncated (ent : EntitySnapshot) :
    (truncated ent).2.length = (UInt16.ofNat ent.2.length).toNat := by
  have hle : (UInt16.ofNat ent.2.length).toNat ≤ ent.2.length := by
    rw [UInt16.toNat_ofNat']
    exact Nat.mod_le _ _
  rw [truncated, List.length_take, min_eq_left hle]

theorem entityBytes_truncated (ent : EntitySnapshot) : entityBytes (truncated ent) = entityBytes ent := by
  unfold entityBytes
  dsimp only
  rw [length_truncated, UInt16.ofNat_toNat]
  unfold truncated
  dsimp only
  rw [List.take_take, min_self]

theorem length_entityBytes (ent : EntitySnapshot) : 10 ≤ (entityBytes ent).length := by
  unfold entityBytes
  simp
  omega

theorem parseEntities_nil (n : ℕ) : parseEntities n [] = [] := by
  cases n with
  | zero => rfl
  | succ n => rfl

theorem length_parseEntities_flatMap (entities : List EntitySnapshot) {n : ℕ} (h : entities.length ≤ n) :
    (parseEntities n (entities.flatMap entityBytes)).length = entities.length := by
  induction entities generalizing n with
  | nil => rw [List.flatMap_nil, parseEntities_nil]
  | cons ent entities ih =>
    obtain ⟨k, rfl⟩ : ∃ k, n = k + 1 := ⟨n - 1, by simp at h; omega⟩
    have hshort : (truncated ent).2.length < 65536 := by
      rw [length_truncated]
      exact (UInt16.ofNat ent.2.length).toNat_lt
    rw [List.flatMap_cons, ← entityBytes_truncated, parseEntities_cons hshort, List.length_cons,
      ih (Nat.le_of_succ_le_succ h), List.length_cons]

theorem length_le_flatMap (entities : List EntitySnapshot) :
    entities.length ≤ (entities.flatMap entityBytes).length := by
  induction entities with
  | nil => exact le_refl 0
  | cons ent entities ih =>
    have hten := length_entityBytes ent
    rw [List.flatMap_cons, List.length_cons, List.length_append]
    omega

@[simp] theorem entityCount_snapshotMessage (id : UInt16) (entities : List EntitySnapshot) :
    entityCount (snapshotMessage id entities) = entities.length := by
  have hdrop : (snapshotMessage id entities).drop 7 = entities.flatMap entityBytes := by
    have hskip : (snapshotMessage id entities).drop 7 = ((snapshotMessage id entities).drop 3).drop 4 := by
      rw [List.drop_drop]
    rw [hskip, drop_snapshotMessage]
    rfl
  unfold entityCount
  rw [hdrop]
  exact length_parseEntities_flatMap entities (length_le_flatMap entities)

namespace SpatialInterestManager

variable {K : Type*} [Field K] [LinearOrder K] {m : SpatialInterestManager K} {client : ClientId}

/-- The registered entities that are relevant to a client. -/
def relevantTo (client : ClientId) (m : SpatialInterestManager K) : Finset NetworkId :=
  (m.entities.map EntityEntry.id).toFinset.filter fun id => m.isRelevant id client = true

theorem mem_relevantTo {id : NetworkId} : id ∈ m.relevantTo client ↔ m.isRelevant id client = true := by
  unfold relevantTo
  rw [Finset.mem_filter, List.mem_toFinset, and_iff_right_iff_imp]
  intro hrelevant
  unfold isRelevant at hrelevant
  cases hent : m.findEntity id with
  | none =>
    rw [hent] at hrelevant
    cases hrelevant
  | some ent =>
    obtain rfl : ent.id = id := lookup_key hent
    exact List.mem_map_of_mem (lookup_mem hent)

/-- The filter of the manager is the interest filter of a server when it ticks. -/
structure Installed (m : SpatialInterestManager K) (env : TickEnv) (s : ServerRun) : Prop where
  filter : s.rep.hasInterestFilter = true
  asked : ∀ id client, env.interested id client = m.isRelevant id client

/-- Whatever entities and clients a server has, the messages to a client are within the cap. -/
def KeepsCap (client : ClientId) (m : SpatialInterestManager K) : Prop :=
  ∀ (s₀ s : ServerRun) (run : List ServerRun.Call) (env : TickEnv) (message : Bytes), s₀.Fresh →
    Run.exec ServerRun.step s₀ run = some s → env.entities.Nodup → m.Installed env s →
    (client, message) ∈ s.sent env → entityCount message ≤ m.maxEntitiesPerClient

theorem length_entitiesFor_le {s : ServerRun} {env : TickEnv} {state : ClientReplicationState}
    (hdistinct : s.Distinct) (hentities : env.entities.Nodup) (hinstalled : m.Installed env s) :
    (s.entitiesFor env client state).length ≤ (m.relevantTo client).card := by
  have hsub : (s.entitiesFor env client state).Sublist (s.ticking.scratchSnap env) :=
    turnFor_sublist env client state s.ticking
  have hnodup := (ServerRun.nodup_scratchSnap hdistinct hentities).sublist (hsub.map Prod.fst)
  rw [← List.length_map Prod.fst, ← List.toFinset_card_of_nodup hnodup]
  apply Finset.card_le_card
  intro id hid
  obtain ⟨ent, hent, rfl⟩ := List.mem_map.mp (List.mem_toFinset.mp hid)
  rw [mem_relevantTo, ← hinstalled.asked]
  exact ServerRun.interested_entitiesFor hinstalled.filter hent

/-! ### A server on which every relevant entity has a state -/

def crowdEnv (client : ClientId) (m : SpatialInterestManager K) : TickEnv where
  serialize := fun _ => some []
  interested := fun id client => m.isRelevant id client
  connected := fun _ => true
  entities := (((m.entities.map EntityEntry.id).filter fun id => m.isRelevant id client)).dedup

/-- It has an interest filter, and one client that has acked nothing. -/
def crowdServer (client : ClientId) : ServerRun where
  rep := { hasBridge := true, hasEntityMgr := true, hasInterestFilter := true, clientStates := [(client, {})] }

theorem exec_crowdServer (client : ClientId) : Run.exec ServerRun.step ServerRun.start
    [.setInterestFilter true, .clientConnected client] = some (crowdServer client) := rfl

theorem installed_crowd (client : ClientId) (m : SpatialInterestManager K) :
    m.Installed (m.crowdEnv client) (crowdServer client) := ⟨rfl, fun _ _ => rfl⟩

/-- The client is sent all entities that are relevant to it. -/
theorem mem_entitiesFor_crowd {id : NetworkId} :
    id ∈ ((crowdServer client).entitiesFor (m.crowdEnv client) client {}).map Prod.fst ↔
      id ∈ m.relevantTo client := by
  have hfull : (crowdServer client).SendsFull (m.crowdEnv client) {} := .inr (.inl rfl)
  have hmanaged : (crowdServer client).ticking.snapshotEntities (m.crowdEnv client) =
      (m.crowdEnv client).entities := snapshotEntities_of_filter rfl rfl
  rw [ServerRun.mem_entitiesFor hfull, hmanaged]
  unfold crowdEnv relevantTo
  simp only [List.mem_dedup, List.mem_filter, Finset.mem_filter, List.mem_toFinset]
  constructor
  · rintro ⟨hrelevant, -⟩
    exact hrelevant
  · intro hrelevant
    exact ⟨hrelevant, rfl, fun _ => hrelevant.2⟩

theorem card_le_length_crowd (client : ClientId) (m : SpatialInterestManager K) :
    (m.relevantTo client).card ≤
      ((crowdServer client).entitiesFor (m.crowdEnv client) client {}).length := by
  rw [← List.length_map Prod.fst]
  refine le_trans (Finset.card_le_card fun id hid => ?_) (List.toFinset_card_le _)
  rw [List.mem_toFinset]
  exact mem_entitiesFor_crowd.mpr hid

theorem sent_crowd (h : (crowdServer client).entitiesFor (m.crowdEnv client) client {} ≠ []) :
    ∃ message, (client, message) ∈ (crowdServer client).sent (m.crowdEnv client) ∧
      message = snapshotMessage 1 ((crowdServer client).entitiesFor (m.crowdEnv client) client {}) := by
  have hlookup : lookup Prod.fst client (crowdServer client).ticking.clientStates = some (client, {}) := by
    show lookup Prod.fst client [(client, _)] = _
    rw [lookup_cons, if_pos rfl]
  have hsent : (lookup Prod.fst client ((crowdServer client).sent (m.crowdEnv client))).map Prod.snd = _ :=
    (buildAndSendSnapshot_client (crowdServer client).ticking (List.nodup_singleton client) hlookup rfl).2
  have hne : ((crowdServer client).ticking.turnFor (m.crowdEnv client) client {}).2 ≠ [] := h
  rw [if_neg hne] at hsent
  obtain ⟨⟨client', message⟩, hfound, hmessage⟩ := Option.map_eq_some_iff.mp hsent
  obtain rfl : client' = client := lookup_key hfound
  exact ⟨message, lookup_mem hfound, hmessage⟩

/-- The messages to a client are within the cap, on every server and at every tick, if and only if no more
entities than that are relevant to the client. -/
theorem cap_kept_iff (m : SpatialInterestManager K) (client : ClientId) :
    m.KeepsCap client ↔ (m.relevantTo client).card ≤ m.maxEntitiesPerClient := by
  constructor
  · intro hkeeps
    have hcard := card_le_length_crowd client m
    by_cases hnil : (crowdServer client).entitiesFor (m.crowdEnv client) client {} = []
    · rw [hnil, List.length_nil] at hcard
      omega
    · obtain ⟨message, hsent, hmessage⟩ := sent_crowd (m := m) hnil
      have hcap := hkeeps ServerRun.start (crowdServer client) _ (m.crowdEnv client) message ⟨rfl, rfl⟩
        (exec_crowdServer client) (List.nodup_dedup _) (installed_crowd client m) hsent
      rw [hmessage, entityCount_snapshotMessage] at hcap
      exact hcard.trans hcap
  · intro hcard s₀ s run env message hfresh hrun hentities hinstalled hsent
    obtain ⟨state, rfl⟩ := ServerRun.mem_sent hsent
    rw [entityCount_snapshotMessage]
    exact (length_entitiesFor_le (ServerRun.distinct_run hfresh hrun) hentities hinstalled).trans hcard

/-- A client at the origin, with two entities near it, and a cap of one. -/
def crowded : SpatialInterestManager ℚ :=
  ((((new 100).registerClient 7 ⟨0, 0, 0⟩).registerEntity 1 ⟨10, 0, 0⟩).registerEntity 2
    ⟨20, 0, 0⟩).setMaxEntitiesPerClient 1

/-- The query for the client is cut, its message is not. -/
theorem cap_exceeded : crowded.queryVisible 7 [] = [1] ∧
    ¬∀ (m : SpatialInterestManager ℚ) (client : ClientId), 0 < m.maxEntitiesPerClient → m.KeepsCap client := by
  refine ⟨by decide +kernel, fun h => ?_⟩
  have hkeeps := (cap_kept_iff crowded 7).mp (h crowded 7 (by decide))
  revert hkeeps
  decide +kernel

end SpatialInterestManager

end CampelloNet.Replication
