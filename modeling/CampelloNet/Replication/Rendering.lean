import CampelloNet.Lib.Ledger
import CampelloNet.Replication.EntityCap
import CampelloNet.Replication.Interpolation

/-!
# What a client shows

The snapshots of a server on their way to the screen of a client: lost, doubled and in any order, through
the buffer, blended by frames or asked for one entity at a time. Whatever the game is given of an entity,
the server had serialised for it at a tick, and the filter had let the client see it then
(`shown_genuine`). A query answers what a frame at that time would show first (`query_agrees`).
-/

namespace CampelloNet

open Lib Replication NetworkReplicationManager

namespace NetworkReplicationManager

/-- The bytes of an entity in the older and in the newer snapshot, and the blend factor. -/
def queryInterpolatedEntity (netId : NetworkId) (renderTime : ℚ) (rep : NetworkReplicationManager) :
    Option (Bytes × Bytes × ℚ) :=
  if ¬rep.interpolationEnabled ∨ rep.clientSnapshotBuffer.count < 2 then none
  else
    match rep.clientSnapshotBuffer.findBracketing (renderTime - rep.interpolationDelay) with
    | none => none
    | some (older, newer, t) =>
      let olderData := ClientSnapshotBuffer.findEntity older netId
      let newerData := ClientSnapshotBuffer.findEntity newer netId
      if newerData = [] then none else some (olderData, newerData, t)

end NetworkReplicationManager

namespace Replication

/-! ### Queries and frames -/

namespace BridgeCall

def netId : BridgeCall → NetworkId
  | deserializeEntity netId _ | interpolateEntity netId _ _ _ | extrapolateEntity netId _ _ => netId

def newest : BridgeCall → Bytes
  | deserializeEntity _ newest | interpolateEntity _ _ newest _ | extrapolateEntity _ newest _ => newest

/-- The call that shows the answer of a query, so much time after the newer snapshot: past it only the newer
bytes are shown, and before it those that there are, with the blend factor if there are both. -/
def showing (netId : NetworkId) (late : ℚ) (older newer : Bytes) (t : ℚ) : BridgeCall :=
  if 0 < late then extrapolateEntity netId newer late
  else if older = [] then deserializeEntity netId newer
  else interpolateEntity netId older newer t

/-- What the bridge is given of entities. -/
def given : BridgeCall → List EntitySnapshot
  | deserializeEntity netId data => [(netId, data)]
  | interpolateEntity netId older newer _ => [(netId, older), (netId, newer)]
  | extrapolateEntity netId newest _ => [(netId, newest)]

end BridgeCall

variable {rep : NetworkReplicationManager} {netId : NetworkId} {renderTime : ℚ}

/-- The calls of a frame come from the entries of the newer snapshot. -/
def bridgeCall (targetTime : ℚ) (older newer : BufferedSnapshot) (t : ℚ) (ent : EntitySnapshot) :
    BridgeCall :=
  if targetTime > newer.receiveTime then
    .extrapolateEntity ent.1 ent.2 (targetTime - newer.receiveTime)
  else
    let olderData := ClientSnapshotBuffer.findEntity older ent.1
    if olderData ≠ [] then .interpolateEntity ent.1 olderData ent.2 t
    else .deserializeEntity ent.1 ent.2

section
variable {targetTime : ℚ} {older newer : BufferedSnapshot} {t : ℚ} {ent : EntitySnapshot}

theorem netId_bridgeCall : (bridgeCall targetTime older newer t ent).netId = ent.1 := by
  unfold bridgeCall
  dsimp only
  split_ifs <;> rfl

theorem newest_bridgeCall : (bridgeCall targetTime older newer t ent).newest = ent.2 := by
  unfold bridgeCall
  dsimp only
  split_ifs <;> rfl

theorem bridgeCall_eq : bridgeCall targetTime older newer t ent =
    .showing ent.1 (targetTime - newer.receiveTime) (ClientSnapshotBuffer.findEntity older ent.1) ent.2 t := by
  unfold bridgeCall BridgeCall.showing
  dsimp only
  simp only [sub_pos, gt_iff_lt, ite_not]

theorem lookup_bridgeCalls (entities : List EntitySnapshot) :
    lookup BridgeCall.netId netId (entities.map (bridgeCall targetTime older newer t)) =
      (lookup Prod.fst netId entities).map (bridgeCall targetTime older newer t) := by
  induction entities with
  | nil => rfl
  | cons ent entities ih =>
    rw [List.map_cons, lookup_cons, lookup_cons, netId_bridgeCall, ih]
    split_ifs <;> rfl

theorem clientInterpolate_eq (hbridge : rep.hasBridge = true) (henabled : rep.interpolationEnabled = true)
    (hcount : 2 ≤ rep.clientSnapshotBuffer.count) (hfound : rep.clientSnapshotBuffer.findBracketing
      (renderTime - rep.interpolationDelay) = some (older, newer, t)) :
    rep.clientInterpolate renderTime =
      newer.entities.map (bridgeCall (renderTime - rep.interpolationDelay) older newer t) := by
  unfold clientInterpolate
  rw [if_neg (by simp [hbridge, henabled]; omega)]
  dsimp only
  rw [hfound]
  rfl

end

/-- Where a query answers, the first call of a frame about the entity shows the answer, and past the newer
snapshot as much time as has passed since it was received; where a query does not answer, a frame has no
call about the entity, or the first has no bytes. -/
theorem query_agrees (rep : NetworkReplicationManager) (hbridge : rep.hasBridge = true)
    (netId : NetworkId) (renderTime : ℚ) :
    (∀ older newer t, rep.queryInterpolatedEntity netId renderTime = some (older, newer, t) →
      newer ≠ [] ∧ ∃ olderSnap newerSnap,
        rep.clientSnapshotBuffer.findBracketing (renderTime - rep.interpolationDelay) =
          some (olderSnap, newerSnap, t) ∧
        lookup BridgeCall.netId netId (rep.clientInterpolate renderTime) =
          some (.showing netId (renderTime - rep.interpolationDelay - newerSnap.receiveTime)
            older newer t)) ∧
    (rep.queryInterpolatedEntity netId renderTime = none →
      ∀ call ∈ lookup BridgeCall.netId netId (rep.clientInterpolate renderTime), call.newest = []) := by
  by_cases hready : rep.interpolationEnabled = true ∧ 2 ≤ rep.clientSnapshotBuffer.count
  · obtain ⟨henabled, hcount⟩ := hready
    have hquery : ¬(¬rep.interpolationEnabled ∨ rep.clientSnapshotBuffer.count < 2) := by
      rw [not_or, not_not, not_lt]
      exact ⟨henabled, hcount⟩
    rcases hfound : rep.clientSnapshotBuffer.findBracketing (renderTime - rep.interpolationDelay) with
      _ | ⟨older, newer, t⟩
    · have hframe : rep.clientInterpolate renderTime = [] := by
        unfold clientInterpolate
        dsimp only
        rw [hfound, ite_self]
      rw [queryInterpolatedEntity, if_neg hquery, hfound, hframe]
      exact ⟨nofun, fun _ => nofun⟩
    · rw [clientInterpolate_eq hbridge henabled hcount hfound, lookup_bridgeCalls, queryInterpolatedEntity,
        if_neg hquery, hfound]
      dsimp only
      rcases hentry : lookup Prod.fst netId newer.entities with _ | ent
      · have hnone : ClientSnapshotBuffer.findEntity newer netId = [] := by
          rw [ClientSnapshotBuffer.findEntity, hentry]
          rfl
        rw [if_pos hnone]
        exact ⟨nofun, fun _ => nofun⟩
      · have hsome : ClientSnapshotBuffer.findEntity newer netId = ent.2 := by
          rw [ClientSnapshotBuffer.findEntity, hentry]
          rfl
        obtain rfl : ent.1 = netId := lookup_key hentry
        rw [hsome, Option.map_some]
        split_ifs with hempty
        · refine ⟨nofun, fun _ call hcall => ?_⟩
          obtain rfl := Option.some.inj hcall
          exact newest_bridgeCall.trans hempty
        · refine ⟨fun olderData newerData t' h => ?_, nofun⟩
          cases h
          exact ⟨hempty, older, newer, rfl, congrArg some bridgeCall_eq⟩
  · have hquery : rep.queryInterpolatedEntity netId renderTime = none := by
      unfold queryInterpolatedEntity
      rw [if_pos (by rw [← not_lt] at hready; tauto)]
    have hframe : rep.clientInterpolate renderTime = [] := by
      unfold clientInterpolate
      rw [if_pos (by rw [← not_lt] at hready; tauto)]
    rw [hquery, hframe]
    exact ⟨nofun, fun _ => nofun⟩

/-- A client that holds two snapshots of entity 5. -/
def holdsTwo : NetworkReplicationManager where
  hasBridge := true
  interpolationEnabled := true
  clientSnapshotBuffer := ClientSnapshotBuffer.storeAll [⟨1, 0, [(5, [1])]⟩, ⟨2, 4, [(5, [2])]⟩] {}

/-- Between the snapshots both are blended; a second after the newer one it is extrapolated. -/
theorem query_agrees_between :
    lookup BridgeCall.netId 5 (holdsTwo.clientInterpolate 1) = some (.interpolateEntity 5 [1] [2] (1 / 4)) ∧
      lookup BridgeCall.netId 5 (holdsTwo.clientInterpolate 5) = some (.extrapolateEntity 5 [2] 1) := by
  have hblend : holdsTwo.queryInterpolatedEntity 5 1 = some ([1], [2], 1 / 4) := by decide +kernel
  have hlate : holdsTwo.queryInterpolatedEntity 5 5 = some ([1], [2], 1) := by decide +kernel
  obtain ⟨-, older, newer, hfound, hcall⟩ := (query_agrees holdsTwo rfl 5 1).1 _ _ _ hblend
  obtain ⟨-, older', newer', hfound', hcall'⟩ := (query_agrees holdsTwo rfl 5 5).1 _ _ _ hlate
  have hreceived : ∀ time : ℚ, time ∈ [1, 5] → ∀ found ∈ holdsTwo.clientSnapshotBuffer.findBracketing
      (time - holdsTwo.interpolationDelay), found.2.1.receiveTime = 4 := by
    simp only [List.forall_mem_cons]
    exact ⟨by decide +kernel, by decide +kernel, nofun⟩
  have htime : newer.receiveTime = 4 := hreceived 1 (by decide) _ hfound
  have htime' : newer'.receiveTime = 4 := hreceived 5 (by decide) _ hfound'
  rw [hcall, hcall', htime, htime']
  exact ⟨by decide +kernel, by decide +kernel⟩

/-! ### A server and a screen -/

/-- A snapshot message of a server, with the tick that it is from. -/
structure Message where
  client : ClientId
  tick : TickEnv
  /-- the server has an interest filter -/
  filtered : Bool
  bytes : Bytes

namespace Message

/-- The entity was serialised to these bytes at the tick, as far as a message can hold them, and the
filter let the client see it. -/
def Says (m : Message) (ent : EntitySnapshot) : Prop :=
  (∃ data, m.tick.serialize ent.1 = some data ∧ ent = truncated (ent.1, data)) ∧
    (m.filtered = true → m.tick.interested ent.1 m.client = true)

end Message

/-- A server, its messages, and the manager of one of its clients. -/
structure Scene where
  server : ServerRun
  sent : List Message := []
  screen : NetworkReplicationManager

namespace Scene

inductive Call
  | serve (call : ServerRun.Call)
  | arrive (n : ℕ)
  | clientTick (deltaTime : ℚ) (turns : ℕ)
  | configure (hasBridge interpolationEnabled predictionMode hasSnapshotCb : Bool)
      (interpolationDelay : ℚ)
  | frame (renderTime : ℚ)
  | query (netId : NetworkId) (renderTime : ℚ)

/-- What the server sends. -/
def messages (s : Scene) : ServerRun.Call → List Message
  | .tick env _ => (s.server.sent env).map fun m => ⟨m.1, env, s.server.rep.hasInterestFilter, m.2⟩
  | _ => []

/-- The message that arrives, if it is one to the client. -/
def arriving (client : ClientId) (n : ℕ) (s : Scene) : Option Message :=
  s.sent[n]?.filter fun m => m.client = client

def step (client : ClientId) (s : Scene) : Call → Option Scene
  | .serve call => (s.server.step call).map fun server =>
      { s with server := server, sent := s.sent ++ s.messages call }
  | .arrive n => (s.arriving client n).map fun m =>
      { s with screen := (s.screen.onReceiveDelta (m.bytes.drop 3)).1 }
  | .clientTick deltaTime turns =>
      (s.screen.clientTick deltaTime turns).map fun out => { s with screen := out.1 }
  | .configure hasBridge interpolationEnabled predictionMode hasSnapshotCb interpolationDelay =>
      some { s with screen := { s.screen with
        hasBridge := hasBridge
        interpolationEnabled := interpolationEnabled
        predictionMode := predictionMode
        hasSnapshotCb := hasSnapshotCb
        interpolationDelay := interpolationDelay } }
  | .frame _ => some s
  | .query _ _ => some s

/-- What `on_receive_delta` passes to the bridge or to the callback. -/
def passed : AppCall → Option EntitySnapshot
  | .deserializeEntity netId data | .snapshotReceived netId data => some (netId, data)
  | _ => none

/-- What a query answers. -/
def answer (netId : NetworkId) : Option (Bytes × Bytes × ℚ) → List EntitySnapshot
  | none => []
  | some (older, newer, _) => (if older = [] then [] else [(netId, older)]) ++ [(netId, newer)]

/-- The entities that the game of the client is given, with their bytes. -/
def shown (client : ClientId) (s : Scene) : Call → List EntitySnapshot
  | .arrive n => ((s.arriving client n).map fun m =>
      (s.screen.onReceiveDelta (m.bytes.drop 3)).2.filterMap passed).getD []
  | .frame renderTime => (s.screen.clientInterpolate renderTime).flatMap BridgeCall.given
  | .query netId renderTime => answer netId (s.screen.queryInterpolatedEntity netId renderTime)
  | _ => []

/-! ### Messages -/

theorem mem_parseEntities {entities : List EntitySnapshot} {n : ℕ} {ent : EntitySnapshot}
    (h : ent ∈ parseEntities n (entities.flatMap entityBytes)) : ent ∈ entities.map truncated := by
  induction entities generalizing n with
  | nil =>
    rw [List.flatMap_nil, parseEntities_nil] at h
    cases h
  | cons e entities ih =>
    rcases n with _ | n
    · cases h
    · have hshort : (truncated e).2.length < 65536 := by
        rw [length_truncated]
        exact (UInt16.ofNat e.2.length).toNat_lt
      rw [List.flatMap_cons, ← entityBytes_truncated, parseEntities_cons hshort] at h
      rcases List.mem_cons.mp h with rfl | h
      · exact List.mem_cons_self
      · exact List.mem_cons_of_mem _ (ih h)

/-- What a message contains is what was put into it, each entity's bytes as far as their length can be
told. -/
theorem mem_deltaEntities {id : UInt16} {entities : List EntitySnapshot} {ent : EntitySnapshot}
    (h : ent ∈ deltaEntities ((snapshotMessage id entities).drop 3)) : ent ∈ entities.map truncated := by
  have hdrop : ((snapshotMessage id entities).drop 3).drop 4 = entities.flatMap entityBytes := by
    rw [drop_snapshotMessage]
    rfl
  unfold deltaEntities at h
  rw [hdrop] at h
  exact mem_parseEntities h

theorem says_of_sent {s : ServerRun} {env : TickEnv} {client : ClientId} {bytes : Bytes}
    (h : (client, bytes) ∈ s.sent env) {ent : EntitySnapshot}
    (hent : ent ∈ deltaEntities (bytes.drop 3)) :
    Message.Says ⟨client, env, s.rep.hasInterestFilter, bytes⟩ ent := by
  obtain ⟨state, rfl⟩ := ServerRun.mem_sent h
  obtain ⟨whole, hwhole, rfl⟩ := List.mem_map.mp (mem_deltaEntities hent)
  have hsub : (s.entitiesFor env client state).Sublist (s.ticking.scratchSnap env) :=
    turnFor_sublist env client state s.ticking
  refine ⟨⟨whole.2, (mem_scratchSnap.mp (hsub.subset hwhole)).2, rfl⟩, fun hfilter => ?_⟩
  have hinterested := ServerRun.interested_entitiesFor hfilter hwhole
  exact hinterested

/-! ### Steps -/

/-- A message to the client says so. -/
def Genuine (client : ClientId) (sent : List Message) (ent : EntitySnapshot) : Prop :=
  ∃ m ∈ sent, m.client = client ∧ m.Says ent

/-- Whatever a message contains or the buffer holds is genuine. -/
structure Sound (client : ClientId) (s : Scene) : Prop where
  messages : ∀ m ∈ s.sent, ∀ ent ∈ deltaEntities (m.bytes.drop 3), m.Says ent
  buffered : ∀ k, ∀ ent ∈ (s.screen.clientSnapshotBuffer.snapshots k).entities, Genuine client s.sent ent

variable {client : ClientId} {s s' : Scene} {call : Call}

theorem Genuine.mono {sent sent' : List Message} {ent : EntitySnapshot} (h : Genuine client sent ent)
    (hsub : sent ⊆ sent') : Genuine client sent' ent := by
  obtain ⟨m, hm, hsays⟩ := h
  exact ⟨m, hsub hm, hsays⟩

theorem arriving_spec {n : ℕ} {m : Message} (h : s.arriving client n = some m) :
    m ∈ s.sent ∧ m.client = client := by
  obtain ⟨hget, hclient⟩ := Option.filter_eq_some_iff.mp h
  exact ⟨List.mem_of_getElem? hget, of_decide_eq_true hclient⟩

theorem genuine_arriving (hs : s.Sound client) {n : ℕ} {m : Message} (h : s.arriving client n = some m)
    {ent : EntitySnapshot} (hent : ent ∈ deltaEntities (m.bytes.drop 3)) :
    Genuine client s.sent ent := by
  obtain ⟨hm, hclient⟩ := arriving_spec h
  exact ⟨m, hm, hclient, hs.messages m hm ent hent⟩

theorem mem_store {b : ClientSnapshotBuffer} {id : UInt16} {time : ℚ} {entities : List EntitySnapshot}
    {k : ℕ} {ent : EntitySnapshot} (h : ent ∈ ((b.store id time entities).snapshots k).entities) :
    ent ∈ (b.snapshots k).entities ∨ ent ∈ entities := by
  unfold ClientSnapshotBuffer.store at h
  dsimp only at h
  by_cases hk : k = (b.head + 1) % MAX_SNAPSHOTS
  · rw [hk, Function.update_self] at h
    exact .inr h
  · rw [Function.update_of_ne hk] at h
    exact .inl h

/-- What a message does to the buffer, and what of it is passed on. -/
theorem onReceiveDelta_spec (data : Bytes) (rep : NetworkReplicationManager) :
    (∀ k, ∀ ent ∈ ((rep.onReceiveDelta data).1.clientSnapshotBuffer.snapshots k).entities,
      ent ∈ (rep.clientSnapshotBuffer.snapshots k).entities ∨ ent ∈ deltaEntities data) ∧
    (rep.onReceiveDelta data).2.filterMap passed ⊆ deltaEntities data := by
  have hmap : ∀ (entities : List EntitySnapshot) (f : EntitySnapshot → AppCall),
      (∀ ent, passed (f ent) = some ent) → (entities.map f).filterMap passed ⊆ entities := by
    intro entities f hf ent hent
    obtain ⟨call, hcall, hpassed⟩ := List.mem_filterMap.mp hent
    obtain ⟨ent', hent', rfl⟩ := List.mem_map.mp hcall
    rw [hf] at hpassed
    exact Option.some.inj hpassed ▸ hent'
  unfold onReceiveDelta
  split_ifs
  · exact ⟨fun k ent hent => .inl hent, List.nil_subset _⟩
  · unfold applyDelta
    split_ifs
    · exact ⟨fun k ent hent => .inl hent, hmap _ _ fun _ => rfl⟩
    · exact ⟨fun k ent hent => mem_store hent, List.nil_subset _⟩
    · exact ⟨fun k ent hent => .inl hent, hmap _ _ fun _ => rfl⟩
    · exact ⟨fun k ent hent => .inl hent, List.nil_subset _⟩

theorem clientTickLoop_buffer {turns : ℕ} {rep : NetworkReplicationManager}
    {out : NetworkReplicationManager × List Bytes} (h : rep.clientTickLoop turns = some out) :
    out.1.clientSnapshotBuffer = rep.clientSnapshotBuffer := by
  induction turns generalizing rep out with
  | zero =>
    unfold clientTickLoop at h
    split_ifs at h
    cases h
    rfl
  | succ turns ih =>
    unfold clientTickLoop at h
    split_ifs at h
    · obtain ⟨rest, hrest, rfl⟩ := Option.map_eq_some_iff.mp h
      exact (ih hrest).trans rfl
    · obtain ⟨rest, hrest, rfl⟩ := Option.map_eq_some_iff.mp h
      exact (ih hrest).trans rfl
    · cases h
      rfl

theorem sound_step (hs : s.Sound client) (h : s.step client call = some s') :
    s'.Sound client ∧ s.sent ⊆ s'.sent := by
  cases call with
  | serve call =>
    obtain ⟨server, -, rfl⟩ := Option.map_eq_some_iff.mp h
    refine ⟨⟨fun m hm => ?_, fun k ent hent => (hs.buffered k ent hent).mono ?_⟩, ?_⟩
    · rcases List.mem_append.mp hm with hm | hm
      · exact hs.messages m hm
      · cases call with
        | tick env distinct =>
          obtain ⟨⟨client', bytes⟩, hsent, rfl⟩ := List.mem_map.mp hm
          exact fun ent hent => says_of_sent hsent hent
        | _ => cases hm
    · exact List.subset_append_left _ _
    · exact List.subset_append_left _ _
  | arrive n =>
    obtain ⟨m, hm, rfl⟩ := Option.map_eq_some_iff.mp h
    refine ⟨⟨hs.messages, fun k ent hent => ?_⟩, fun _ hx => hx⟩
    rcases (onReceiveDelta_spec (m.bytes.drop 3) s.screen).1 k ent hent with hold | hnew
    · exact hs.buffered k ent hold
    · exact genuine_arriving hs hm hnew
  | clientTick deltaTime turns =>
    obtain ⟨out, hout, rfl⟩ := Option.map_eq_some_iff.mp h
    refine ⟨⟨hs.messages, fun k ent hent => hs.buffered k ent ?_⟩, fun _ hx => hx⟩
    have hbuffer := clientTickLoop_buffer hout
    dsimp only at hent hbuffer
    rwa [hbuffer] at hent
  | configure => cases h; exact ⟨⟨hs.messages, hs.buffered⟩, fun _ hx => hx⟩
  | frame | query => cases h; exact ⟨hs, fun _ hx => hx⟩

/-! ### Frames and queries -/

theorem search_slots {b : ClientSnapshotBuffer} {targetTime : ℚ} {oldestIdx turns i : ℕ}
    {older newer : BufferedSnapshot} {t : ℚ}
    (h : b.search targetTime oldestIdx turns i = some (older, newer, t)) :
    older ∈ Set.range b.snapshots ∧ newer ∈ Set.range b.snapshots := by
  induction turns generalizing i with
  | zero => cases h
  | succ turns ih =>
    rw [ClientSnapshotBuffer.search] at h
    dsimp only at h
    split_ifs at h
    · cases h
      exact ⟨Set.mem_range_self _, Set.mem_range_self _⟩
    · cases h
      exact ⟨Set.mem_range_self _, Set.mem_range_self _⟩
    · exact ih h

/-- The two snapshots around a time are slots of the ring. -/
theorem findBracketing_slots {b : ClientSnapshotBuffer} {targetTime : ℚ}
    {older newer : BufferedSnapshot} {t : ℚ} (h : b.findBracketing targetTime = some (older, newer, t)) :
    older ∈ Set.range b.snapshots ∧ newer ∈ Set.range b.snapshots := by
  unfold ClientSnapshotBuffer.findBracketing at h
  dsimp only at h
  split_ifs at h
  · cases h
    exact ⟨Set.mem_range_self _, Set.mem_range_self _⟩
  · cases h
    exact ⟨Set.mem_range_self _, Set.mem_range_self _⟩
  · exact search_slots h

theorem findEntity_mem {snap : BufferedSnapshot} {netId : NetworkId}
    (h : ClientSnapshotBuffer.findEntity snap netId ≠ []) :
    (netId, ClientSnapshotBuffer.findEntity snap netId) ∈ snap.entities := by
  unfold ClientSnapshotBuffer.findEntity at h ⊢
  rcases hentry : lookup Prod.fst netId snap.entities with _ | ⟨id, data⟩
  · rw [hentry] at h
    exact absurd rfl h
  · obtain rfl : id = netId := lookup_key hentry
    exact lookup_mem hentry

theorem given_bridgeCall {targetTime : ℚ} {older newer : BufferedSnapshot} {t : ℚ} {ent : EntitySnapshot}
    (hent : ent ∈ newer.entities) :
    ∀ x ∈ (bridgeCall targetTime older newer t ent).given, x ∈ newer.entities ∨ x ∈ older.entities := by
  intro x hx
  unfold bridgeCall at hx
  dsimp only at hx
  split_ifs at hx with hlate holder
  · exact .inl (List.mem_singleton.mp hx ▸ hent)
  · rcases List.mem_cons.mp hx with rfl | hx
    · exact .inr (findEntity_mem holder)
    · exact .inl (List.mem_singleton.mp hx ▸ hent)
  · exact .inl (List.mem_singleton.mp hx ▸ hent)

/-- What a frame gives the bridge is in the ring. -/
theorem given_slots {rep : NetworkReplicationManager} {renderTime : ℚ} {ent : EntitySnapshot}
    (h : ent ∈ (rep.clientInterpolate renderTime).flatMap BridgeCall.given) :
    ∃ k, ent ∈ (rep.clientSnapshotBuffer.snapshots k).entities := by
  obtain ⟨call, hcall, hent⟩ := List.mem_flatMap.mp h
  unfold clientInterpolate at hcall
  dsimp only at hcall
  split_ifs at hcall
  · cases hcall
  · rcases hfound : rep.clientSnapshotBuffer.findBracketing (renderTime - rep.interpolationDelay) with
      _ | ⟨older, newer, t⟩
    · rw [hfound] at hcall
      cases hcall
    · rw [hfound] at hcall
      obtain ⟨entry, hentry, rfl⟩ := List.mem_map.mp hcall
      obtain ⟨⟨i, rfl⟩, j, rfl⟩ := findBracketing_slots hfound
      rcases given_bridgeCall hentry ent hent with hent | hent
      · exact ⟨j, hent⟩
      · exact ⟨i, hent⟩

theorem answer_slots {rep : NetworkReplicationManager} {netId : NetworkId} {renderTime : ℚ}
    {ent : EntitySnapshot} (h : ent ∈ answer netId (rep.queryInterpolatedEntity netId renderTime)) :
    ∃ k, ent ∈ (rep.clientSnapshotBuffer.snapshots k).entities := by
  unfold queryInterpolatedEntity at h
  split_ifs at h
  · cases h
  · rcases hfound : rep.clientSnapshotBuffer.findBracketing (renderTime - rep.interpolationDelay) with
      _ | ⟨older, newer, t⟩
    · rw [hfound] at h
      cases h
    · rw [hfound] at h
      dsimp only at h
      obtain ⟨⟨i, rfl⟩, j, rfl⟩ := findBracketing_slots hfound
      split_ifs at h with hnone
      · cases h
      · unfold answer at h
        rcases List.mem_append.mp h with h | h
        · split_ifs at h with hsome
          · cases h
          · obtain rfl := List.mem_singleton.mp h
            exact ⟨i, findEntity_mem hsome⟩
        · obtain rfl := List.mem_singleton.mp h
          exact ⟨j, findEntity_mem hnone⟩

theorem shown_step (hs : s.Sound client) {ent : EntitySnapshot} (h : ent ∈ shown client s call) :
    Genuine client s.sent ent := by
  cases call with
  | serve | clientTick | configure => cases h
  | arrive n =>
    have hent : ent ∈ ((s.arriving client n).map fun m =>
      (s.screen.onReceiveDelta (m.bytes.drop 3)).2.filterMap passed).getD [] := h
    rcases harriving : s.arriving client n with _ | m
    · rw [harriving] at hent
      cases hent
    · rw [harriving, Option.map_some, Option.getD_some] at hent
      exact genuine_arriving hs harriving ((onReceiveDelta_spec _ _).2 hent)
  | frame renderTime =>
    obtain ⟨k, hent⟩ := given_slots h
    exact hs.buffered k ent hent
  | query netId renderTime =>
    obtain ⟨k, hent⟩ := answer_slots h
    exact hs.buffered k ent hent

/-! ### Runs -/

/-- In every run of a server, its network and a client, each entity that the game of the client is given
by an arriving message, a frame or a query, with its bytes, was serialised so at a tick of the server, and
if the server had a filter, the filter let the client see it at that tick. -/
theorem shown_genuine (client : ClientId) (start s : Scene) (run : List Call) (hsent : start.sent = [])
    (hbuffer : ∀ k, (start.screen.clientSnapshotBuffer.snapshots k).entities = [])
    (h : Run.exec (step client) start run = some s) :
    ∀ ent ∈ Run.gather (step client) (shown client) start run,
      ∃ m ∈ s.sent, m.client = client ∧ m.Says ent := by
  have hstart : start.Sound client := by
    refine ⟨fun m hm => ?_, fun k ent hent => ?_⟩
    · rw [hsent] at hm
      cases hm
    · rw [hbuffer] at hent
      cases hent
  intro ent hent
  obtain ⟨pre, call, post, mid, rfl, hmid, hent⟩ := Run.mem_gather.mp hent
  have hsound : mid.Sound client :=
    Run.invariant_exec hmid hstart fun _ _ _ hs hstep => (sound_step hs hstep).1
  rw [Run.exec_append, hmid] at h
  -- the log of messages only grows
  have hlog : s.Sound client ∧ mid.sent ⊆ s.sent := by
    refine Run.invariant_exec (I := fun t : Scene => t.Sound client ∧ mid.sent ⊆ t.sent) h
      ⟨hsound, fun _ hx => hx⟩ fun t call u ht hstep => ?_
    obtain ⟨hnext, hsub⟩ := sound_step ht.1 hstep
    exact ⟨hnext, fun _ hx => hsub (ht.2 hx)⟩
  exact (shown_step hsound hent).mono hlog.2

/-- A client is sent two snapshots and shows a frame between them. -/
def twoFrames : List Call :=
  [.configure true true false false 0, .serve (.clientConnected 1), .serve (ServerRun.tickWith [1]),
    .arrive 0, .clientTick (1 / 100) 0, .serve (ServerRun.tickWith [2]), .arrive 1, .frame (1 / 200),
    .query 5 (1 / 200)]

def opening : Scene := { server := ServerRun.start, screen := {} }

theorem shown_genuine_frame : ∃ s, Run.exec (step 1) opening twoFrames = some s ∧
    Run.gather (step 1) (shown 1) opening twoFrames = [(5, [1]), (5, [2]), (5, [1]), (5, [2])] ∧
    ∀ ent ∈ Run.gather (step 1) (shown 1) opening twoFrames, ∃ m ∈ s.sent, m.client = 1 ∧ m.Says ent := by
  obtain ⟨s, h⟩ := Option.isSome_iff_exists.mp
    (show (Run.exec (step 1) opening twoFrames).isSome by decide +kernel)
  exact ⟨s, h, by decide +kernel, shown_genuine 1 opening s twoFrames rfl (fun _ => rfl) h⟩

end Scene

end Replication

end CampelloNet
