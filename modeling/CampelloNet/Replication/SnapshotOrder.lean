import CampelloNet.Lib.Latest
import CampelloNet.Replication.Arrival
import Mathlib.Tactic.Linarith
import Mathlib.Tactic.Ring

/-!
# Which snapshot is the newest

Client and server both keep the newest of the ids that come in, by a comparison on the circle of 16-bit
numbers. The server's acks start from nothing, so they end with the newest whatever their order
(`lastAcked_newest`). The client's trackers start at 0, which is a place on the circle: they end with the
newest only if the way there leads through the half of the circle after 0, and an id of 0 is not acked
(`tracks_newest_iff`).
-/

namespace CampelloNet.Replication

open Lib NetworkReplicationManager FloatFormat

/-! ### Ids in a window -/

/-- The id is one of fewer than 2¹⁵ that follow each other. -/
def Near (base id : UInt16) : Prop := (id - base).toNat + 1 < 2 ^ 15

instance (base id : UInt16) : Decidable (Near base id) := inferInstanceAs (Decidable (_ < _))

theorem byKey_near (base : UInt16) : ByKey newer (fun id => (id - base).toNat) (Near base) where
  newer_iff _ _ ha hb := newer_iff (Nat.le_of_lt_succ (Nat.lt_of_succ_lt ha))
    (Nat.le_of_lt_succ (Nat.lt_of_succ_lt hb))
  injective _ _ _ _ h := sub_toNat_inj h

/-- The serially newest of some ids. -/
structure Newest (base : UInt16) (ids : List UInt16) (m : UInt16) : Prop where
  mem : m ∈ ids
  greatest : ∀ id ∈ ids, (id - base).toNat ≤ (m - base).toNat

/-! ### The server -/

/-- The acks of the clients, processed in order. -/
def onSnapshotAcks (rep : NetworkReplicationManager) (acks : List (ClientId × UInt16)) :
    NetworkReplicationManager :=
  acks.foldl (fun rep ack => rep.onSnapshotAck ack.1 ack.2) rep

def idsOf (client : ClientId) (acks : List (ClientId × UInt16)) : List UInt16 :=
  (acks.filter fun ack => ack.1 = client).map Prod.snd

/-- What `on_snapshot_ack` does to the entry of its client. -/
def ackOne (state : ClientReplicationState) (id : UInt16) : ClientReplicationState :=
  if ¬state.hasAck ∨ newer id state.lastAckedSnapshot then
    { state with lastAckedSnapshot := id, hasAck := true }
  else state

theorem clientState_onSnapshotAck (rep : NetworkReplicationManager) (client c : ClientId) (id : UInt16) :
    (rep.onSnapshotAck c id).clientState client =
      if c = client then ackOne (rep.clientState client) id else rep.clientState client := by
  have hset : rep.onSnapshotAck c id = rep.setClientState c (ackOne (rep.clientState c) id) := rfl
  rw [hset, clientState_setClientState]
  by_cases hc : c = client
  · rw [if_pos hc, if_pos hc.symm, hc]
  · rw [if_neg hc, if_neg (Ne.symm hc)]

theorem clientState_onSnapshotAcks (rep : NetworkReplicationManager) (client : ClientId)
    (acks : List (ClientId × UInt16)) : (onSnapshotAcks rep acks).clientState client =
      (idsOf client acks).foldl ackOne (rep.clientState client) := by
  induction acks generalizing rep with
  | nil => rfl
  | cons ack acks ih =>
    rw [onSnapshotAcks, List.foldl_cons]
    refine (ih _).trans ?_
    rw [clientState_onSnapshotAck, idsOf, idsOf, List.filter_cons]
    by_cases hc : ack.1 = client
    · rw [if_pos hc, if_pos (decide_eq_true hc)]
      rfl
    · rw [if_neg hc, if_neg (by simpa using hc)]

theorem foldl_ackOne_acked {state : ClientReplicationState} (h : state.hasAck = true) (ids : List UInt16) :
    ids.foldl ackOne state = { state with lastAckedSnapshot := latest newer state.lastAckedSnapshot ids } := by
  induction ids generalizing state with
  | nil => rfl
  | cons id ids ih =>
    rw [List.foldl_cons, latest, List.foldl_cons, ackOne]
    by_cases hnewer : newer id state.lastAckedSnapshot = true
    · rw [if_pos (.inr hnewer), if_pos hnewer, ih rfl, h]
      rfl
    · rw [if_neg (by simp [h, hnewer]), if_neg hnewer, ih h]
      rfl

/-- A client that has acked nothing yet, or something within the window. -/
def Starts (base : UInt16) (state : ClientReplicationState) : Prop :=
  state.hasAck = true → Near base state.lastAckedSnapshot

/-- What a client has acked once it has acked. -/
theorem foldl_ackOne_spec {base : UInt16} {state : ClientReplicationState} (hstart : Starts base state)
    {ids : List UInt16} (hnear : ∀ id ∈ ids, Near base id) (hids : ids ≠ []) :
    (ids.foldl ackOne state).hasAck = true ∧
      (state.hasAck = true → (state.lastAckedSnapshot - base).toNat ≤
        ((ids.foldl ackOne state).lastAckedSnapshot - base).toNat) ∧
      (∀ id ∈ ids, (id - base).toNat ≤ ((ids.foldl ackOne state).lastAckedSnapshot - base).toNat) ∧
      (((ids.foldl ackOne state).lastAckedSnapshot ∈ ids) ∨
        state.hasAck = true ∧ (ids.foldl ackOne state).lastAckedSnapshot = state.lastAckedSnapshot) := by
  by_cases hack : state.hasAck = true
  · have hle := (byKey_near base).le_latest (hstart hack) hnear
    have hlast : latest newer state.lastAckedSnapshot ids ∈ state.lastAckedSnapshot :: ids :=
      latest_mem _ _
    rw [foldl_ackOne_acked hack]
    refine ⟨hack, fun _ => hle _ List.mem_cons_self, fun id hid => hle id (List.mem_cons_of_mem _ hid), ?_⟩
    rcases List.mem_cons.mp (hlast) with heq | hmem
    · exact .inr ⟨hack, heq⟩
    · exact .inl hmem
  · cases ids with
    | nil => exact absurd rfl hids
    | cons id ids =>
      have hfirst : ackOne state id = { state with lastAckedSnapshot := id, hasAck := true } :=
        if_pos (.inl hack)
      have hle := (byKey_near base).le_latest (hnear id List.mem_cons_self)
        fun id' hid' => hnear id' (List.mem_cons_of_mem _ hid')
      rw [List.foldl_cons, hfirst, foldl_ackOne_acked rfl]
      exact ⟨rfl, fun h => absurd h hack, hle, .inl (latest_mem id ids)⟩

theorem idsOf_append (client : ClientId) (front back : List (ClientId × UInt16)) :
    idsOf client (front ++ back) = idsOf client front ++ idsOf client back := by
  simp [idsOf]

theorem onSnapshotAcks_append (rep : NetworkReplicationManager) (front back : List (ClientId × UInt16)) :
    onSnapshotAcks rep (front ++ back) = onSnapshotAcks (onSnapshotAcks rep front) back :=
  List.foldl_append

theorem near_lastAcked {base : UInt16} {state : ClientReplicationState} (hstart : Starts base state)
    {ids : List UInt16} (hnear : ∀ id ∈ ids, Near base id) : Starts base (ids.foldl ackOne state) := by
  intro hack
  by_cases hids : ids = []
  · subst hids
    exact hstart hack
  · rcases (foldl_ackOne_spec hstart hnear hids).2.2.2 with hmem | ⟨hbefore, heq⟩
    · exact hnear _ hmem
    · rw [heq]
      exact hstart hbefore

/-- The server's view of a client is the newest of its acks, in whatever order and however often they
come, and never goes back. -/
theorem lastAcked_newest (rep : NetworkReplicationManager) (client : ClientId) (base : UInt16)
    (acks : List (ClientId × UInt16)) (hfresh : (rep.clientState client).hasAck = false)
    (hnear : ∀ id ∈ idsOf client acks, Near base id) {m : UInt16}
    (hm : Newest base (idsOf client acks) m) :
    ((onSnapshotAcks rep acks).clientState client).hasAck = true ∧
      ((onSnapshotAcks rep acks).clientState client).lastAckedSnapshot = m ∧
      ∀ front mid back, acks = front ++ mid ++ back →
        ((onSnapshotAcks rep front).clientState client).hasAck = true →
        (((onSnapshotAcks rep front).clientState client).lastAckedSnapshot - base).toNat ≤
          (((onSnapshotAcks rep (front ++ mid)).clientState client).lastAckedSnapshot - base).toNat := by
  have hstart : Starts base (rep.clientState client) := by
    intro h
    rw [hfresh] at h
    cases h
  have hne : idsOf client acks ≠ [] := List.ne_nil_of_mem hm.mem
  have hspec := foldl_ackOne_spec hstart hnear hne
  rw [clientState_onSnapshotAcks]
  refine ⟨hspec.1, ?_, ?_⟩
  · have hlast : (List.foldl ackOne (rep.clientState client) (idsOf client acks)).lastAckedSnapshot ∈
        idsOf client acks := by
      rcases hspec.2.2.2 with hmem | ⟨hack, -⟩
      · exact hmem
      · rw [hfresh] at hack
        cases hack
    exact sub_toNat_inj (Nat.le_antisymm (hm.greatest _ hlast) (hspec.2.2.1 m hm.mem))
  · intro front mid back hacks hack
    subst hacks
    have hfront : ∀ id ∈ idsOf client front, Near base id := by
      intro id hid
      apply hnear
      rw [idsOf_append, idsOf_append]
      exact List.mem_append_left _ (List.mem_append_left _ hid)
    have hmid : ∀ id ∈ idsOf client mid, Near base id := by
      intro id hid
      apply hnear
      rw [idsOf_append, idsOf_append]
      exact List.mem_append_left _ (List.mem_append_right _ hid)
    rw [onSnapshotAcks_append, clientState_onSnapshotAcks (onSnapshotAcks rep front)]
    rw [clientState_onSnapshotAcks] at hack ⊢
    by_cases hids : idsOf client mid = []
    · rw [hids]
      exact Nat.le_refl _
    · exact (foldl_ackOne_spec (near_lastAcked hstart hfront) hmid hids).2.1 hack

/-- Acks around the wrap, one of them repeated, among those of another client. -/
theorem lastAcked_newest_wrap :
    ((onSnapshotAcks {} [(7, 1), (9, 5), (7, 65535), (7, 1), (7, 0)]).clientState 7).lastAckedSnapshot = 1 :=
  (lastAcked_newest {} 7 65535 [(7, 1), (9, 5), (7, 65535), (7, 1), (7, 0)] rfl
    (by decide) ⟨by decide, by decide⟩).2.1

/-! ### The client -/

/-- How the entities are applied leaves the trackers and the ack timer alone. -/
theorem applyDelta_frame (rep : NetworkReplicationManager) (id : UInt16) (entities : List EntitySnapshot) :
    (rep.applyDelta id entities).1.lastReceivedSnapshot = rep.lastReceivedSnapshot ∧
      (rep.applyDelta id entities).1.latestReceivedSnapshot = rep.latestReceivedSnapshot ∧
      (rep.applyDelta id entities).1.tickRate = rep.tickRate ∧
      (rep.applyDelta id entities).1.clientAckAccumulator = rep.clientAckAccumulator := by
  rw [applyDelta]
  split_ifs <;> exact ⟨rfl, rfl, rfl, rfl⟩

/-- Both trackers follow the ids that come in. -/
theorem trackers_receiveAll (rep : NetworkReplicationManager) {messages : List Bytes}
    (hlen : ∀ data ∈ messages, 4 ≤ data.length) :
    (receiveAll messages rep).1.lastReceivedSnapshot =
        latest newer rep.lastReceivedSnapshot (messages.map readBe16) ∧
      (receiveAll messages rep).1.latestReceivedSnapshot =
        latest newer rep.latestReceivedSnapshot (messages.map readBe16) ∧
      (receiveAll messages rep).1.tickRate = rep.tickRate ∧
      (receiveAll messages rep).1.clientAckAccumulator = rep.clientAckAccumulator := by
  induction messages generalizing rep with
  | nil => exact ⟨rfl, rfl, rfl, rfl⟩
  | cons data messages ih =>
    have hdata := hlen data List.mem_cons_self
    obtain ⟨hlast, hlatest, hrate, hacc⟩ := ih (rep.onReceiveDelta data).1
      fun data' h => hlen data' (List.mem_cons_of_mem _ h)
    have hone : rep.onReceiveDelta data =
        (rep.noteReceived (readBe16 data)).applyDelta (readBe16 data) (deltaEntities data) :=
      if_neg (by omega)
    obtain ⟨hlast', hlatest', hrate', hacc'⟩ :=
      applyDelta_frame (rep.noteReceived (readBe16 data)) (readBe16 data) (deltaEntities data)
    rw [← hone] at hlast' hlatest' hrate' hacc'
    rw [receiveAll, List.map_cons]
    dsimp only
    rw [hlast, hlatest, hrate, hacc, hlast', hlatest', hrate', hacc']
    exact ⟨rfl, rfl, rfl, rfl⟩

/-- The tracker stays at 0 until something newer than 0 comes. -/
theorem latest_zero (ids : List UInt16) :
    (∀ id ∈ ids, newer id 0 = false) ∨ ∃ front v back, ids = front ++ v :: back ∧
      (∀ id ∈ front, newer id 0 = false) ∧ newer v 0 = true ∧
      latest newer 0 ids = latest newer v back := by
  induction ids with
  | nil => exact .inl (by simp)
  | cons id ids ih =>
    by_cases hid : newer id 0 = true
    · refine .inr ⟨[], id, ids, rfl, by simp, hid, ?_⟩
      rw [latest, List.foldl_cons, if_pos hid]
      rfl
    · rw [Bool.not_eq_true] at hid
      rcases ih with hall | ⟨front, v, back, rfl, hfront, hv, hlatest⟩
      · exact .inl (List.forall_mem_cons.mpr ⟨hid, hall⟩)
      · refine .inr ⟨id :: front, v, back, rfl, List.forall_mem_cons.mpr ⟨hid, hfront⟩, hv, ?_⟩
        rw [latest, List.foldl_cons, hid]
        exact hlatest

theorem newer_zero_iff (id : UInt16) : newer id 0 = true ↔ id ≠ 0 ∧ id.toNat < 2 ^ 15 := by
  have hzero : id = 0 ↔ id.toNat = 0 := ⟨fun h => by simp [h], fun h => UInt16.toNat.inj h⟩
  rw [newer, UInt16.sub_zero, Bool.and_eq_true, decide_eq_true_eq, decide_eq_true_eq, ne_eq, hzero]
  omega

/-- The id is in the half of the circle that follows 0, or came after another one that is. -/
def Reached (ids : List UInt16) (m : UInt16) : Prop :=
  m.toNat < 2 ^ 15 ∨ ∃ front back, ids = front ++ m :: back ∧ ∃ id ∈ front, newer id 0 = true

theorem latest_zero_eq_iff {base : UInt16} {ids : List UInt16} (hnear : ∀ id ∈ ids, Near base id)
    {m : UInt16} (hm : Newest base ids m) : latest newer 0 ids = m ↔ Reached ids m := by
  rcases latest_zero ids with hall | ⟨front, v, back, rfl, hfront, hv, hlatest⟩
  · -- nothing moves the tracker
    rw [latest_of_forall hall]
    constructor
    · rintro rfl
      exact .inl (by decide)
    · rintro (hlow | ⟨front, back, hids, id, hid, hnewer⟩)
      · by_contra hne
        have hnewer := (newer_zero_iff m).mpr ⟨Ne.symm hne, hlow⟩
        rw [hall m hm.mem] at hnewer
        cases hnewer
      · have hid' : id ∈ ids := by
          rw [hids]
          exact List.mem_append_left _ hid
        rw [hall id hid'] at hnewer
        cases hnewer
  · -- from `v` on it is the newest
    have hmem : v ∈ front ++ v :: back := List.mem_append_right _ List.mem_cons_self
    have hback : ∀ id ∈ back, id ∈ front ++ v :: back :=
      fun id hid => List.mem_append_right _ (List.mem_cons_of_mem _ hid)
    have hmax : ∀ id ∈ v :: back, (id - base).toNat ≤ (m - base).toNat :=
      fun id hid => hm.greatest id (List.mem_append_right _ hid)
    rw [hlatest, (byKey_near base).latest_eq_iff (hnear v hmem) (fun id hid => hnear id (hback id hid))
      (hnear m hm.mem) hmax]
    constructor
    · intro hin
      rcases List.mem_cons.mp hin with rfl | hin
      · exact .inl ((newer_zero_iff m).mp hv).2
      · obtain ⟨b, c, rfl⟩ := List.append_of_mem hin
        exact .inr ⟨front ++ v :: b, c, by simp, v, by simp, hv⟩
    · rintro (hlow | ⟨b, c, hids, id, hid, hnewer⟩)
      · have hne : m ≠ 0 := by
          rintro rfl
          have hlt := ((byKey_near base).newer_iff v 0 (hnear v hmem) (hnear 0 hm.mem)).mp hv
          exact absurd (hm.greatest v hmem) (by omega)
        rcases List.mem_append.mp hm.mem with hin | hin
        · have hnewer := (newer_zero_iff m).mpr ⟨hne, hlow⟩
          rw [hfront m hin] at hnewer
          cases hnewer
        · exact hin
      · rcases List.append_eq_append_iff.mp hids with ⟨d, rfl, hd⟩ | ⟨d, rfl, -⟩
        · rw [hd]
          simp
        · have hold := hfront id (List.mem_append_left _ hid)
          rw [hnewer] at hold
          cases hold

/-! ### The client's acks -/

/-- How many turns the loop takes is a question of the interval and the accumulator. -/
theorem isSome_clientTickLoop {rep : NetworkReplicationManager} (n : ℕ) :
    (clientTickLoop n rep).isSome ↔ Over (targetDt rep.tickRate ≤ ·)
      (binary32.sub · (targetDt rep.tickRate)) rep.clientAckAccumulator n := by
  induction n generalizing rep with
  | zero =>
    rw [over_zero, clientTickLoop]
    split_ifs with hdue <;> simp [hdue]
  | succ n ih =>
    rw [clientTickLoop]
    by_cases hdue : targetDt rep.tickRate ≤ rep.clientAckAccumulator
    · rw [if_pos hdue, Option.isSome_map, ih]
      exact (over_succ hdue).symm
    · rw [if_neg hdue]
      exact iff_of_true rfl (over_of_not hdue _)

/-- A call of `client_tick` sends the newest snapshot's ack once for each interval that has passed. -/
theorem clientTickLoop_eq {n : ℕ} {rep : NetworkReplicationManager}
    {out : NetworkReplicationManager × List Bytes} (h : clientTickLoop n rep = some out) :
    ∃ k : ℕ, out = ({ rep with clientAckAccumulator :=
          (binary32.sub · (targetDt rep.tickRate))^[k] rep.clientAckAccumulator },
        (List.replicate k
          (if rep.lastReceivedSnapshot ≠ 0 then [ackMessage rep.lastReceivedSnapshot] else [])).flatten) ∧
      ¬targetDt rep.tickRate ≤ out.1.clientAckAccumulator := by
  induction n generalizing rep out with
  | zero =>
    unfold clientTickLoop at h
    split_ifs at h with hdue
    cases h
    exact ⟨0, by simp, hdue⟩
  | succ n ih =>
    unfold clientTickLoop at h
    by_cases hdue : targetDt rep.tickRate ≤ rep.clientAckAccumulator
    · rw [if_pos hdue] at h
      obtain ⟨rest, hrest, rfl⟩ := Option.map_eq_some_iff.mp h
      obtain ⟨k, hk, hdone⟩ := ih hrest
      refine ⟨k + 1, ?_, hdone⟩
      rw [hk, List.replicate_succ, List.flatten_cons]
      rfl
    · rw [if_neg hdue] at h
      cases h
      exact ⟨0, by simp, hdue⟩

/-- `client_tick` acks the snapshot once for each interval that has passed, whatever time a frame took. -/
def AcksWith (rep : NetworkReplicationManager) (m : UInt16) : Prop :=
  ∀ deltaTime turns out, binary32.Fits (.finite deltaTime) →
    rep.clientTick deltaTime turns = some out → ∃ k : ℕ,
      out.1.clientAckAccumulator = (binary32.sub · (targetDt rep.tickRate))^[k]
          (binary32.add rep.clientAckAccumulator (.finite deltaTime)) ∧
        out.2 = List.replicate k (ackMessage m)

/-- There is a frame time with which the interval of the tick rate passes in a call that returns. -/
def AckDue (rep : NetworkReplicationManager) : Prop :=
  ∃ deltaTime, binary32.Fits (.finite deltaTime) ∧
    targetDt rep.tickRate ≤ binary32.add rep.clientAckAccumulator (.finite deltaTime) ∧
    binary32.Ends (targetDt rep.tickRate) (binary32.add rep.clientAckAccumulator (.finite deltaTime))

theorem acksWith_iff (rep : NetworkReplicationManager) :
    AcksWith rep rep.lastReceivedSnapshot ↔ rep.lastReceivedSnapshot ≠ 0 ∨ ¬AckDue rep := by
  have hloop : ∀ deltaTime turns, (rep.clientTick deltaTime turns).isSome ↔
      Over (targetDt rep.tickRate ≤ ·) (binary32.sub · (targetDt rep.tickRate))
        (binary32.add rep.clientAckAccumulator (.finite deltaTime)) turns :=
    fun deltaTime turns => isSome_clientTickLoop turns
  constructor
  · intro hacks
    by_contra hcon
    obtain ⟨hzero, hacked⟩ := not_or.mp hcon
    rw [not_not] at hzero hacked
    obtain ⟨deltaTime, hfits, hdue, hends⟩ := hacked
    -- an interval passes, and the message is left out
    obtain ⟨n, hn⟩ := (exists_over_sub_iff (fits_add _ _)).mpr hends
    obtain ⟨out, hout⟩ := Option.isSome_iff_exists.mp ((hloop deltaTime n).mpr hn)
    obtain ⟨k, hacc, hsent⟩ := hacks deltaTime n out hfits hout
    obtain ⟨m, heq, hdone⟩ := clientTickLoop_eq hout
    have hnone : out.2 = [] := by simp [heq, hzero]
    have hk : k = 0 := by simpa [hnone] using hsent.symm
    rw [hacc, hk] at hdone
    exact hdone hdue
  · intro hcond deltaTime turns out hfits hout
    by_cases hzero : rep.lastReceivedSnapshot = 0
    · have hdue : ¬targetDt rep.tickRate ≤
          binary32.add rep.clientAckAccumulator (.finite deltaTime) := by
        intro hdue
        have hover := (hloop deltaTime turns).mp (Option.isSome_iff_exists.mpr ⟨out, hout⟩)
        exact hcond.resolve_left (not_not.mpr hzero)
          ⟨deltaTime, hfits, hdue, (exists_over_sub_iff (fits_add _ _)).mp ⟨turns, hover⟩⟩
      unfold clientTick clientTickLoop at hout
      rw [if_neg hdue] at hout
      cases hout
      exact ⟨0, rfl, rfl⟩
    · obtain ⟨k, rfl, -⟩ := clientTickLoop_eq hout
      refine ⟨k, rfl, ?_⟩
      simp [hzero]

/-! ### Late joiners -/

/-- What the newest id received becomes. -/
structure TracksNewest (rep : NetworkReplicationManager) (m : UInt16) : Prop where
  latest : rep.latestReceivedSnapshot = m
  acks : AcksWith rep m

/-- The client has the newest id, and acks it, unless the ids lie in the other half of the circle and
the newest comes before the first one that is not, or the newest is 0 and an ack can fall due. -/
theorem tracks_newest_iff (rep : NetworkReplicationManager) (hlast : rep.lastReceivedSnapshot = 0)
    (hlatest : rep.latestReceivedSnapshot = 0) (base : UInt16) (messages : List Bytes)
    (hlen : ∀ data ∈ messages, 4 ≤ data.length) (hnear : ∀ data ∈ messages, Near base (readBe16 data))
    {m : UInt16} (hm : Newest base (messages.map readBe16) m) :
    TracksNewest (receiveAll messages rep).1 m ↔
      Reached (messages.map readBe16) m ∧ (m ≠ 0 ∨ ¬AckDue rep) := by
  obtain ⟨hl, hr, hrate, hacc⟩ := trackers_receiveAll rep hlen
  rw [hlast] at hl
  rw [hlatest] at hr
  have hids : ∀ id ∈ messages.map readBe16, Near base id := by
    intro id hid
    obtain ⟨data, hdata, rfl⟩ := List.mem_map.mp hid
    exact hnear data hdata
  have hsame : AckDue (receiveAll messages rep).1 ↔ AckDue rep := by
    unfold AckDue
    rw [hrate, hacc]
  rw [← latest_zero_eq_iff hids hm]
  constructor
  · rintro ⟨htracked, hacks⟩
    have heq := hr.symm.trans htracked
    rw [heq] at hl
    rw [← hl] at hacks
    refine ⟨heq, ?_⟩
    have hcond := (acksWith_iff _).mp hacks
    rwa [hl, hsame] at hcond
  · rintro ⟨heq, hcond⟩
    rw [heq] at hl hr
    refine ⟨hr, ?_⟩
    have hacks := (acksWith_iff (receiveAll messages rep).1).mpr (by rwa [hl, hsame])
    rwa [hl] at hacks

theorem tracks_newest_wrap :
    TracksNewest (receiveAll [[0, 1, 0, 0], [0xFF, 0xFF, 0, 0]] {}).1 1 :=
  (tracks_newest_iff {} rfl rfl 65535 _ (by decide) (by decide) ⟨by decide, by decide⟩).mpr
    ⟨.inl (by decide), .inl (by decide)⟩

/-- Whatever snapshots a client receives first, it has the newest of them and acks it. -/
def TracksFromAnywhere : Prop :=
  ∀ (rep : NetworkReplicationManager) (base : UInt16) (messages : List Bytes) (m : UInt16),
    rep.lastReceivedSnapshot = 0 → rep.latestReceivedSnapshot = 0 →
    (∀ data ∈ messages, 4 ≤ data.length) → (∀ data ∈ messages, Near base (readBe16 data)) →
    Newest base (messages.map readBe16) m → TracksNewest (receiveAll messages rep).1 m

/-- A client that joins at 40000 does not see that it received anything. -/
theorem not_tracksFromAnywhere : ¬TracksFromAnywhere := by
  intro h
  have htracked := (h {} 40000 [[0x9C, 0x40, 0, 0]] 40000 rfl rfl (by decide) (by decide)
    ⟨by decide, by decide⟩).latest
  revert htracked
  decide

end CampelloNet.Replication
