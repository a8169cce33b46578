import CampelloNet.Lib.Writes
import CampelloNet.Replication

/-!
# Snapshots in the order of arrival

A client that applies snapshots at once passes to `deserialize_entity` whatever the message at hand
contains: `on_receive_delta` notes which snapshot is the newest, but it does not compare the message
with it. Hence an entity is left with the bytes of the message that arrives last, and these are the
newest ones in every order exactly if all of the messages say the same of it (`stale_snapshots`).
-/

namespace CampelloNet.Replication

open Lib NetworkReplicationManager

/-! ### Snapshot numbers in a window -/

theorem newer_iff {base a b : UInt16} (ha : (a - base).toNat ≤ 32767)
    (hb : (b - base).toNat ≤ 32767) : newer a b = true ↔ (b - base).toNat < (a - base).toNat := by
  unfold newer
  rw [Bool.and_eq_true, decide_eq_true_eq, decide_eq_true_eq]
  simp only [UInt16.toNat_sub] at *
  have := a.toNat_lt
  have := b.toNat_lt
  have := base.toNat_lt
  omega

theorem sub_toNat_inj {base a b : UInt16} (h : (a - base).toNat = (b - base).toNat) : a = b := by
  apply UInt16.toNat.inj
  rw [UInt16.toNat_sub, UInt16.toNat_sub] at h
  have := a.toNat_lt
  have := b.toNat_lt
  have := base.toNat_lt
  omega

/-- The numbers of the messages are at most 32767 apart. -/
def InWindow (base : UInt16) (messages : List Bytes) : Prop :=
  ∀ m ∈ messages, (readBe16 m - base).toNat ≤ 32767

def Numbered (messages : List Bytes) : Prop :=
  ∀ m ∈ messages, ∀ n ∈ messages, readBe16 m = readBe16 n → m = n

instance (base : UInt16) (messages : List Bytes) : Decidable (InWindow base messages) :=
  inferInstanceAs (Decidable (∀ m ∈ messages, _))

instance (messages : List Bytes) : Decidable (Numbered messages) :=
  inferInstanceAs (Decidable (∀ m ∈ messages, ∀ n ∈ messages, _))

/-- The newest of the messages that contain the entity. -/
def NewestWith (messages : List Bytes) (e : NetworkId) (m : Bytes) : Prop :=
  m ∈ messages ∧ Contains deltaEntities e m ∧
    ∀ n ∈ messages, Contains deltaEntities e n → n = m ∨ newer (readBe16 m) (readBe16 n)

instance (messages : List Bytes) (e : NetworkId) (m : Bytes) :
    Decidable (NewestWith messages e m) :=
  inferInstanceAs (Decidable (m ∈ messages ∧ _ ∧ ∀ n ∈ messages, _))

theorem newestWith_iff {base : UInt16} {messages : List Bytes} (hwindow : InWindow base messages)
    (hids : Numbered messages) {e : NetworkId} {m : Bytes} : NewestWith messages e m ↔
      IsNewest deltaEntities (fun m => (readBe16 m - base).toNat) e messages m := by
  unfold NewestWith IsNewest
  refine and_congr_right fun hm => and_congr_right fun _ => ?_
  refine forall₂_congr fun n hn => imp_congr_right fun _ => ?_
  rw [newer_iff (hwindow m hm) (hwindow n hn)]
  constructor
  · rintro (rfl | hlt)
    · exact le_refl _
    · exact le_of_lt hlt
  · intro hle
    rcases eq_or_lt_of_le hle with heq | hlt
    · exact .inl (hids n hn m hm (sub_toNat_inj heq))
    · exact .inr hlt

/-! ### What the client is left with -/

/-- The default mode: no prediction, no interpolation. -/
structure AppliesAtOnce (rep : NetworkReplicationManager) : Prop where
  bridge : rep.hasBridge = true
  immediate : (rep.predictionMode && rep.hasSnapshotCb) = false
  current : rep.interpolationEnabled = false

/-- The entities passed to `deserialize_entity`. -/
def deserialized (calls : List AppCall) : List EntitySnapshot :=
  calls.filterMap fun
    | .deserializeEntity netId data => some (netId, data)
    | _ => none

theorem deserialized_append (calls calls' : List AppCall) :
    deserialized (calls ++ calls') = deserialized calls ++ deserialized calls' :=
  List.filterMap_append

theorem deserialized_map (entities : List EntitySnapshot) :
    deserialized (entities.map fun ent => .deserializeEntity ent.1 ent.2) = entities := by
  unfold deserialized
  rw [List.filterMap_map]
  exact List.filterMap_some

/-- Messages as they arrive. -/
def receiveAll : List Bytes → NetworkReplicationManager →
    NetworkReplicationManager × List AppCall
  | [], rep => (rep, [])
  | m :: ms, rep =>
    let (rep, calls) := rep.onReceiveDelta m
    let (rep, calls') := receiveAll ms rep
    (rep, calls ++ calls')

theorem deltaEntities_of_short {data : Bytes} (h : data.length < 4) : deltaEntities data = [] := by
  have hnil : data.drop 4 = [] := List.drop_eq_nil_of_le (by omega)
  unfold deltaEntities
  rw [hnil]
  cases (readBe16 (data.drop 2)).toNat <;> rfl

theorem onReceiveDelta_atOnce {rep : NetworkReplicationManager} (h : AppliesAtOnce rep)
    (data : Bytes) : AppliesAtOnce (rep.onReceiveDelta data).1 ∧
      deserialized (rep.onReceiveDelta data).2 = deltaEntities data := by
  unfold onReceiveDelta
  by_cases hlen : data.length < 4
  · rw [if_pos hlen, deltaEntities_of_short hlen]
    exact ⟨h, rfl⟩
  · rw [if_neg hlen]
    have hsame : AppliesAtOnce (rep.noteReceived (readBe16 data)) := ⟨h.bridge, h.immediate, h.current⟩
    unfold applyDelta
    rw [hsame.immediate, hsame.current, hsame.bridge]
    exact ⟨hsame, deserialized_map _⟩

theorem deserialized_receiveAll {rep : NetworkReplicationManager} (h : AppliesAtOnce rep)
    (messages : List Bytes) :
    deserialized (receiveAll messages rep).2 = messages.flatMap deltaEntities := by
  induction messages generalizing rep with
  | nil => rfl
  | cons m ms ih =>
    obtain ⟨hnext, hcalls⟩ := onReceiveDelta_atOnce h m
    unfold receiveAll
    dsimp only
    rw [deserialized_append, hcalls, ih hnext, List.flatMap_cons]

/-- Each entity is left with the bytes of the newest message that contains it. -/
def NewestApplied (rep : NetworkReplicationManager) (arrived : List Bytes) : Prop :=
  ∀ e m, NewestWith arrived e m →
    lastWrite e (deserialized (receiveAll arrived rep).2) = lastWrite e (deltaEntities m)

theorem newestApplied_iff {rep : NetworkReplicationManager} {base : UInt16} {arrived : List Bytes}
    (hmode : AppliesAtOnce rep) (hwindow : InWindow base arrived) (hids : Numbered arrived) :
    NewestApplied rep arrived ↔
      NewestWins deltaEntities (fun m => (readBe16 m - base).toNat) arrived := by
  unfold NewestApplied NewestWins
  rw [deserialized_receiveAll hmode]
  exact forall₂_congr fun e m => imp_congr_left (newestWith_iff hwindow hids)

/-- In an order of arrival the entities are left with the newest bytes if and only if, for each of
them, the message that contains it and arrives last says the same of it as the newest one that
contains it; and in every order if and only if all messages that contain it say the same. -/
theorem stale_snapshots {rep : NetworkReplicationManager} {base : UInt16} {messages : List Bytes}
    (hmode : AppliesAtOnce rep) (hwindow : InWindow base messages) (hids : Numbered messages) :
    (∀ order, order.Perm messages → (NewestApplied rep order ↔
      ∀ e m n, IsLast deltaEntities e order m → NewestWith messages e n →
        lastWrite e (deltaEntities m) = lastWrite e (deltaEntities n))) ∧
    ((∀ order, order.Perm messages → NewestApplied rep order) ↔
      ∀ e, ∀ m ∈ messages, ∀ n ∈ messages, Contains deltaEntities e m → Contains deltaEntities e n →
        lastWrite e (deltaEntities m) = lastWrite e (deltaEntities n)) := by
  have hsame : ∀ order, order.Perm messages → (NewestApplied rep order ↔
      NewestWins deltaEntities (fun m => (readBe16 m - base).toNat) order) := by
    intro order hperm
    refine newestApplied_iff hmode (fun m hm => hwindow m (hperm.mem_iff.mp hm)) fun m hm n hn => ?_
    exact hids m (hperm.mem_iff.mp hm) n (hperm.mem_iff.mp hn)
  constructor
  · intro order hperm
    rw [hsame order hperm, newest_wins_iff]
    refine forall₃_congr fun e m n => imp_congr_right fun _ => imp_congr_left ?_
    rw [newestWith_iff hwindow hids]
    exact ⟨fun h => h.perm hperm.symm, fun h => h.perm hperm⟩
  · rw [← newest_always_wins_iff fun m : Bytes => (readBe16 m - base).toNat]
    exact forall₂_congr hsame

/-! ### Two executions -/

/-- A server with one client. -/
def oneClient : NetworkReplicationManager := { hasBridge := true, clientStates := [(7, {})] }

/-- The changed entities are marked, and the next tick is made. -/
def markAndTick (changed : List NetworkId) (env : TickEnv) (rep : NetworkReplicationManager) :
    Option (NetworkReplicationManager × List (ClientId × Bytes)) :=
  (changed.foldl (fun rep id => rep.markDirty id) rep).serverTick (1 / 30) [env]

/-- Every entity has the given bytes. -/
def uniform (data : Bytes) : TickEnv where
  serialize := fun _ => some data
  connected := fun _ => true
  entities := []

/-- The messages of two ticks, before each of which one entity changes. -/
def twoTicks (first second : NetworkId) : Option (List Bytes) :=
  (markAndTick [first] (uniform [5]) oneClient).bind fun out =>
    (markAndTick [second] (uniform [6]) out.1).map fun out' => (out.2 ++ out'.2).map Prod.snd

/-- What `on_receive_delta` is given of the two messages. -/
def payloads (first second : NetworkId) : List Bytes :=
  [(snapshotMessage 1 [(first, [5])]).drop 3, (snapshotMessage 2 [(second, [6])]).drop 3]

def immediateClient : NetworkReplicationManager := { hasBridge := true }

theorem stale_snapshots_apart : NewestApplied immediateClient (payloads 1 2).reverse := by
  have hwindow : InWindow 1 (payloads 1 2) := by decide
  refine ((stale_snapshots ⟨rfl, rfl, rfl⟩ hwindow (by decide)).2.mpr fun e m hm n hn hem hen => ?_) _
    (List.reverse_perm _)
  have hfirst : deltaEntities ((snapshotMessage 1 [(1, [5])]).drop 3) = [(1, [5])] := by decide
  have hsecond : deltaEntities ((snapshotMessage 2 [(2, [6])]).drop 3) = [(2, [6])] := by decide
  obtain ⟨v, hv⟩ := hem.exists_mem
  obtain ⟨w, hw⟩ := hen.exists_mem
  simp only [payloads, List.mem_cons, List.not_mem_nil, or_false] at hm hn
  rcases hm with rfl | rfl <;> rcases hn with rfl | rfl
  · rfl
  · rw [hfirst] at hv
    rw [hsecond] at hw
    simp_all
  · rw [hsecond] at hv
    rw [hfirst] at hw
    simp_all
  · rfl

/-- The second message overtakes the first, which then takes the entity back. -/
theorem stale_snapshots_overtaken :
    twoTicks 1 1 = some ((payloads 1 1).map fun data => [0xCA, 0xFE, 0x20] ++ data) ∧
    AppliesAtOnce immediateClient ∧ InWindow 1 (payloads 1 1) ∧ Numbered (payloads 1 1) ∧
    ¬NewestApplied immediateClient (payloads 1 1).reverse := by
  refine ⟨by decide +kernel, ⟨rfl, rfl, rfl⟩, by decide, by decide, fun happlied => ?_⟩
  have hnewest : NewestWith (payloads 1 1).reverse 1 ((snapshotMessage 2 [(1, [6])]).drop 3) := by
    decide
  exact absurd (happlied 1 _ hnewest) (by decide)

end CampelloNet.Replication
