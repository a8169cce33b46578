import CampelloNet.Replication.Decoding
import CampelloNet.Replication.History

/-!
# The window of snapshots that can be retrieved

`SnapshotHistory::store` flattens the entities into the blob of a slot that has been used before, and
keeps spans into it. It reserves room for all of them first, so that the blob is not moved while the
spans are made. Here that is said with the blobs: of snapshots with consecutive ids, the ids of the last
128 are found, and the spans denote what was stored (`retrieve_window`).
-/

namespace CampelloNet

open Lib Replication

/-! ### The slots in memory -/

namespace Replication.Memory

/-- `SnapshotHistory::Snapshot` -/
structure Slot where
  id : UInt16 := 0
  held : Parsed := ⟨⟨0, [], 0, Nat.le_refl 0⟩, []⟩

structure SnapshotHistory where
  snapshots : ℕ → Slot := fun _ => {}
  count : ℕ := 0
  head : ℕ := 0

/-- The loop of `store`. `regions n` is what the allocator answers in the turn after which `n` turns are
left. -/
def flatten (regions : ℕ → Region) : List EntitySnapshot → Parsed → Parsed
  | [], held => held
  | ent :: rest, held =>
    let offset := held.blob.bytes.length
    let blob := held.blob.insert (regions rest.length) ent.2
    flatten regions rest
      ⟨blob, held.entities ++ [(ent.1, ⟨blob.address + offset, ent.2.length⟩)]⟩

def totalBytes (entities : List EntitySnapshot) : ℕ := (entities.map fun ent => ent.2.length).sum

namespace SnapshotHistory

def store (regions : ℕ → Region) (snapshotId : UInt16) (entities : List EntitySnapshot)
    (h : SnapshotHistory) : SnapshotHistory :=
  let head := (h.head + 1) % MAX_SNAPSHOTS
  let blob := (h.snapshots head).held.blob.clear.reserve (regions entities.length) (totalBytes entities)
  { snapshots := Function.update h.snapshots head ⟨snapshotId, flatten regions entities ⟨blob, []⟩⟩
    count := if h.count < MAX_SNAPSHOTS then h.count + 1 else h.count
    head := head }

def retrieve (snapshotId : UInt16) (h : SnapshotHistory) : Option Parsed :=
  if h.count = 0 then none
  else
    let delta := ((h.snapshots h.head).id - snapshotId).toNat
    if h.count ≤ delta then none
    else some (h.snapshots ((h.head + MAX_SNAPSHOTS - delta) % MAX_SNAPSHOTS)).held

end SnapshotHistory

/-! ### What the spans of a slot denote -/

/-- While there is room for them all, the entities are put behind each other without a move. -/
theorem denotes_flatten (regions : ℕ → Region) (rest : List EntitySnapshot) {held : Parsed}
    {entities : List EntitySnapshot} (hroom : held.blob.bytes.length + totalBytes rest ≤ held.blob.capacity)
    (h : Denotes held entities) : Denotes (flatten regions rest held) (entities ++ rest) := by
  induction rest generalizing held entities with
  | nil => simpa [flatten] using h
  | cons ent rest ih =>
    have htotal : totalBytes (ent :: rest) = ent.2.length + totalBytes rest := List.sum_cons
    have hfits : (held.blob.bytes ++ ent.2).length ≤ held.blob.capacity := by
      rw [List.length_append]
      omega
    have hsplit : entities ++ ent :: rest = entities ++ [ent] ++ rest := by simp
    rw [flatten, hsplit]
    apply ih
    · rw [(Blob.insert_of_room hfits).2, Blob.bytes_insert, List.length_append]
      omega
    · refine List.rel_append ?_ (.cons ⟨rfl, Blob.read_insert _ _ _⟩ .nil)
      exact h.imp fun _ _ hspan => ⟨hspan.1, Blob.read_insert_of_room hfits hspan.2⟩

/-- A slot holds a snapshot. -/
structure Slot.Holds (slot : Slot) (snap : Snapshot) : Prop where
  id : slot.id = snap.id
  denotes : Denotes slot.held snap.entities

structure Refines (m : SnapshotHistory) (h : CampelloNet.SnapshotHistory) : Prop where
  count : m.count = h.count
  head : m.head = h.head
  slots : ∀ i, (m.snapshots i).Holds (h.snapshots i)

theorem refines_start : Refines {} {} where
  count := rfl
  head := rfl
  slots := fun _ => ⟨rfl, .nil⟩

theorem Refines.store {m : SnapshotHistory} {h : CampelloNet.SnapshotHistory} (hr : Refines m h)
    (regions : ℕ → Region) (id : UInt16) (entities : List EntitySnapshot) :
    Refines (m.store regions id entities) (h.store id entities) := by
  have hslot : ∀ blob : Blob, Denotes (flatten regions entities
      ⟨blob.clear.reserve (regions entities.length) (totalBytes entities), []⟩) entities := by
    intro blob
    have hempty : Denotes ⟨blob.clear.reserve (regions entities.length) (totalBytes entities), []⟩ [] :=
      List.Forall₂.nil
    refine denotes_flatten regions entities ?_ hempty
    rw [Blob.bytes_reserve, Blob.bytes_clear, List.length_nil, Nat.zero_add]
    exact Blob.le_capacity_reserve _
  constructor
  · show (if m.count < _ then _ else _) = if h.count < _ then _ else _
    rw [hr.count]
  · show (m.head + 1) % MAX_SNAPSHOTS = (h.head + 1) % MAX_SNAPSHOTS
    rw [hr.head]
  · intro i
    show (Function.update m.snapshots _ _ i).Holds (Function.update h.snapshots _ _ i)
    rw [hr.head]
    by_cases hi : i = (h.head + 1) % MAX_SNAPSHOTS
    · rw [hi, Function.update_self, Function.update_self]
      exact ⟨rfl, hslot _⟩
    · rw [Function.update_of_ne hi, Function.update_of_ne hi]
      exact hr.slots i

theorem Refines.denotes_retrieve {m : SnapshotHistory} {h : CampelloNet.SnapshotHistory}
    (hr : Refines m h) (id : UInt16) : Option.Rel Denotes (m.retrieve id) (h.retrieve id) := by
  rw [SnapshotHistory.retrieve, CampelloNet.SnapshotHistory.retrieve]
  dsimp only
  rw [hr.count, hr.head, (hr.slots _).id]
  split_ifs
  · exact .none
  · exact .none
  · exact .some (hr.slots _).denotes

theorem Refines.retrieve {m : SnapshotHistory} {h : CampelloNet.SnapshotHistory} (hr : Refines m h)
    (id : UInt16) : (m.retrieve id).map handOver = (h.retrieve id).map some := by
  have hfound := hr.denotes_retrieve id
  generalize m.retrieve id = held at hfound
  generalize h.retrieve id = entities at hfound
  cases hfound with
  | none => rfl
  | some hdenotes => exact congrArg some hdenotes.handOver_eq

end Replication.Memory

/-! ### Consecutive ids -/

/-- The snapshots of successive calls of `store`, whose ids count up from the first. -/
def snapshotsFrom (first : UInt16) : List (List EntitySnapshot) → List Snapshot
  | [] => []
  | entities :: rest => ⟨first, entities⟩ :: snapshotsFrom (first + 1) rest

namespace SnapshotHistory

def storeAll (snaps : List Snapshot) (h : SnapshotHistory) : SnapshotHistory :=
  snaps.foldl (fun h snap => h.store snap.id snap.entities) h

/-- The ring holds the last snapshots of a log without a gap, after which the given id comes next. -/
structure Filled (h : SnapshotHistory) (log : List Snapshot) (next : UInt16) : Prop where
  records : h.Records log
  exact : h.Exact
  count : h.count = min log.length 128
  next : log ≠ [] → next = (h.snapshots h.head).id + 1

variable {h : SnapshotHistory} {log : List Snapshot} {next : UInt16}

theorem Filled.store (hf : h.Filled log next) (entities : List EntitySnapshot) :
    (h.store next entities).Filled (⟨next, entities⟩ :: log) (next + 1) := by
  constructor
  · exact hf.records.store
  · rw [exact_store hf.records hf.exact]
    by_cases hlog : log = []
    · left
      rw [hf.count, hlog]
      rfl
    · exact .inr (hf.next hlog)
  · have hcount := hf.count
    show (if h.count < 128 then h.count + 1 else h.count) = min (log.length + 1) 128
    split_ifs <;> omega
  · intro _
    have hnew : (h.store next entities).snapshots (h.store next entities).head = ⟨next, entities⟩ :=
      Function.update_self ..
    rw [hnew]

theorem Filled.storeAll (hf : h.Filled log next) (lists : List (List EntitySnapshot)) :
    ∃ next', (h.storeAll (snapshotsFrom next lists)).Filled
      ((snapshotsFrom next lists).reverse ++ log) next' := by
  induction lists generalizing h log next with
  | nil => exact ⟨next, hf⟩
  | cons entities rest ih =>
    obtain ⟨next', hall⟩ := ih (hf.store entities)
    refine ⟨next', ?_⟩
    rw [snapshotsFrom, List.reverse_cons, List.append_assoc, List.singleton_append]
    exact hall

/-- An id retrieves what was stored under it last if it is one of the last 128, and nothing otherwise. -/
theorem Filled.retrieve (hf : h.Filled log next) (id : UInt16) :
    h.retrieve id = if id ∈ (log.take 128).map Snapshot.id then
      (lookup Snapshot.id id log).map Snapshot.entities else none := by
  have hcount := hf.count
  have hfound : ∀ snap, h.retrieved id = some snap → lookup Snapshot.id id log = some snap :=
    fun snap hsnap => lookup_of_retrieved hf.records hf.exact hsnap
  rw [retrieve_eq]
  split_ifs with hmem
  · obtain ⟨snap, hsnap, hid⟩ := List.mem_map.mp hmem
    obtain ⟨k, hk, hget⟩ := List.mem_iff_getElem.mp hsnap
    rw [List.length_take] at hk
    have hslot := hf.records.slot k (by omega)
    rw [List.getElem_take] at hget
    rw [List.getElem?_eq_getElem (by omega), hget] at hslot
    have hdelta : ((h.snapshots h.head).id - id).toNat = k := by
      have hexact := hf.exact k (by omega)
      rw [← Option.some.inj hslot, hid] at hexact
      rw [hexact]
      exact sub_toNat_ofNat _ (by omega)
    have hretrieved : h.retrieved id = some snap := by
      unfold retrieved
      dsimp only
      rw [hdelta, if_neg (by omega), Option.some.inj hslot]
    rw [hretrieved, hfound snap hretrieved]
  · rw [Option.map_eq_none_iff, Option.eq_none_iff_forall_ne_some]
    intro snap hsnap
    apply hmem
    have hid := (exact_iff hf.records).mp hf.exact id snap hsnap
    have hlook := hfound snap hsnap
    unfold retrieved at hsnap
    dsimp only at hsnap
    split_ifs at hsnap with hdelta
    have hslot := hf.records.slot ((h.snapshots h.head).id - id).toNat (by omega)
    rw [Option.some.inj hsnap] at hslot
    refine List.mem_map.mpr ⟨snap, List.mem_take_iff_getElem.mpr ?_, hid⟩
    obtain ⟨hlt, hget⟩ := List.getElem?_eq_some_iff.mp hslot
    exact ⟨_, by omega, hget⟩

end SnapshotHistory

/-! ### The window -/

namespace Replication.Memory

/-- Successive calls of `store`. `regions n` is what the allocator answers in the call after which `n`
calls are left. -/
def SnapshotHistory.storeAll (regions : ℕ → ℕ → Region) : List Snapshot → SnapshotHistory → SnapshotHistory
  | [], h => h
  | snap :: rest, h => storeAll regions rest (h.store (regions rest.length) snap.id snap.entities)

theorem Refines.storeAll {m : SnapshotHistory} {h : CampelloNet.SnapshotHistory} (hr : Refines m h)
    (regions : ℕ → ℕ → Region) (snaps : List Snapshot) :
    Refines (m.storeAll regions snaps) (h.storeAll snaps) := by
  induction snaps generalizing m h with
  | nil => exact hr
  | cons snap rest ih => exact ih (hr.store _ _ _)

/-- Of snapshots that are stored under consecutive ids, an id retrieves the last that has it if it is
among the last 128, byte for byte and whatever the allocator does, and nothing otherwise. -/
theorem retrieve_window (regions : ℕ → ℕ → Region) (first : UInt16) (lists : List (List EntitySnapshot))
    (id : UInt16) :
    let log := (snapshotsFrom first lists).reverse
    ((SnapshotHistory.storeAll regions (snapshotsFrom first lists) {}).retrieve id).map handOver =
      if id ∈ (log.take 128).map Snapshot.id then
        (lookup Snapshot.id id log).map fun snap => some snap.entities
      else none := by
  have hempty : CampelloNet.SnapshotHistory.Filled {} [] first := by
    refine ⟨⟨by decide, by decide, ?_⟩, ?_, rfl, fun h => absurd rfl h⟩
    · exact fun k hk => absurd hk (Nat.not_lt_zero k)
    · exact fun k hk => absurd hk (Nat.not_lt_zero k)
  obtain ⟨next, hfilled⟩ := hempty.storeAll lists
  rw [List.append_nil] at hfilled
  intro log
  rw [(refines_start.storeAll regions (snapshotsFrom first lists)).retrieve, hfilled.retrieve]
  split_ifs
  · rw [Option.map_map]
    rfl
  · rfl

end Replication.Memory

end CampelloNet
