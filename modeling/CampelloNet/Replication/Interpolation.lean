import CampelloNet.Lib.Ring
import CampelloNet.Replication
import Mathlib.Tactic.Linarith
import Mathlib.Tactic.Positivity

/-!
# The snapshots around a time

`ClientSnapshotBuffer::find_bracketing` looks for two adjacent snapshots around a time in the ring, and
`client_interpolate` gives the bridge what the newer one of the two contains. With two snapshots or more
the search succeeds, wherever the ring has wrapped (`find_bracketing_brackets`).
-/

namespace CampelloNet

open Lib Replication

/-! ### The search -/

namespace ClientSnapshotBuffer

/-- The loop of `find_bracketing` from turn `i` on, in at most the given number of turns. -/
def search (targetTime : ℚ) (oldestIdx : ℕ) (b : ClientSnapshotBuffer) :
    ℕ → ℕ → Option (BufferedSnapshot × BufferedSnapshot × ℚ)
  | 0, _ => none
  | turns + 1, i =>
    let older := b.snapshots ((oldestIdx + i) % MAX_SNAPSHOTS)
    let newer := b.snapshots ((oldestIdx + i + 1) % MAX_SNAPSHOTS)
    if targetTime ≥ older.receiveTime ∧ targetTime ≤ newer.receiveTime then
      let dt := newer.receiveTime - older.receiveTime
      some (older, newer, if dt > 0 then (targetTime - older.receiveTime) / dt else 0)
    else search targetTime oldestIdx b turns (i + 1)

/-- The older snapshot, the newer one and the blend factor. -/
def findBracketing (targetTime : ℚ) (b : ClientSnapshotBuffer) :
    Option (BufferedSnapshot × BufferedSnapshot × ℚ) :=
  if b.count < 2 then none
  else
    let newest := b.snapshots b.head
    let oldestIdx := (b.head + MAX_SNAPSHOTS - (b.count - 1)) % MAX_SNAPSHOTS
    let oldest := b.snapshots oldestIdx
    if targetTime ≤ oldest.receiveTime then
      some (oldest, b.snapshots ((oldestIdx + 1) % MAX_SNAPSHOTS), 0)
    else if targetTime ≥ newest.receiveTime then
      some (b.snapshots ((b.head + MAX_SNAPSHOTS - 1) % MAX_SNAPSHOTS), newest, 1)
    else b.search targetTime oldestIdx (b.count - 1) 0

/-- The data of an entity, nothing if the snapshot does not contain it. -/
def findEntity (snap : BufferedSnapshot) (netId : NetworkId) : Bytes :=
  ((lookup Prod.fst netId snap.entities).map Prod.snd).getD []

end ClientSnapshotBuffer

/-! ### The frame -/

namespace Replication

/-- What a frame asks of the bridge. -/
inductive BridgeCall
  | deserializeEntity (netId : NetworkId) (data : Bytes)
  | interpolateEntity (netId : NetworkId) (older newer : Bytes) (t : ℚ)
  | extrapolateEntity (netId : NetworkId) (newest : Bytes) (deltaTime : ℚ)
  deriving DecidableEq

/-- The defaults of `interpolate_entity` and `extrapolate_entity`: what is deserialised in the end. -/
def BridgeCall.fallback : BridgeCall → EntitySnapshot
  | deserializeEntity netId data => (netId, data)
  | interpolateEntity netId _ newer _ => (netId, newer)
  | extrapolateEntity netId newest _ => (netId, newest)

end Replication

namespace NetworkReplicationManager

def clientInterpolate (renderTime : ℚ) (rep : NetworkReplicationManager) : List BridgeCall :=
  if ¬rep.hasBridge ∨ ¬rep.interpolationEnabled ∨ rep.clientSnapshotBuffer.count < 2 then []
  else
    let targetTime := renderTime - rep.interpolationDelay
    match rep.clientSnapshotBuffer.findBracketing targetTime with
    | none => []
    | some (older, newer, t) =>
      newer.entities.map fun ent =>
        if targetTime > newer.receiveTime then
          .extrapolateEntity ent.1 ent.2 (targetTime - newer.receiveTime)
        else
          let olderData := ClientSnapshotBuffer.findEntity older ent.1
          if olderData ≠ [] then .interpolateEntity ent.1 olderData ent.2 t
          else .deserializeEntity ent.1 ent.2

end NetworkReplicationManager

/-! ### The slots in order -/

namespace ClientSnapshotBuffer

/-- The snapshots in the buffer, the oldest first. -/
def held (b : ClientSnapshotBuffer) : List BufferedSnapshot :=
  (List.range b.count).map fun i => Ring.back MAX_SNAPSHOTS b.snapshots b.head (b.count - 1 - i)

/-- The ring is one that `store` leaves behind. -/
structure Sound (b : ClientSnapshotBuffer) : Prop where
  head_lt : b.head < 128
  count_le : b.count ≤ 128

def storeAll (snaps : List BufferedSnapshot) (b : ClientSnapshotBuffer) : ClientSnapshotBuffer :=
  snaps.foldl (fun b snap => b.store snap.snapshotId snap.receiveTime snap.entities) b

variable {b : ClientSnapshotBuffer} {targetTime : ℚ}

@[simp] theorem length_held : b.held.length = b.count := by simp [held]

theorem held_getElem {i : ℕ} (hi : i < b.count) :
    b.held[i]? = some (Ring.back MAX_SNAPSHOTS b.snapshots b.head (b.count - 1 - i)) := by
  rw [held, List.getElem?_map, List.getElem?_range hi]
  rfl

/-- The index that the search computes. -/
theorem held_slot (hs : b.Sound) {i : ℕ} (hi : i < b.count) : b.held[i]? = some
    (b.snapshots (((b.head + MAX_SNAPSHOTS - (b.count - 1)) % MAX_SNAPSHOTS + i) % MAX_SNAPSHOTS)) := by
  have hhead := hs.head_lt
  have hcount := hs.count_le
  have hindex : (b.head + MAX_SNAPSHOTS - (b.count - 1 - i)) % MAX_SNAPSHOTS =
      ((b.head + MAX_SNAPSHOTS - (b.count - 1)) % MAX_SNAPSHOTS + i) % MAX_SNAPSHOTS := by
    rw [Nat.mod_add_mod, MAX_SNAPSHOTS]
    congr 1
    omega
  rw [held_getElem hi, Ring.back, hindex]

/-! ### What the search finds -/

/-- Two snapshots stored one right after the other, around a time, with the place of the time between
them. -/
structure Brackets (held : List BufferedSnapshot) (targetTime : ℚ) (older newer : BufferedSnapshot)
    (t : ℚ) : Prop where
  adjacent : [older, newer] <:+: held
  nonneg : 0 ≤ t
  le_one : t ≤ 1
  before : ∀ oldest ∈ held.head?, targetTime ≤ oldest.receiveTime → [older, newer] <+: held ∧ t = 0
  after : ∀ oldest ∈ held.head?, ∀ newest ∈ held.getLast?, oldest.receiveTime < targetTime →
    newest.receiveTime ≤ targetTime → [older, newer] <:+ held ∧ t = 1
  between : ∀ oldest ∈ held.head?, ∀ newest ∈ held.getLast?, oldest.receiveTime < targetTime →
    targetTime < newest.receiveTime →
    older.receiveTime ≤ targetTime ∧ targetTime ≤ newer.receiveTime ∧
      older.receiveTime < newer.receiveTime ∧
      t = (targetTime - older.receiveTime) / (newer.receiveTime - older.receiveTime)

/-- The pair at a place of a list, with what is on either side. -/
theorem split_pair {α : Type*} {l : List α} {k : ℕ} {a c : α} (ha : l[k]? = some a) (hc : l[k + 1]? = some c) :
    l = l.take k ++ [a, c] ++ l.drop (k + 2) := by
  obtain ⟨hk, ha⟩ := List.getElem?_eq_some_iff.mp ha
  obtain ⟨hk', hc⟩ := List.getElem?_eq_some_iff.mp hc
  conv_lhs => rw [← List.take_append_drop k l, List.drop_eq_getElem_cons hk,
    List.drop_eq_getElem_cons hk', ha, hc]
  simp

/-- The loop passes the snapshots that are before the time, so the pair it stops at is the one around
it, and not of equal times. -/
theorem search_spec (hs : b.Sound) {newest : BufferedSnapshot} (hnewest : b.held[b.count - 1]? = some newest)
    (hlt : targetTime < newest.receiveTime) (turns : ℕ) {i : ℕ} (hturns : i + turns + 1 = b.count)
    {snap : BufferedSnapshot} (hsnap : b.held[i]? = some snap) (hbefore : snap.receiveTime < targetTime) :
    ∃ k older newer, b.held[k]? = some older ∧ b.held[k + 1]? = some newer ∧
      older.receiveTime < targetTime ∧ targetTime ≤ newer.receiveTime ∧
      (∀ j, i ≤ j → j ≤ k → ∀ snap ∈ b.held[j]?, snap.receiveTime < targetTime) ∧
      b.search targetTime ((b.head + MAX_SNAPSHOTS - (b.count - 1)) % MAX_SNAPSHOTS) turns i =
        some (older, newer,
          (targetTime - older.receiveTime) / (newer.receiveTime - older.receiveTime)) := by
  induction turns generalizing i snap with
  | zero =>
    have hi : i = b.count - 1 := by omega
    rw [hi, hnewest] at hsnap
    rw [Option.some.inj hsnap] at hlt
    exact absurd hlt (by linarith)
  | succ turns ih =>
    have holder := held_slot hs (show i < b.count by omega)
    have hnewer := held_slot hs (show i + 1 < b.count by omega)
    rw [hsnap] at holder
    rw [← Nat.add_assoc] at hnewer
    rw [search, ← Option.some.inj holder]
    generalize b.snapshots _ = newer at hnewer ⊢
    dsimp only
    by_cases hfound : targetTime ≤ newer.receiveTime
    · rw [if_pos ⟨hbefore.le, hfound⟩, if_pos (by linarith)]
      refine ⟨i, snap, newer, hsnap, hnewer, hbefore, hfound, fun j hij hji snap' hsnap' => ?_, rfl⟩
      obtain rfl := Nat.le_antisymm hij hji
      rwa [← Option.some.inj (hsnap.symm.trans hsnap')]
    · rw [if_neg fun h => hfound h.2]
      obtain ⟨k, older, newer', holder, hnewer', hlt', hle, hpassed, hsearch⟩ :=
        ih (by omega) hnewer (not_le.mp hfound)
      refine ⟨k, older, newer', holder, hnewer', hlt', hle, fun j hij hjk snap' hsnap' => ?_, hsearch⟩
      rcases hij.eq_or_lt with rfl | hlt''
      · rwa [← Option.some.inj (hsnap.symm.trans hsnap')]
      · exact hpassed j hlt'' hjk snap' hsnap'

theorem pair_infix {α : Type*} {l : List α} {k : ℕ} {a c : α} (ha : l[k]? = some a)
    (hc : l[k + 1]? = some c) : [a, c] <:+: l := by
  rw [split_pair ha hc]
  exact ⟨_, _, rfl⟩

theorem findBracketing_spec (hs : b.Sound) (hcount : 2 ≤ b.count) (targetTime : ℚ) :
    ∃ older newer t, b.findBracketing targetTime = some (older, newer, t) ∧
      Brackets b.held targetTime older newer t := by
  have hhead := hs.head_lt
  have hfirst := held_slot hs (show 0 < b.count by omega)
  have hsecond := held_slot hs (show 0 + 1 < b.count by omega)
  rw [Nat.add_zero, Nat.mod_mod] at hfirst
  rw [Nat.zero_add] at hsecond
  have hlast : b.held[b.count - 1]? = some (b.snapshots b.head) := by
    rw [held_getElem (by omega), Nat.sub_self, Ring.back_zero (N := MAX_SNAPSHOTS) hhead]
  have hprev : b.held[b.count - 2]? = some (b.snapshots ((b.head + MAX_SNAPSHOTS - 1) % MAX_SNAPSHOTS)) := by
    rw [held_getElem (by omega), show b.count - 1 - (b.count - 2) = 1 by omega]
    rfl
  have hnewest : ∀ newest ∈ b.held.getLast?, b.snapshots b.head = newest := by
    intro newest h
    rw [List.getLast?_eq_getElem?, length_held, hlast] at h
    exact Option.some.inj h
  rw [findBracketing, if_neg (by omega)]
  dsimp only
  generalize b.snapshots ((b.head + MAX_SNAPSHOTS - (b.count - 1)) % MAX_SNAPSHOTS) = oldest at hfirst ⊢
  have holdest : ∀ oldest' ∈ b.held.head?, oldest = oldest' := by
    intro oldest' h
    rw [List.head?_eq_getElem?, hfirst] at h
    exact Option.some.inj h
  by_cases hbefore : targetTime ≤ oldest.receiveTime
  · rw [if_pos hbefore]
    refine ⟨_, _, _, rfl, ?_⟩
    constructor
    · exact pair_infix hfirst hsecond
    · exact le_refl 0
    · exact zero_le_one
    · intro _ _ _
      refine ⟨⟨b.held.drop 2, ?_⟩, rfl⟩
      conv_rhs => rw [split_pair hfirst hsecond]
      rfl
    · intro oldest' h _ _ hlt
      rw [← holdest oldest' h] at hlt
      exact absurd hlt (not_lt.mpr hbefore)
    · intro oldest' h _ _ hlt
      rw [← holdest oldest' h] at hlt
      exact absurd hlt (not_lt.mpr hbefore)
  rw [if_neg hbefore]
  rw [not_le] at hbefore
  by_cases hafter : targetTime ≥ (b.snapshots b.head).receiveTime
  · rw [if_pos hafter]
    have hlast' : b.held[b.count - 2 + 1]? = some (b.snapshots b.head) := by
      rw [show b.count - 2 + 1 = b.count - 1 by omega, hlast]
    refine ⟨_, _, _, rfl, ?_⟩
    constructor
    · exact pair_infix hprev hlast'
    · exact zero_le_one
    · exact le_refl 1
    · intro oldest' h hle
      rw [← holdest oldest' h] at hle
      exact absurd hle (not_le.mpr hbefore)
    · intro _ _ _ _ _ _
      refine ⟨⟨b.held.take (b.count - 2), ?_⟩, rfl⟩
      conv_rhs => rw [split_pair hprev hlast', List.drop_of_length_le (by rw [length_held]; omega)]
      rw [List.append_nil]
    · intro _ _ newest h _ hlt
      rw [← hnewest newest h] at hlt
      exact absurd hlt (not_lt.mpr hafter)
  · rw [if_neg hafter]
    rw [ge_iff_le, not_le] at hafter
    obtain ⟨k, older, newer, holder, hnewer, hlt, hle, -, hsearch⟩ :=
      search_spec hs hlast hafter (b.count - 1) (by omega) hfirst hbefore
    have hdt : 0 < newer.receiveTime - older.receiveTime := by linarith
    rw [hsearch]
    refine ⟨_, _, _, rfl, ?_⟩
    constructor
    · exact pair_infix holder hnewer
    · exact div_nonneg (by linarith) hdt.le
    · rw [div_le_one hdt]
      linarith
    · intro oldest' h hle'
      rw [← holdest oldest' h] at hle'
      exact absurd hle' (not_le.mpr hbefore)
    · intro _ _ newest h _ hle'
      rw [← hnewest newest h] at hle'
      exact absurd hle' (not_le.mpr hafter)
    · intro _ _ _ _ _ _
      exact ⟨hlt.le, hle, by linarith, rfl⟩

/-- Of the snapshots in order, the newer one of the two around a time: the second up to the oldest time,
the newest from the newest on, and in between the first that was not received before the time. -/
def newerAt (held : List BufferedSnapshot) (targetTime : ℚ) : Option BufferedSnapshot :=
  if held.length < 2 then none
  else if held.head?.any fun oldest => targetTime ≤ oldest.receiveTime then held[1]?
  else if held.getLast?.any fun newest => newest.receiveTime ≤ targetTime then held.getLast?
  else held.find? fun snap => targetTime ≤ snap.receiveTime

/-- A buffer that holds nothing, as it is at the start and after `clear`. -/
structure Empty (b : ClientSnapshotBuffer) : Prop where
  head_lt : b.head < 128
  count : b.count = 0

theorem records_storeAll (snaps : List BufferedSnapshot) {log : List BufferedSnapshot}
    (hr : Ring.Records MAX_SNAPSHOTS b.snapshots b.head b.count log) (hcount : b.count = min log.length 128) :
    Ring.Records MAX_SNAPSHOTS (b.storeAll snaps).snapshots (b.storeAll snaps).head (b.storeAll snaps).count
        (snaps.reverse ++ log) ∧
      (b.storeAll snaps).count = min (snaps.reverse ++ log).length 128 := by
  induction snaps generalizing b log with
  | nil => exact ⟨hr, hcount⟩
  | cons snap snaps ih =>
    have hstep : (b.store snap.snapshotId snap.receiveTime snap.entities).count =
        if b.count < 128 then b.count + 1 else b.count := rfl
    have hnext : (b.store snap.snapshotId snap.receiveTime snap.entities).count =
        min (snap :: log).length 128 := by
      rw [hstep, List.length_cons]
      split_ifs <;> omega
    have hrest := ih (hr.push snap) hnext
    rw [List.reverse_cons, List.append_assoc, List.singleton_append]
    exact hrest

/-- It holds the last 128 snapshots that were stored. -/
theorem held_storeAll (he : b.Empty) (snaps : List BufferedSnapshot) :
    (b.storeAll snaps).Sound ∧ (b.storeAll snaps).count = min snaps.length 128 ∧
      (b.storeAll snaps).held = snaps.drop (snaps.length - 128) := by
  have hstart : Ring.Records MAX_SNAPSHOTS b.snapshots b.head b.count [] := by
    refine ⟨he.head_lt, ?_, fun k hk => ?_⟩
    · rw [he.count]
      exact Nat.zero_le _
    · rw [he.count] at hk
      exact absurd hk (Nat.not_lt_zero k)
  obtain ⟨hr, hcount⟩ := records_storeAll snaps hstart he.count
  rw [List.append_nil] at hr hcount
  rw [List.length_reverse] at hcount
  refine ⟨⟨hr.head_lt, hr.count_le⟩, hcount, List.ext_getElem? fun i => ?_⟩
  by_cases hi : i < (b.storeAll snaps).count
  · rw [held_getElem hi, ← hr.slot _ (by omega), List.getElem?_reverse (by omega), List.getElem?_drop]
    congr 1
    omega
  · rw [List.getElem?_eq_none (by rw [length_held]; omega), List.getElem?_eq_none]
    rw [List.length_drop]
    omega

/-- In a buffer filled by two calls of `store` or more, the search finds two adjacent snapshots around
every time: the oldest two up to the oldest time, the newest two from the newest on, and in between the
pair that the time lies in, with its linear fraction. -/
theorem find_bracketing_brackets (he : b.Empty) (snaps : List BufferedSnapshot) (htwo : 2 ≤ snaps.length)
    (targetTime : ℚ) : ∃ older newer t,
      (b.storeAll snaps).findBracketing targetTime = some (older, newer, t) ∧
        Brackets (snaps.drop (snaps.length - 128)) targetTime older newer t := by
  obtain ⟨hsound, hcount, hheld⟩ := held_storeAll he snaps
  rw [← hheld]
  exact findBracketing_spec hsound (by omega) targetTime

theorem find_bracketing_brackets_pair : ∃ older newer t,
    (storeAll [⟨1, 0, []⟩, ⟨2, 4, []⟩] {}).findBracketing 1 = some (older, newer, t) ∧
      Brackets [⟨1, 0, []⟩, ⟨2, 4, []⟩] 1 older newer t :=
  find_bracketing_brackets ⟨by decide, rfl⟩ [⟨1, 0, []⟩, ⟨2, 4, []⟩] (by decide) 1

end ClientSnapshotBuffer

end CampelloNet
