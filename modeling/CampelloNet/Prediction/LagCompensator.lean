import CampelloNet.Replication.History
import Mathlib.Data.Rat.Floor

/-!
# Rewinding by the latency

`get_rewind_tick` counts back from the client's tick, stops at tick 0 and looks at no history. The tick
that it returns is the one the documentation promises if and only if the latency leads to a stored tick
without passing tick 0, or tick 0 happens to be the one that is promised (`rewinds_to_stored_iff`).
Arithmetic is exact, and an `int` is an integer.
-/

namespace CampelloNet

open Replication

/-! ### The rewind tick -/

namespace LagCompensator

/-- `std::round`: to the nearest integer, and halfway away from zero. -/
def round (x : ℚ) : ℤ := if 0 ≤ x then ⌊x + 1 / 2⌋ else -⌊-x + 1 / 2⌋

/-- `tick_offset`: half the round trip in ticks. -/
def tickOffset (tickRate clientRttMs : ℚ) : ℤ :=
  let tickIntervalMs := 1000 / tickRate
  round (clientRttMs * (1 / 2) / tickIntervalMs)

def getRewindTick (tickRate : ℚ) (clientTick : UInt16) (clientRttMs : ℚ) : UInt16 :=
  if tickRate ≤ 0 then clientTick
  else
    let result : ℤ := clientTick.toNat - tickOffset tickRate clientRttMs
    if result < 0 then 0 else UInt16.ofNat result.toNat

end LagCompensator

/-! ### A history without gaps -/

namespace SnapshotHistory

/-- Snapshots stored one after the other, with ids that follow each other from the first. -/
def filled (first : UInt16) (snaps : List (List EntitySnapshot)) : SnapshotHistory :=
  snaps.zipIdx.foldl (fun h snap => h.store (first + UInt16.ofNat snap.2) snap.1) {}

/-- The ids that are still stored, the oldest first. -/
def storedIds (first : UInt16) (snaps : List (List EntitySnapshot)) : List UInt16 :=
  (List.range' (snaps.length - MAX_SNAPSHOTS) (min snaps.length MAX_SNAPSHOTS)).map fun i =>
    first + UInt16.ofNat i

variable {first id : UInt16} {snaps : List (List EntitySnapshot)}

theorem filled_concat (first : UInt16) (snaps : List (List EntitySnapshot)) (snap : List EntitySnapshot) :
    filled first (snaps ++ [snap]) =
      (filled first snaps).store (first + UInt16.ofNat snaps.length) snap := by
  simp [filled, List.zipIdx_append]

theorem count_filled (first : UInt16) (snaps : List (List EntitySnapshot)) :
    (filled first snaps).count = min snaps.length MAX_SNAPSHOTS := by
  induction snaps using List.reverseRecOn with
  | nil => rfl
  | append_singleton snaps snap ih =>
    rw [filled_concat, List.length_append, List.length_singleton]
    show (if (filled first snaps).count < MAX_SNAPSHOTS then (filled first snaps).count + 1
      else (filled first snaps).count) = _
    rw [ih]
    split_ifs <;> omega

theorem head_filled (h : snaps ≠ []) :
    ((filled first snaps).snapshots (filled first snaps).head).id =
      first + UInt16.ofNat (snaps.length - 1) := by
  obtain ⟨snaps, snap, rfl⟩ := snaps.eq_nil_or_concat.resolve_left h
  have hnew : ∀ (h : SnapshotHistory) (id : UInt16), ((h.store id snap).snapshots
      (h.store id snap).head).id = id := by
    intro h id
    unfold store
    dsimp only
    rw [Function.update_self]
  rw [List.concat_eq_append, filled_concat, hnew, List.length_append, List.length_singleton,
    Nat.add_sub_cancel]

theorem mem_storedIds : id ∈ storedIds first snaps ↔
    ∃ i, i < snaps.length ∧ snaps.length ≤ i + MAX_SNAPSHOTS ∧ id = first + UInt16.ofNat i := by
  unfold storedIds
  simp only [List.mem_map, List.mem_range'_1]
  constructor
  · rintro ⟨i, hi, rfl⟩
    exact ⟨i, by omega, by omega, rfl⟩
  · rintro ⟨i, hi, hlast, rfl⟩
    exact ⟨i, by omega, rfl⟩

theorem isSome_retrieve (h : snaps ≠ []) (id : UInt16) :
    ((filled first snaps).retrieve id).isSome ↔
      (first + UInt16.ofNat (snaps.length - 1) - id).toNat < min snaps.length MAX_SNAPSHOTS := by
  have hlength : 0 < snaps.length := List.length_pos_iff.mpr h
  unfold retrieve
  rw [count_filled, head_filled h]
  dsimp only
  rw [if_neg (by simp [MAX_SNAPSHOTS]; omega)]
  split_ifs with hold
  · exact iff_of_false Bool.false_ne_true (not_lt.mpr hold)
  · exact iff_of_true rfl (not_le.mp hold)

/-- The snapshots that can be retrieved are those with the ids that are still stored. -/
theorem isSome_retrieve_iff (h : snaps ≠ []) :
    ((filled first snaps).retrieve id).isSome ↔ id ∈ storedIds first snaps := by
  have hlength : 0 < snaps.length := List.length_pos_iff.mpr h
  have hmax : MAX_SNAPSHOTS = 128 := rfl
  rw [isSome_retrieve h, mem_storedIds]
  constructor
  · intro hlt
    let k := (first + UInt16.ofNat (snaps.length - 1) - id).toNat
    have hk : k < min snaps.length MAX_SNAPSHOTS := hlt
    refine ⟨snaps.length - 1 - k, by omega, by omega, ?_⟩
    have hback : id = first + UInt16.ofNat (snaps.length - 1) - UInt16.ofNat k := by
      rw [UInt16.ofNat_toNat, sub_sub_self]
    have hsum : UInt16.ofNat (snaps.length - 1) = UInt16.ofNat (snaps.length - 1 - k) + UInt16.ofNat k := by
      rw [← UInt16.ofNat_add, Nat.sub_add_cancel (by omega)]
    rw [hback, hsum]
    grind
  · rintro ⟨i, hi, hlast, rfl⟩
    have hsum : UInt16.ofNat (snaps.length - 1) =
        UInt16.ofNat i + UInt16.ofNat (snaps.length - 1 - i) := by
      rw [← UInt16.ofNat_add, Nat.add_sub_cancel' (by omega)]
    have hdiff : first + UInt16.ofNat (snaps.length - 1) - (first + UInt16.ofNat i) =
        UInt16.ofNat (snaps.length - 1 - i) := by
      rw [hsum]
      grind
    rw [hdiff, UInt16.toNat_ofNat_of_lt' (show _ < 2 ^ 16 by omega)]
    omega

/-- The oldest id that is still stored. -/
def oldestId (first : UInt16) (snaps : List (List EntitySnapshot)) : UInt16 :=
  first + UInt16.ofNat (snaps.length - MAX_SNAPSHOTS)

theorem oldestId_mem (h : snaps ≠ []) : oldestId first snaps ∈ storedIds first snaps := by
  have hlength : 0 < snaps.length := List.length_pos_iff.mpr h
  exact mem_storedIds.mpr ⟨snaps.length - MAX_SNAPSHOTS, by simp [MAX_SNAPSHOTS]; omega, by omega, rfl⟩

end SnapshotHistory

/-! ### The promise -/

namespace LagCompensator

open SnapshotHistory

variable {first clientTick : UInt16} {snaps : List (List EntitySnapshot)} {tickRate clientRttMs : ℚ}

theorem round_nonneg {x : ℚ} (h : 0 ≤ x) : 0 ≤ round x := by
  unfold round
  rw [if_pos h, Int.le_floor]
  norm_num
  linarith

/-- The offset that the code counts back by, 0 without a tick rate. -/
def latency (tickRate clientRttMs : ℚ) : ℕ :=
  if tickRate ≤ 0 then 0 else (tickOffset tickRate clientRttMs).toNat

/-- The tick the latency leads to on the circle of ticks. -/
def wanted (tickRate : ℚ) (clientTick : UInt16) (clientRttMs : ℚ) : UInt16 :=
  clientTick - UInt16.ofNat (latency tickRate clientRttMs)

/-- The latency is counted back from the client's tick, but not past 0. -/
theorem getRewindTick_eq (hrtt : 0 ≤ clientRttMs) : getRewindTick tickRate clientTick clientRttMs =
    if latency tickRate clientRttMs ≤ clientTick.toNat then wanted tickRate clientTick clientRttMs
    else 0 := by
  unfold getRewindTick wanted latency
  by_cases hrate : tickRate ≤ 0
  · simp [hrate]
  · rw [if_neg hrate, if_neg hrate]
    have hoffset : 0 ≤ tickOffset tickRate clientRttMs := by
      apply round_nonneg
      have hrate' : 0 < tickRate := not_le.mp hrate
      positivity
    obtain ⟨n, hn⟩ := Int.eq_ofNat_of_zero_le hoffset
    dsimp only
    rw [hn, Int.toNat_natCast]
    by_cases hle : n ≤ clientTick.toNat
    · rw [if_pos hle, if_neg (by omega)]
      have hresult : ((clientTick.toNat : ℤ) - n).toNat = clientTick.toNat - n := by omega
      rw [hresult]
      have hlt := clientTick.toNat_lt
      apply UInt16.toNat.inj
      rw [UInt16.toNat_sub, UInt16.toNat_ofNat_of_lt' (show _ < 2 ^ 16 by omega),
        UInt16.toNat_ofNat_of_lt' (show _ < 2 ^ 16 by omega)]
      omega
    · rw [if_neg hle, if_pos (by omega)]

/-- The tick to rewind to is stored, and it is the one the latency leads to if that is stored, and
otherwise the oldest. -/
def Promised (first : UInt16) (snaps : List (List EntitySnapshot)) (tickRate : ℚ) (clientTick : UInt16)
    (clientRttMs : ℚ) : Prop :=
  ((filled first snaps).retrieve (getRewindTick tickRate clientTick clientRttMs)).isSome ∧
    getRewindTick tickRate clientTick clientRttMs =
      if wanted tickRate clientTick clientRttMs ∈ storedIds first snaps then
        wanted tickRate clientTick clientRttMs
      else oldestId first snaps

/-- For a history with consecutive ids, the tick to rewind to is as promised, if and
only if the latency leads to a stored tick without passing 0, or it passes 0 and it is tick 0 that is
promised. -/
theorem rewinds_to_stored_iff (first : UInt16) (snaps : List (List EntitySnapshot)) (hsnaps : snaps ≠ [])
    (tickRate : ℚ) (clientTick : UInt16) (clientRttMs : ℚ) (hrtt : 0 ≤ clientRttMs) :
    Promised first snaps tickRate clientTick clientRttMs ↔
      if latency tickRate clientRttMs ≤ clientTick.toNat then
        wanted tickRate clientTick clientRttMs ∈ storedIds first snaps
      else if wanted tickRate clientTick clientRttMs ∈ storedIds first snaps then
        wanted tickRate clientTick clientRttMs = 0
      else oldestId first snaps = 0 := by
  unfold Promised
  rw [isSome_retrieve_iff hsnaps, getRewindTick_eq hrtt]
  have holdest : oldestId first snaps ∈ storedIds first snaps := oldestId_mem hsnaps
  split_ifs with hle hstored hstored
  · exact iff_of_true ⟨hstored, rfl⟩ hstored
  · exact iff_of_false (fun h => hstored h.1) hstored
  · constructor
    · rintro ⟨-, heq⟩
      exact heq.symm
    · intro heq
      rw [heq] at hstored
      exact ⟨hstored, heq.symm⟩
  · constructor
    · rintro ⟨-, heq⟩
      exact heq.symm
    · intro heq
      rw [heq] at holdest
      exact ⟨holdest, heq.symm⟩

/-- Snapshots 0 to 199, 30 of them a second, and a round trip of 100 ms. -/
theorem rewinds_to_stored_hundred :
    Promised 0 (List.replicate 200 []) 30 190 100 :=
  (rewinds_to_stored_iff 0 (List.replicate 200 []) (by decide) 30 190 100 (by norm_num)).mpr
    (by decide +kernel)

/-- Of the snapshots 0 to 199 number 72 is the oldest that is left, but with a round trip of two seconds
tick 80 is rewound to tick 50. -/
theorem rewinds_past_oldest :
    (80 : UInt16) ∈ storedIds 0 (List.replicate 200 []) ∧ getRewindTick 30 80 2000 = 50 ∧
      (filled 0 (List.replicate 200 [])).retrieve 50 = none ∧
      oldestId 0 (List.replicate 200 []) = 72 := by
  decide +kernel

end LagCompensator

end CampelloNet
