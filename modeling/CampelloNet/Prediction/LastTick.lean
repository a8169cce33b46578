import CampelloNet.Prediction.InputBuffer
import CampelloNet.Replication.SnapshotOrder

/-!
# The last received tick

`last_received_tick` looks for the newest tick in the order of the slots, starting from tick 0 as if it
had been stored. It finds the newest of the stored ticks if that lies in the half of the circle after 0,
or if a tick there is met first (`lastReceivedTick_eq_iff`).
-/

namespace CampelloNet.InputBuffer

open Lib Replication

/-- The ticks in the slots, in their order, but for 0. -/
def ticks (client : ClientId) (b : InputBuffer) : List UInt16 :=
  ((List.range MAX_TICKS).map fun i => (b.ring client i).tick).filter (· ≠ 0)

theorem foldl_newer (l : List UInt16) (max : UInt16) :
    l.foldl (fun max tick => if tick ≠ 0 ∧ newer tick max then tick else max) max =
      latest newer max (l.filter (· ≠ 0)) := by
  induction l generalizing max with
  | nil => rfl
  | cons tick l ih =>
    rw [List.foldl_cons, ih, List.filter_cons]
    by_cases hzero : tick = 0
    · simp [hzero]
    · simp [hzero, latest]

theorem lastReceivedTick_eq (client : ClientId) (b : InputBuffer) :
    b.lastReceivedTick client = latest newer 0 (b.ticks client) := by
  have hscan : ∀ buf : ℕ → Entry, (List.range MAX_TICKS).foldl (fun max i =>
      if (buf i).tick ≠ 0 ∧ newer (buf i).tick max then (buf i).tick else max) 0 =
      latest newer 0 (((List.range MAX_TICKS).map fun i => (buf i).tick).filter (· ≠ 0)) := by
    intro buf
    rw [← foldl_newer, List.foldl_map]
  unfold lastReceivedTick ticks ring
  rcases lookup Prod.fst client b.buffers with _ | ⟨_, buf⟩
  · exact (latest_of_forall (by simp)).symm
  · exact hscan buf

variable {client : ClientId} {calls : List Call}

/-- But for 0, the ticks in the slots are those that are to be there. -/
theorem ring_tick_iff {tick : UInt16} (hne : tick ≠ 0) (i : ℕ) :
    ((run calls).ring client i).tick = tick ↔ slotOf tick = i ∧ Holds client tick calls := by
  have hmatch := (represents_run client calls).2 i
  constructor
  · intro htick
    rcases hheld : content (act client i) calls with _ | e
    · rw [hheld] at hmatch
      exact absurd (htick.symm.trans hmatch) hne
    · rw [hheld] at hmatch
      obtain ⟨hslot, hholds, -⟩ := content_act hheld
      rw [show (run calls).ring client i = e from hmatch] at htick
      subst htick
      exact ⟨hslot, hholds⟩
  · rintro ⟨rfl, hholds⟩
    obtain ⟨e, rfl, hheld⟩ := holds_iff.mp hholds
    rw [hheld] at hmatch
    exact congrArg Entry.tick hmatch

theorem mem_ticks {tick : UInt16} :
    tick ∈ (run calls).ticks client ↔ tick ≠ 0 ∧ Holds client tick calls := by
  unfold ticks
  simp only [List.mem_filter, List.mem_map, List.mem_range, decide_eq_true_eq]
  constructor
  · rintro ⟨⟨i, -, htick⟩, hne⟩
    exact ⟨hne, ((ring_tick_iff hne i).mp htick).2⟩
  · rintro ⟨hne, hholds⟩
    have hslot : slotOf tick < MAX_TICKS := Nat.mod_lt _ (by decide)
    exact ⟨⟨slotOf tick, hslot, (ring_tick_iff hne _).mpr ⟨rfl, hholds⟩⟩, hne⟩

/-- The ticks come in the order of their slots. -/
theorem pairwise_ticks : ((run calls).ticks client).Pairwise fun a b => slotOf a < slotOf b := by
  unfold ticks
  rw [List.pairwise_filter, List.pairwise_map]
  refine List.Pairwise.imp ?_ List.pairwise_lt_range
  intro i j hij hi hj
  have hslot : ∀ k, ((run calls).ring client k).tick ≠ 0 →
      slotOf ((run calls).ring client k).tick = k := fun k hk => ((ring_tick_iff hk k).mp rfl).1
  rwa [hslot i (by simpa using hi), hslot j (by simpa using hj)]

/-- Of the stored ticks, the one in an earlier slot comes earlier. -/
theorem exists_before_iff {n : UInt16} (hn : n ∈ (run calls).ticks client) (p : UInt16 → Prop) :
    (∃ front back, (run calls).ticks client = front ++ n :: back ∧ ∃ t ∈ front, p t) ↔
      ∃ t ∈ (run calls).ticks client, p t ∧ slotOf t < slotOf n := by
  have hpairwise : ((run calls).ticks client).Pairwise fun a b => slotOf a < slotOf b := pairwise_ticks
  constructor
  · rintro ⟨front, back, hticks, t, ht, hp⟩
    rw [hticks] at hpairwise ⊢
    refine ⟨t, List.mem_append_left _ ht, hp, ?_⟩
    exact (List.pairwise_append.mp hpairwise).2.2 t ht n List.mem_cons_self
  · rintro ⟨t, ht, hp, hslot⟩
    obtain ⟨front, back, hticks⟩ := List.append_of_mem hn
    refine ⟨front, back, hticks, t, ?_, hp⟩
    rw [hticks] at hpairwise ht
    rcases List.mem_append.mp ht with hfront | hrest
    · exact hfront
    · have hle : slotOf n ≤ slotOf t := by
        rcases List.mem_cons.mp hrest with rfl | hback
        · exact Nat.le_refl _
        · have hsorted := (List.pairwise_append.mp hpairwise).2.1
          exact ((List.pairwise_cons.mp hsorted).1 t hback).le
      omega

theorem Holds.mem_calls {tick : UInt16} (h : Holds client tick calls) :
    ∃ data, Call.store client tick data ∈ calls := by
  obtain ⟨before, data, after, rfl, -⟩ := h
  exact ⟨data, by simp⟩

/-- After any calls, if the ticks that are to be there for a client lie in a window of fewer than 2¹⁵
ticks, the last received tick is the newest of them, if and only if that is below 2¹⁵, or there is one
between 0 and 2¹⁵ in a slot before its own. -/
theorem lastReceivedTick_eq_iff (calls : List Call) (client : ClientId) (base n : UInt16)
    (hwindow : ∀ t, Holds client t calls → Near base t) (hn : Holds client n calls)
    (hnewest : ∀ t, Holds client t calls → (t - base).toNat ≤ (n - base).toNat) :
    (run calls).lastReceivedTick client = n ↔ n.toNat < 2 ^ 15 ∨
      ∃ t, Holds client t calls ∧ 0 < t.toNat ∧ t.toNat < 2 ^ 15 ∧ slotOf t < slotOf n := by
  have hnear : ∀ t ∈ (run calls).ticks client, Near base t :=
    fun t ht => hwindow t (mem_ticks.mp ht).2
  rw [lastReceivedTick_eq]
  by_cases hzero : n = 0
  · subst hzero
    -- no other tick is newer
    refine iff_of_true (latest_of_forall fun t ht => ?_) (.inl (by decide))
    obtain ⟨-, hholds⟩ := mem_ticks.mp ht
    rw [← Bool.not_eq_true, (byKey_near base).newer_iff t 0 (hnear t ht) (hwindow 0 hn)]
    exact not_lt.mpr (hnewest t hholds)
  · have hmem : n ∈ (run calls).ticks client := mem_ticks.mpr ⟨hzero, hn⟩
    have hgreatest : Newest base ((run calls).ticks client) n :=
      ⟨hmem, fun t ht => hnewest t (mem_ticks.mp ht).2⟩
    rw [latest_zero_eq_iff hnear hgreatest, Reached, exists_before_iff hmem]
    refine or_congr_right ?_
    constructor
    · rintro ⟨t, ht, hnewer, hslot⟩
      obtain ⟨hne, hlow⟩ := (newer_zero_iff t).mp hnewer
      refine ⟨t, (mem_ticks.mp ht).2, ?_, hlow, hslot⟩
      exact Nat.pos_of_ne_zero fun h0 => hne (UInt16.toNat.inj h0)
    · rintro ⟨t, hholds, hpos, hlow, hslot⟩
      have hne : t ≠ 0 := by
        rintro rfl
        exact absurd hpos (by decide)
      exact ⟨t, mem_ticks.mpr ⟨hne, hholds⟩, (newer_zero_iff t).mpr ⟨hne, hlow⟩, hslot⟩

/-- The newest tick is above 32767, and found by way of one below. -/
theorem lastReceivedTick_late : (run [.store 1 30000 [], .store 1 40000 []]).lastReceivedTick 1 = 40000 := by
  have hstored : ∀ t, Holds 1 t [.store 1 30000 [], .store 1 40000 []] → t = 30000 ∨ t = 40000 := by
    intro t ht
    obtain ⟨data, hdata⟩ := ht.mem_calls
    simp at hdata
    tauto
  have hfirst : Holds 1 30000 [.store 1 30000 [], .store 1 40000 []] :=
    ⟨[], [], [.store 1 40000 []], rfl, by simp [Removes, slotOf, MAX_TICKS]⟩
  have hsecond : Holds 1 40000 [.store 1 30000 [], .store 1 40000 []] :=
    ⟨[.store 1 30000 []], [], [], rfl, by simp⟩
  refine (lastReceivedTick_eq_iff _ 1 30000 40000 (fun t ht => ?_) hsecond fun t ht => ?_).mpr
    (.inr ⟨30000, hfirst, by decide, by decide, by decide⟩)
  · rcases hstored t ht with rfl | rfl <;> decide
  · rcases hstored t ht with rfl | rfl <;> decide

/-- The only tick is above 32767, and not found. -/
theorem lastReceivedTick_lost : (run [.store 1 40000 []]).lastReceivedTick 1 = 0 ∧
    Holds 1 40000 [.store 1 40000 []] ∧ ∀ t, Holds 1 t [.store 1 40000 []] → t = 40000 := by
  refine ⟨by decide +kernel, ⟨[], [], [], rfl, by simp⟩, fun t ht => ?_⟩
  obtain ⟨data, hdata⟩ := ht.mem_calls
  simp at hdata
  exact hdata.1

end CampelloNet.InputBuffer
