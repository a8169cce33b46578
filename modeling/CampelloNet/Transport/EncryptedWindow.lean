import CampelloNet.Lib.SlidingWindow
import CampelloNet.Transport.Encrypted

/-!
# The replay window

`highest_inbound` and `seen_bitmap` are a sliding window of 64 counters. The replay check refuses what
is too old and marks everything else in the window (`window_checkReplay`), so that no counter passes
the check twice, whatever was received in between (`spent_checkReplay`, `checkReplay_of_spent`). Which
counters pass follows from those that came before alone (`Keeps.passes_iff`).
-/

namespace CampelloNet.Transport.Encrypted

open Lib

/-! ### Bits of the bitmap -/

theorem toBitVec_bit {d : UInt64} (hd : d < 64) :
    ((1 : UInt64) <<< d).toBitVec = BitVec.twoPow 64 d.toNat := by
  have hlt : d.toNat < 64 := UInt64.lt_iff_toNat_lt.mp hd
  apply BitVec.eq_of_toNat_eq
  rw [BitVec.toNat_twoPow, UInt64.toNat_toBitVec, UInt64.toNat_shiftLeft, Nat.mod_eq_of_lt hlt,
    Nat.shiftLeft_eq]
  simp

theorem and_bit {x d : UInt64} (hd : d < 64) :
    x &&& ((1 : UInt64) <<< d) ≠ 0 ↔ x.toBitVec.getLsbD d.toNat = true := by
  have hlt : d.toNat < 64 := UInt64.lt_iff_toNat_lt.mp hd
  rw [ne_eq, ← UInt64.toBitVec_inj, UInt64.toBitVec_and, toBitVec_bit hd, BitVec.and_twoPow]
  split_ifs with h
  · refine iff_of_true (fun hzero => ?_) h
    have := congrArg (BitVec.getLsbD · d.toNat) hzero
    simp [hlt] at this
  · exact iff_of_false (fun hne => hne rfl) h

/-! ### The window of some counters -/

def window (st : CounterState) : SlidingWindow 64 :=
  { highest := st.highestInbound.toNat, seen := st.seenBitmap.toBitVec }

/-- The counters when the window has been moved up to a packet. -/
def raised (st : CounterState) (counter : UInt64) : CounterState :=
  if counter > st.highestInbound then
    { st with
      seenBitmap := if counter - st.highestInbound ≥ 64 then 0
        else st.seenBitmap <<< (counter - st.highestInbound)
      highestInbound := counter }
  else st

theorem window_raised (st : CounterState) (counter : UInt64) :
    window (raised st counter) = (window st).raise counter.toNat := by
  unfold raised SlidingWindow.raise
  by_cases hnew : counter > st.highestInbound
  · have hlt : st.highestInbound.toNat < counter.toNat := UInt64.lt_iff_toNat_lt.mp hnew
    have hsub : (counter - st.highestInbound).toNat = counter.toNat - st.highestInbound.toNat :=
      UInt64.toNat_sub_of_le _ _ (UInt64.le_iff_toNat_le.mpr hlt.le)
    rw [if_pos hnew, if_pos (show (window st).highest < counter.toNat from hlt)]
    unfold window
    congr 1
    dsimp only
    split_ifs with hfar
    · have hge : 64 ≤ counter.toNat - st.highestInbound.toNat :=
        hsub ▸ UInt64.le_iff_toNat_le.mp hfar
      exact (BitVec.shiftLeft_eq_zero hge).symm
    · have hnear : counter.toNat - st.highestInbound.toNat < 64 :=
        hsub ▸ UInt64.lt_iff_toNat_lt.mp (UInt64.not_le.mp hfar)
      rw [UInt64.toBitVec_shiftLeft, BitVec.shiftLeft_eq', BitVec.toNat_umod, UInt64.toNat_toBitVec,
        hsub, show BitVec.toNat (64 : BitVec 64) = 64 from rfl, Nat.mod_eq_of_lt hnear]
  · have hle : ¬(window st).highest < counter.toNat := fun hlt =>
      hnew (UInt64.lt_iff_toNat_lt.mpr hlt)
    rw [if_neg hnew, if_neg hle]

/-! ### The replay check -/

section
variable {st : CounterState} {counter : UInt64}

/-- A counter that is neither too old nor the newest is inside the window. -/
theorem sub_lt_window (hold : ¬counter + REPLAY_WINDOW ≤ st.highestInbound)
    (hnew : ¬counter > st.highestInbound) : st.highestInbound - counter < 64 := by
  have hle : counter ≤ st.highestInbound := UInt64.not_lt.mp hnew
  rw [UInt64.le_iff_toNat_le] at hold hle
  rw [UInt64.lt_iff_toNat_lt, UInt64.toNat_sub_of_le _ _ (UInt64.not_lt.mp hnew)]
  rw [UInt64.toNat_add] at hold
  have hlt := st.highestInbound.toNat_lt
  change ¬(counter.toNat + 64) % 2 ^ 64 ≤ st.highestInbound.toNat at hold
  change st.highestInbound.toNat - counter.toNat < 64
  omega

theorem raised_near (hopen : ¬counter + REPLAY_WINDOW ≤ st.highestInbound) :
    counter ≤ (raised st counter).highestInbound ∧
      (raised st counter).highestInbound - counter < 64 := by
  unfold raised
  by_cases hnew : counter > st.highestInbound
  · rw [if_pos hnew, UInt64.sub_self]
    exact ⟨UInt64.le_refl _, by decide⟩
  · rw [if_neg hnew]
    exact ⟨UInt64.not_lt.mp hnew, sub_lt_window hopen hnew⟩

theorem checkReplay_of_old (hold : counter + REPLAY_WINDOW ≤ st.highestInbound) :
    checkReplay st counter = (st, false) := by
  unfold checkReplay
  rw [if_pos hold]

theorem checkReplay_of_open (hopen : ¬counter + REPLAY_WINDOW ≤ st.highestInbound) :
    checkReplay st counter =
      if (raised st counter).seenBitmap &&&
        ((1 : UInt64) <<< ((raised st counter).highestInbound - counter)) ≠ 0 then
        (raised st counter, false)
      else ({ raised st counter with seenBitmap := (raised st counter).seenBitmap |||
        ((1 : UInt64) <<< ((raised st counter).highestInbound - counter)) }, true) := by
  unfold checkReplay
  rw [if_neg hopen]
  exact if_pos (raised_near hopen).2

/-- What is not too old is marked. -/
theorem window_checkReplay (hopen : ¬counter + REPLAY_WINDOW ≤ st.highestInbound) :
    window (checkReplay st counter).1 = ((window st).mark counter.toNat).1 ∧
      (checkReplay st counter).2 = ((window st).mark counter.toNat).2 := by
  obtain ⟨hle, hnear⟩ := raised_near hopen
  have hdiff : (window (raised st counter)).highest - counter.toNat =
      ((raised st counter).highestInbound - counter).toNat :=
    (UInt64.toNat_sub_of_le _ _ hle).symm
  rw [checkReplay_of_open hopen]
  unfold SlidingWindow.mark
  dsimp only
  rw [← window_raised, hdiff]
  generalize raised st counter = up at hle hnear ⊢
  by_cases hseen : (window up).seen.getLsbD (up.highestInbound - counter).toNat = true
  · rw [if_pos hseen, if_pos ((and_bit hnear).mpr hseen)]
    exact ⟨rfl, rfl⟩
  · rw [if_neg hseen, if_neg fun h => hseen ((and_bit hnear).mp h)]
    refine ⟨?_, rfl⟩
    unfold window
    dsimp only
    rw [UInt64.toBitVec_or, toBitVec_bit hnear]

/-- The check looks at the window only. -/
theorem checkReplay_congr (counter : UInt64) {st' : CounterState} (h : window st = window st') :
    (checkReplay st counter).2 = (checkReplay st' counter).2 ∧
      window (checkReplay st counter).1 = window (checkReplay st' counter).1 := by
  have hhigh : st.highestInbound = st'.highestInbound :=
    UInt64.toNat_inj.mp (congrArg SlidingWindow.highest h)
  by_cases hopen : counter + REPLAY_WINDOW ≤ st.highestInbound
  · rw [checkReplay_of_old hopen, checkReplay_of_old (hhigh ▸ hopen)]
    exact ⟨rfl, h⟩
  · obtain ⟨hwin, hfresh⟩ := window_checkReplay hopen
    obtain ⟨hwin', hfresh'⟩ := window_checkReplay (hhigh ▸ hopen)
    rw [hwin, hfresh, hwin', hfresh', h]
    exact ⟨rfl, rfl⟩

/-! ### What a window lets pass -/

/-- After the counters that were `taken`, this one is taken no more: it is one of them, or the end of
its window is not above one of them, where the end may wrap. -/
def Closed (taken : List UInt64) (counter : UInt64) : Prop :=
  counter ∈ taken ∨ ∃ c ∈ 0 :: taken, counter + REPLAY_WINDOW ≤ c

instance (taken : List UInt64) (counter : UInt64) : Decidable (Closed taken counter) :=
  inferInstanceAs (Decidable (_ ∨ ∃ c ∈ 0 :: taken, _))

/-- What is taken of some counters that come one after the other. -/
def takenOf (counters : List UInt64) : List UInt64 :=
  counters.foldl (fun taken c => if Closed taken c then taken else taken ++ [c]) []

theorem takenOf_snoc (counters : List UInt64) (c : UInt64) : takenOf (counters ++ [c]) =
    if Closed (takenOf counters) c then takenOf counters else takenOf counters ++ [c] := by
  unfold takenOf
  rw [List.foldl_append]
  rfl

/-- The state is what the counters that were taken leave. -/
structure Keeps (st : CounterState) (taken : List UInt64) : Prop where
  highest_mem : st.highestInbound ∈ 0 :: taken
  tracks : (window st).Tracks {n | ∃ c ∈ taken, c.toNat = n}

theorem keeps_start : Keeps {} [] := by
  refine ⟨List.mem_cons_self, ?_⟩
  have hnone : {n : ℕ | ∃ c ∈ ([] : List UInt64), c.toNat = n} = ∅ := by simp
  rw [hnone]
  exact SlidingWindow.tracks_empty

theorem Keeps.congr {taken : List UInt64} {st' : CounterState} (h : Keeps st taken)
    (hwindow : window st = window st') : Keeps st' taken := by
  have hhigh : st.highestInbound = st'.highestInbound :=
    UInt64.toNat_inj.mp (congrArg SlidingWindow.highest hwindow)
  exact ⟨hhigh ▸ h.highest_mem, hwindow ▸ h.tracks⟩

theorem Keeps.le {taken : List UInt64} (h : Keeps st taken) {c : UInt64} (hc : c ∈ 0 :: taken) :
    c ≤ st.highestInbound := by
  rcases List.mem_cons.mp hc with rfl | hc
  · exact UInt64.zero_le
  · exact UInt64.le_iff_toNat_le.mpr (h.tracks.below _ ⟨c, hc, rfl⟩)

/-- The end of the window is above one of the counters if it is above the highest. -/
theorem Keeps.old_iff {taken : List UInt64} (h : Keeps st taken) :
    counter + REPLAY_WINDOW ≤ st.highestInbound ↔ ∃ c ∈ 0 :: taken, counter + REPLAY_WINDOW ≤ c :=
  ⟨fun hold => ⟨_, h.highest_mem, hold⟩, fun ⟨_, hc, hle⟩ => UInt64.le_trans hle (h.le hc)⟩

theorem toNat_mem_iff {taken : List UInt64} :
    counter.toNat ∈ {n | ∃ c ∈ taken, c.toNat = n} ↔ counter ∈ taken :=
  ⟨fun ⟨_, hc, heq⟩ => UInt64.toNat_inj.mp heq ▸ hc, fun hc => ⟨counter, hc, rfl⟩⟩

/-- The check lets a counter pass if and only if it is not closed. -/
theorem Keeps.passes_iff {taken : List UInt64} (h : Keeps st taken) :
    (checkReplay st counter).2 = true ↔ ¬Closed taken counter := by
  by_cases hold : counter + REPLAY_WINDOW ≤ st.highestInbound
  · have hclosed : Closed taken counter := .inr (h.old_iff.mp hold)
    rw [checkReplay_of_old hold]
    exact iff_of_false Bool.false_ne_true (not_not.mpr hclosed)
  · -- the end of the window of a counter that is not too old wraps above every counter only
    have hin : (window st).highest < counter.toNat + 64 := by
      have hlt := st.highestInbound.toNat_lt
      rw [UInt64.le_iff_toNat_le, UInt64.toNat_add] at hold
      change ¬(counter.toNat + 64) % 2 ^ 64 ≤ st.highestInbound.toNat at hold
      change st.highestInbound.toNat < counter.toNat + 64
      omega
    have hclosed : Closed taken counter ↔ counter ∈ taken :=
      or_iff_left (mt h.old_iff.mpr hold)
    rw [(window_checkReplay hold).2, h.tracks.mark_accepts hin, toNat_mem_iff, hclosed]

/-- A counter that passes is taken. -/
theorem Keeps.next {taken : List UInt64} (h : Keeps st taken) :
    Keeps (checkReplay st counter).1 (if Closed taken counter then taken else taken ++ [counter]) := by
  by_cases hold : counter + REPLAY_WINDOW ≤ st.highestInbound
  · have hclosed : Closed taken counter := .inr (h.old_iff.mp hold)
    rw [checkReplay_of_old hold, if_pos hclosed]
    exact h
  have hclosed : Closed taken counter ↔ counter ∈ taken :=
    or_iff_left (mt h.old_iff.mpr hold)
  have hwindow := (window_checkReplay hold).1
  have hhigh : (checkReplay st counter).1.highestInbound.toNat =
      max st.highestInbound.toNat counter.toNat :=
    (congrArg SlidingWindow.highest hwindow).trans SlidingWindow.mark_highest
  have hmark := h.tracks.mark (n := counter.toNat)
  rw [← hwindow] at hmark
  by_cases hc : counter ∈ taken
  · -- it was taken before, and changes nothing
    have hle := UInt64.le_iff_toNat_le.mp (h.le (List.mem_cons_of_mem _ hc))
    rw [max_eq_left hle] at hhigh
    rw [Set.insert_eq_of_mem (toNat_mem_iff.mpr hc)] at hmark
    rw [if_pos (hclosed.mpr hc)]
    refine ⟨?_, hmark⟩
    rw [UInt64.toNat_inj.mp hhigh]
    exact h.highest_mem
  · rw [if_neg (mt hclosed.mp hc)]
    constructor
    · rw [← List.cons_append]
      rcases le_total counter.toNat st.highestInbound.toNat with hle | hle
      · rw [max_eq_left hle] at hhigh
        rw [UInt64.toNat_inj.mp hhigh]
        exact List.mem_append_left _ h.highest_mem
      · rw [max_eq_right hle] at hhigh
        rw [UInt64.toNat_inj.mp hhigh]
        exact List.mem_append_right _ List.mem_cons_self
    · have hset : {n : ℕ | ∃ c ∈ taken ++ [counter], c.toNat = n} =
          insert counter.toNat {n | ∃ c ∈ taken, c.toNat = n} := by
        ext n
        simp only [List.mem_append, List.mem_singleton, or_and_right, exists_or, exists_eq_left,
          Set.mem_ofPred_eq, Set.mem_insert_iff]
        rw [or_comm, eq_comm]
      rw [hset]
      exact hmark

/-! ### No counter passes twice -/

theorem spent_of_fresh (h : (checkReplay st counter).2 = true) :
    (window (checkReplay st counter).1).Spent counter.toNat := by
  by_cases hopen : counter + REPLAY_WINDOW ≤ st.highestInbound
  · rw [checkReplay_of_old hopen] at h
    cases h
  · rw [(window_checkReplay hopen).1]
    exact SlidingWindow.spent_mark_self

/-- Nothing that is received makes a spent counter usable. -/
theorem spent_checkReplay {n : ℕ} (h : (window st).Spent n) :
    (window (checkReplay st counter).1).Spent n := by
  by_cases hopen : counter + REPLAY_WINDOW ≤ st.highestInbound
  · rwa [checkReplay_of_old hopen]
  · rw [(window_checkReplay hopen).1]
    exact h.mark

theorem checkReplay_of_spent (h : (window st).Spent counter.toNat) :
    (checkReplay st counter).2 = false := by
  by_cases hopen : counter + REPLAY_WINDOW ≤ st.highestInbound
  · rw [checkReplay_of_old hopen]
  · rw [(window_checkReplay hopen).2, ← Bool.not_eq_true, SlidingWindow.mark_accepts, not_not]
    rcases h with h | h
    · exact h
    · -- below the window the sum of the check does not wrap
      have hlt := st.highestInbound.toNat_lt
      rw [UInt64.le_iff_toNat_le, UInt64.toNat_add] at hopen
      change counter.toNat + 64 ≤ st.highestInbound.toNat at h
      change ¬(counter.toNat + 64) % 2 ^ 64 ≤ st.highestInbound.toNat at hopen
      omega

/-- The counters after a packet that went on to be opened are not the ones before it, and refuse its
counter. -/
theorem checkReplay_fresh (h : (checkReplay st counter).2 = true) :
    (checkReplay st counter).1 ≠ st ∧
      (checkReplay (checkReplay st counter).1 counter).2 = false := by
  have hagain := checkReplay_of_spent (spent_of_fresh h)
  refine ⟨fun hsame => ?_, hagain⟩
  rw [hsame, h] at hagain
  cases hagain

end

end CampelloNet.Transport.Encrypted
