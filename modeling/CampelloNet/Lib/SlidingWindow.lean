import Mathlib.Data.Set.Insert
import Mathlib.Order.Lattice

/-!
# Sliding windows of numbers

A window remembers the highest number that was marked and, in a bit vector, which of the `w` numbers
up to it were. A number may be marked once; marking a higher one moves the window up. What the window
holds is exactly what was marked and is not yet below it (`Tracks`), and a number that was marked or
has fallen below can never be marked again from there on (`Spent`).
-/

namespace CampelloNet.Lib

structure SlidingWindow (w : ℕ) where
  highest : ℕ := 0
  /-- bit `i` is set: `highest - i` was marked -/
  seen : BitVec w := 0

namespace SlidingWindow

variable {w : ℕ}

/-- Move the window up to a number above it. -/
def raise (win : SlidingWindow w) (n : ℕ) : SlidingWindow w :=
  if win.highest < n then { highest := n, seen := win.seen <<< (n - win.highest) } else win

/-- Mark a number, unless it is marked: the window after it, and whether it was not. -/
def mark (win : SlidingWindow w) (n : ℕ) : SlidingWindow w × Bool :=
  let win := win.raise n
  let i := win.highest - n
  if win.seen.getLsbD i then (win, false)
  else ({ win with seen := win.seen ||| BitVec.twoPow w i }, true)

/-- The number is in the window and marked. -/
def Holds (win : SlidingWindow w) (n : ℕ) : Prop :=
  n ≤ win.highest ∧ win.seen.getLsbD (win.highest - n) = true

/-- The number is marked or below the window. -/
def Spent (win : SlidingWindow w) (n : ℕ) : Prop := win.Holds n ∨ n + w ≤ win.highest

/-- The window is what the marked numbers leave. -/
structure Tracks (win : SlidingWindow w) (marked : Set ℕ) : Prop where
  below : ∀ n ∈ marked, n ≤ win.highest
  holds : ∀ n, win.Holds n ↔ n ∈ marked ∧ win.highest < n + w

theorem tracks_empty : ({} : SlidingWindow w).Tracks ∅ := by
  refine ⟨by simp, fun n => ?_⟩
  simp [Holds]

section
variable {win : SlidingWindow w} {n m : ℕ}

theorem Holds.lt (h : win.Holds n) : win.highest < n + w := by
  have := BitVec.lt_of_getLsbD h.2
  have := h.1
  omega

@[simp] theorem raise_highest : (win.raise n).highest = max win.highest n := by
  unfold raise
  split_ifs <;> simp <;> omega

theorem holds_raise : (win.raise n).Holds m ↔ win.Holds m ∧ max win.highest n < m + w := by
  constructor
  · intro h
    have hlt := h.lt
    rw [raise_highest] at hlt
    refine ⟨?_, hlt⟩
    obtain ⟨hle, hbit⟩ := h
    unfold raise at hle hbit
    split_ifs at hle hbit with hup
    · rw [BitVec.getLsbD_shiftLeft] at hbit
      simp only [Bool.and_eq_true, Bool.not_eq_true', decide_eq_false_iff_not,
        decide_eq_true_eq] at hbit
      have hi : n - m - (n - win.highest) = win.highest - m := by omega
      exact ⟨by omega, hi ▸ hbit.2⟩
    · exact ⟨hle, hbit⟩
  · rintro ⟨⟨hle, hbit⟩, hlt⟩
    refine ⟨by simp; omega, ?_⟩
    unfold raise
    split_ifs with hup
    · have hi : n - m - (n - win.highest) = win.highest - m := by omega
      rw [BitVec.getLsbD_shiftLeft]
      simp only [hi, hbit, Bool.and_true, Bool.and_eq_true, Bool.not_eq_true',
        decide_eq_false_iff_not, decide_eq_true_eq]
      omega
    · exact hbit

@[simp] theorem mark_highest : (win.mark n).1.highest = max win.highest n := by
  unfold mark
  dsimp only
  split_ifs <;> exact raise_highest

/-- A number can be marked if and only if the window does not hold it. -/
theorem mark_accepts : (win.mark n).2 = true ↔ ¬win.Holds n := by
  have hraise : (win.raise n).seen.getLsbD ((win.raise n).highest - n) = true ↔
      (win.raise n).Holds n := by
    unfold Holds
    simp
  have hold : (win.raise n).Holds n ↔ win.Holds n := by
    rw [holds_raise]
    refine ⟨And.left, fun h => ⟨h, ?_⟩⟩
    have := h.lt
    have := h.1
    omega
  rw [← hold, ← hraise]
  unfold mark
  dsimp only
  split_ifs with h
  · exact iff_of_false (by simp) (not_not.mpr h)
  · exact iff_of_true rfl h

/-- What the window holds after a mark. -/
theorem holds_mark : (win.mark n).1.Holds m ↔
    (m = n ∨ win.Holds m) ∧ max win.highest n < m + w := by
  have hself : win.Holds m → m = n ∨ win.Holds m := Or.inr
  by_cases hseen : (win.raise n).seen.getLsbD ((win.raise n).highest - n) = true
  · have hn : win.Holds n := by
      have : (win.raise n).Holds n := ⟨by simp, hseen⟩
      exact (holds_raise.mp this).1
    have hmark : (win.mark n).1 = win.raise n := by
      unfold mark
      dsimp only
      rw [if_pos hseen]
    rw [hmark, holds_raise]
    constructor
    · exact fun h => ⟨hself h.1, h.2⟩
    · rintro ⟨rfl | h, hlt⟩
      · exact ⟨hn, hlt⟩
      · exact ⟨h, hlt⟩
  · have hmark : (win.mark n).1 = { win.raise n with
        seen := (win.raise n).seen ||| BitVec.twoPow w ((win.raise n).highest - n) } := by
      unfold mark
      dsimp only
      rw [if_neg hseen]
    constructor
    · intro h
      have hlt := h.lt
      rw [mark_highest] at hlt
      refine ⟨?_, hlt⟩
      rw [hmark] at h
      obtain ⟨hle, hbit⟩ := h
      dsimp only at hle hbit
      rw [BitVec.getLsbD_or, BitVec.getLsbD_twoPow, Bool.or_eq_true] at hbit
      rcases hbit with hbit | hbit
      · exact .inr (holds_raise.mp ⟨hle, hbit⟩).1
      · simp at hbit hle
        left
        omega
    · rintro ⟨h, hlt⟩
      rw [hmark]
      unfold Holds
      dsimp only
      rw [BitVec.getLsbD_or, BitVec.getLsbD_twoPow, raise_highest]
      rcases h with rfl | h
      · simp
        omega
      · have := (holds_raise (n := n)).mpr ⟨h, hlt⟩
        unfold Holds at this
        rw [raise_highest] at this
        simp [this.1, this.2]

/-- Inside the window a number is accepted if and only if it was not marked before. -/
theorem Tracks.mark_accepts {marked : Set ℕ} (h : win.Tracks marked) (hin : win.highest < n + w) :
    (win.mark n).2 = true ↔ n ∉ marked := by
  rw [SlidingWindow.mark_accepts, h.holds, and_iff_left hin]

theorem Tracks.mark {marked : Set ℕ} (h : win.Tracks marked) :
    (win.mark n).1.Tracks (insert n marked) := by
  constructor
  · intro m hm
    rw [mark_highest]
    rcases hm with rfl | hm
    · exact le_max_right _ _
    · exact le_trans (h.below m hm) (le_max_left _ _)
  · intro m
    rw [holds_mark, mark_highest, h.holds, Set.mem_insert_iff]
    constructor
    · rintro ⟨rfl | hm, hlt⟩
      · exact ⟨.inl rfl, hlt⟩
      · exact ⟨.inr hm.1, hlt⟩
    · rintro ⟨rfl | hm, hlt⟩
      · exact ⟨.inl rfl, hlt⟩
      · exact ⟨.inr ⟨hm, by omega⟩, hlt⟩

/-- A marked number is spent. -/
theorem spent_mark_self : (win.mark n).1.Spent n := by
  by_cases h : max win.highest n < n + w
  · exact .inl (holds_mark.mpr ⟨.inl rfl, h⟩)
  · exact .inr (by rw [mark_highest]; omega)

theorem Spent.mark (h : win.Spent m) : (win.mark n).1.Spent m := by
  by_cases hlt : max win.highest n < m + w
  · rcases h with h | h
    · exact .inl (holds_mark.mpr ⟨.inr h, hlt⟩)
    · omega
  · exact .inr (by rw [mark_highest]; omega)

end

end SlidingWindow

end CampelloNet.Lib
