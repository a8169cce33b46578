import Mathlib.Algebra.Order.Archimedean.Basic
import Mathlib.Algebra.Order.Floor.Semiring
import Mathlib.Tactic.FieldSimp
import Mathlib.Tactic.Linarith

/-!
# Whole intervals

An amount is so many whole intervals and a rest. To take the intervals of the rest and what is added to
it is to take those of the sum.
-/

namespace CampelloNet.Lib

variable {K : Type*} [Field K] [LinearOrder K] [IsStrictOrderedRing K]

section
variable [FloorSemiring K]

/-- The whole intervals in an amount; there are none in a negative one. -/
def wholes (interval x : K) : ℕ := ⌊x / interval⌋₊

/-- What is left of an amount when its whole intervals are taken out. -/
def rest (interval x : K) : K := x - wholes interval x * interval

variable {interval x y : K}

theorem wholes_of_lt (hpos : 0 < interval) (h : x < interval) : wholes interval x = 0 := by
  apply Nat.floor_eq_zero.mpr
  rwa [div_lt_one hpos]

theorem rest_of_lt (hpos : 0 < interval) (h : x < interval) : rest interval x = x := by
  simp [rest, wholes_of_lt hpos h]

theorem rest_lt (hpos : 0 < interval) : rest interval x < interval := by
  have h := Nat.lt_floor_add_one (x / interval)
  rw [div_lt_iff₀ hpos] at h
  unfold rest wholes
  linarith

theorem rest_nonneg (hpos : 0 < interval) (hx : 0 ≤ x) : 0 ≤ rest interval x := by
  have h := Nat.floor_le (div_nonneg hx hpos.le)
  rw [le_div_iff₀ hpos] at h
  unfold rest wholes
  linarith

theorem one_le_wholes_iff (hpos : 0 < interval) : 1 ≤ wholes interval x ↔ interval ≤ x := by
  unfold wholes
  rw [Nat.one_le_floor_iff, one_le_div hpos]

theorem le_wholes_iff (hpos : 0 < interval) (hx : 0 ≤ x) {n : ℕ} :
    n ≤ wholes interval x ↔ n * interval ≤ x := by
  unfold wholes
  rw [Nat.le_floor_iff (div_nonneg hx hpos.le), le_div_iff₀ hpos]

theorem wholes_mono (hpos : 0 < interval) (h : x ≤ y) : wholes interval x ≤ wholes interval y := by
  apply Nat.floor_le_floor
  gcongr

theorem wholes_sub (hpos : 0 < interval) : wholes interval (x - interval) = wholes interval x - 1 := by
  unfold wholes
  rw [sub_div, div_self hpos.ne', Nat.floor_sub_one]

/-- The whole intervals of an amount to which so many are added. -/
theorem wholes_add_mul (hpos : 0 < interval) (hx : 0 ≤ x) (n : ℕ) :
    wholes interval (x + n * interval) = wholes interval x + n := by
  unfold wholes
  rw [add_div, mul_div_cancel_right₀ _ hpos.ne', Nat.floor_add_natCast (div_nonneg hx hpos.le)]

/-- Going on from the rest makes up what going on from the whole amount would have made. -/
theorem wholes_rest_add (hpos : 0 < interval) (hy : 0 ≤ y) :
    wholes interval (x + y) = wholes interval x + wholes interval (rest interval x + y) := by
  rcases lt_or_ge x 0 with hx | hx
  · have hlt : x < interval := hx.trans hpos
    rw [wholes_of_lt hpos hlt, rest_of_lt hpos hlt, Nat.zero_add]
  · have hrest := rest_nonneg hpos hx
    have hsum : x + y = rest interval x + y + wholes interval x * interval := by
      unfold rest
      ring
    rw [hsum, wholes_add_mul hpos (by linarith), Nat.add_comm]

theorem rest_rest_add (hpos : 0 < interval) (hy : 0 ≤ y) :
    rest interval (rest interval x + y) = rest interval (x + y) := by
  have h := wholes_rest_add (x := x) hpos hy
  unfold rest at h ⊢
  rw [h]
  push_cast
  ring

end

end CampelloNet.Lib
