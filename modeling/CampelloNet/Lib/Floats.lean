import Mathlib.Algebra.Order.Archimedean.Basic
import Mathlib.Algebra.Order.Field.Power
import Mathlib.Algebra.Order.Floor.Ring
import Mathlib.Data.Rat.Floor
import Mathlib.Tactic.Linarith
import Mathlib.Tactic.Positivity
import Mathlib.Tactic.Ring

/-!
# Binary floating point

The numbers of a binary format, and rounding to the nearest of them, ties to even: what an operation on
floats gives is its exact result, rounded. An `Arith` says how results of single and of double precision
are rounded, so that a computation can be read in the arithmetic of the machine or in exact arithmetic.
-/

namespace CampelloNet.Lib

/-! ### The nearest integer -/

/-- Of two nearest integers the even one. -/
def nearestEven (y : ℚ) : ℤ :=
  let n := ⌊y⌋
  if 2 * (y - n) < 1 ∨ 2 * (y - n) = 1 ∧ n % 2 = 0 then n else n + 1

@[simp] theorem nearestEven_intCast (n : ℤ) : nearestEven n = n := by simp [nearestEven]

theorem floor_le_nearestEven (y : ℚ) : ⌊y⌋ ≤ nearestEven y := by
  unfold nearestEven
  dsimp only
  split_ifs <;> omega

theorem nearestEven_le_floor (y : ℚ) : nearestEven y ≤ ⌊y⌋ + 1 := by
  unfold nearestEven
  dsimp only
  split_ifs <;> omega

theorem nearestEven_mono {y z : ℚ} (h : y ≤ z) : nearestEven y ≤ nearestEven z := by
  rcases (Int.floor_le_floor h).lt_or_eq with hlt | heq
  · exact (nearestEven_le_floor y).trans ((Int.add_one_le_of_lt hlt).trans (floor_le_nearestEven z))
  · unfold nearestEven
    dsimp only
    rw [heq]
    split_ifs with hy hz hz
    · exact le_rfl
    · omega
    · refine absurd ?_ hy
      rcases hz with hz | ⟨hz, heven⟩
      · exact .inl (by linarith)
      · rcases h.lt_or_eq with hlt | rfl
        · exact .inl (by linarith)
        · exact .inr ⟨hz, heven⟩
    · exact le_rfl

theorem nearestEven_neg (y : ℚ) : nearestEven (-y) = -nearestEven y := by
  have hlow := Int.floor_le y
  have hhigh := Int.lt_floor_add_one y
  rcases hlow.lt_or_eq with hlt | heq
  · have hfloor : ⌊-y⌋ = -⌊y⌋ - 1 := by
      rw [Int.floor_eq_iff]
      push_cast
      constructor <;> linarith
    unfold nearestEven
    dsimp only
    rw [hfloor]
    push_cast
    split_ifs with hneg hpos hpos
    · rcases hneg with hneg | ⟨hneg, hodd⟩ <;> rcases hpos with hpos | ⟨hpos, heven⟩
      · linarith
      · linarith
      · linarith
      · omega
    · omega
    · omega
    · -- neither is nearer, and neither is even
      have htie : 2 * (y - ⌊y⌋) = 1 := by
        have hup : 1 ≤ 2 * (y - ⌊y⌋) := not_lt.mp fun h => hpos (.inl h)
        have hdown : 1 ≤ 2 * (-y - (-⌊y⌋ - 1)) := not_lt.mp fun h => hneg (.inl h)
        linarith
      have hup : ¬⌊y⌋ % 2 = 0 := fun h => hpos (.inr ⟨htie, h⟩)
      have hdown : ¬(-⌊y⌋ - 1) % 2 = 0 := fun h => hneg (.inr ⟨by linarith, h⟩)
      omega
  · rw [← heq, ← Int.cast_neg, nearestEven_intCast, nearestEven_intCast]

theorem abs_nearestEven_le {y : ℚ} {n : ℤ} (h : |y| ≤ n) : |nearestEven y| ≤ n := by
  obtain ⟨hlow, hhigh⟩ := abs_le.mp h
  have hle := nearestEven_mono hhigh
  have hge := nearestEven_mono (y := ((-n : ℤ) : ℚ)) (by simpa using hlow)
  rw [nearestEven_intCast] at hle hge
  exact abs_le.mpr ⟨hge, hle⟩

/-! ### Loops -/

/-- The loop that goes on as long as it is due is over after at most so many turns. -/
def Over {α : Type*} (due : α → Prop) (step : α → α) (x : α) (n : ℕ) : Prop := ∃ k ≤ n, ¬due (step^[k] x)

section
variable {α : Type*} {due : α → Prop} {step : α → α} {x : α}

theorem over_of_not (h : ¬due x) (n : ℕ) : Over due step x n := ⟨0, Nat.zero_le n, h⟩

theorem over_zero : Over due step x 0 ↔ ¬due x := by
  refine ⟨?_, fun h => over_of_not h 0⟩
  rintro ⟨k, hk, hno⟩
  rwa [Nat.le_zero.mp hk] at hno

theorem over_succ (h : due x) {n : ℕ} : Over due step x (n + 1) ↔ Over due step (step x) n := by
  constructor
  · rintro ⟨k, hk, hno⟩
    cases k with
    | zero => exact absurd h hno
    | succ k => exact ⟨k, by omega, hno⟩
  · rintro ⟨k, hk, hno⟩
    exact ⟨k + 1, by omega, hno⟩

/-- A loop that stays due is never over. -/
theorem not_over_of_invariant {P : α → Prop} (hdue : ∀ x, P x → due x) (hstep : ∀ x, P x → P (step x))
    (hx : P x) : ¬∃ n, Over due step x n := by
  rintro ⟨n, k, -, hno⟩
  refine hno (hdue _ ?_)
  clear hno
  induction k generalizing x with
  | zero => exact hx
  | succ k ih => exact ih (hstep x hx)

end

/-! ### Formats -/

/-- A power of two. -/
def twoPow : ℤ → ℚ
  | .ofNat n => (2 ^ n : ℕ)
  | .negSucc n => mkRat 1 (2 ^ (n + 1))

theorem twoPow_eq (k : ℤ) : twoPow k = 2 ^ k := by
  cases k with
  | ofNat n => simp [twoPow]
  | negSucc n => simp [twoPow, Rat.mkRat_eq_div]

/-- The greatest exponent of a power of two that is no more than the magnitude. -/
def binade (x : ℚ) : ℤ :=
  let k : ℤ := x.num.natAbs.log2 - x.den.log2
  if twoPow k ≤ |x| then k else k - 1

theorem binade_spec {x : ℚ} (h : x ≠ 0) : 2 ^ binade x ≤ |x| ∧ |x| < 2 ^ (binade x + 1) := by
  have hnum : x.num.natAbs ≠ 0 := by simpa using h
  have hden : (0 : ℚ) < x.den := by exact_mod_cast x.den_pos
  have habs : |x| * x.den = x.num.natAbs := by
    have hx : |x| = |(x.num : ℚ)| / x.den := by
      conv_lhs => rw [← Rat.num_div_den x]
      rw [abs_div, abs_of_pos hden]
    rw [hx, div_mul_cancel₀ _ hden.ne', Nat.cast_natAbs, Int.cast_abs]
  have hnlow : ((2 : ℚ) ^ x.num.natAbs.log2) ≤ x.num.natAbs := by
    exact_mod_cast Nat.log2_self_le hnum
  have hnhigh : (x.num.natAbs : ℚ) < 2 ^ (x.num.natAbs.log2 + 1) := by
    exact_mod_cast Nat.lt_log2_self
  have hdlow : ((2 : ℚ) ^ x.den.log2) ≤ x.den := by
    exact_mod_cast Nat.log2_self_le x.den_ne_zero
  have hdhigh : (x.den : ℚ) < 2 ^ (x.den.log2 + 1) := by
    exact_mod_cast Nat.lt_log2_self
  have htwo : (2 : ℚ) ≠ 0 := two_ne_zero
  generalize hk : (x.num.natAbs.log2 : ℤ) - x.den.log2 = k
  have hhigh : |x| < 2 ^ (k + 1) := by
    have hlog : (2 : ℚ) ^ (x.num.natAbs.log2 + 1) = 2 ^ (k + 1) * 2 ^ x.den.log2 := by
      rw [← zpow_natCast, ← zpow_natCast, ← zpow_add₀ htwo]
      congr 1
      push_cast
      omega
    refine lt_of_mul_lt_mul_right ?_ hden.le
    calc |x| * x.den < 2 ^ (k + 1) * 2 ^ x.den.log2 := by rw [habs, ← hlog]; exact hnhigh
      _ ≤ 2 ^ (k + 1) * x.den := by gcongr
  have hlow : 2 ^ (k - 1) ≤ |x| := by
    have hlog : (2 : ℚ) ^ x.num.natAbs.log2 = 2 ^ (k - 1) * 2 ^ (x.den.log2 + 1) := by
      rw [← zpow_natCast, ← zpow_natCast, ← zpow_add₀ htwo]
      congr 1
      push_cast
      omega
    refine le_of_mul_le_mul_right ?_ hden
    calc 2 ^ (k - 1) * (x.den : ℚ) ≤ 2 ^ (k - 1) * 2 ^ (x.den.log2 + 1) := by gcongr
      _ ≤ |x| * x.den := by rw [habs, ← hlog]; exact hnlow
  unfold binade
  dsimp only
  rw [hk, twoPow_eq]
  split_ifs with hle
  · exact ⟨hle, hhigh⟩
  · exact ⟨hlow, by rw [sub_add_cancel]; exact not_le.mp hle⟩

/-- The numbers have so many digits and are multiples of `2 ^ minExp`; the finite ones are less than
`2 ^ maxExp`. -/
structure FloatFormat where
  digits : ℕ
  minExp : ℤ
  maxExp : ℤ
  digits_pos : 0 < digits

def binary32 : FloatFormat := ⟨24, -149, 128, by decide⟩

def binary64 : FloatFormat := ⟨53, -1074, 1024, by decide⟩

namespace FloatFormat

variable (f : FloatFormat)

/-- The exponent of the last digit. -/
def lastExp (x : ℚ) : ℤ := max f.minExp (binade x + 1 - f.digits)

def round (x : ℚ) : ℚ := nearestEven (x / twoPow (f.lastExp x)) * twoPow (f.lastExp x)

/-- It is a number of the format, if it is not too large to be finite. -/
def Holds (x : ℚ) : Prop := ∃ m k : ℤ, |m| < 2 ^ f.digits ∧ f.minExp ≤ k ∧ x = m * 2 ^ k

variable {f} {x y d : ℚ}

theorem round_eq (x : ℚ) : f.round x = nearestEven (x / 2 ^ f.lastExp x) * 2 ^ f.lastExp x := by
  unfold round
  rw [twoPow_eq]

@[simp] theorem round_zero : f.round 0 = 0 := by
  rw [round_eq, zero_div, ← Int.cast_zero, nearestEven_intCast, Int.cast_zero, zero_mul]

theorem round_neg (x : ℚ) : f.round (-x) = -f.round x := by
  have hlast : f.lastExp (-x) = f.lastExp x := by simp [lastExp, binade]
  rw [round_eq, round_eq, hlast, neg_div, nearestEven_neg, Int.cast_neg, neg_mul]

theorem abs_lt_digits (hx : x ≠ 0) : |x| < 2 ^ f.digits * 2 ^ f.lastExp x := by
  refine (binade_spec hx).2.trans_le ?_
  rw [← zpow_natCast, ← zpow_add₀ two_ne_zero]
  apply zpow_le_zpow_right₀ one_le_two
  unfold lastExp
  omega

theorem holds_zero : f.Holds 0 := ⟨0, f.minExp, by simp, le_rfl, by simp⟩

/-- As many digits as the format has, or the next power of two. -/
theorem holds_of_abs_le {m k : ℤ} (hm : |m| ≤ 2 ^ f.digits) (hk : f.minExp ≤ k) :
    f.Holds (m * 2 ^ k) := by
  rcases hm.lt_or_eq with hlt | heq
  · exact ⟨m, k, hlt, hk, rfl⟩
  · obtain ⟨n, hn⟩ : ∃ n, f.digits = n + 1 := ⟨f.digits - 1, by have := f.digits_pos; omega⟩
    rw [hn] at heq
    have hhalf : ∃ h : ℤ, |h| = 2 ^ n ∧ m = 2 * h := by
      rcases abs_choice m with habs | habs
      · exact ⟨2 ^ n, by simp, by rw [← habs, heq]; ring⟩
      · exact ⟨-2 ^ n, by simp, by rw [← neg_neg m, ← habs, heq]; ring⟩
    obtain ⟨h, habs, rfl⟩ := hhalf
    refine ⟨h, k + 1, ?_, by omega, ?_⟩
    · rw [habs, hn]
      exact pow_lt_pow_right₀ one_lt_two (by omega)
    · rw [zpow_add_one₀ two_ne_zero]
      push_cast
      ring

theorem holds_round (x : ℚ) : f.Holds (f.round x) := by
  rcases eq_or_ne x 0 with rfl | hx
  · rw [round_zero]
    exact holds_zero
  · rw [round_eq]
    refine holds_of_abs_le (abs_nearestEven_le ?_) (le_max_left _ _)
    have hpos : (0 : ℚ) < 2 ^ f.lastExp x := by positivity
    rw [abs_div, abs_of_pos hpos, div_le_iff₀ hpos]
    exact_mod_cast (abs_lt_digits hx).le

/-- The place of its last digit divides a number of the format. -/
theorem Holds.multiple (h : f.Holds x) : ∃ n : ℤ, |n| < 2 ^ f.digits ∧ x = n * 2 ^ f.lastExp x := by
  rcases eq_or_ne x 0 with rfl | hx
  · exact ⟨0, by simp, by simp⟩
  · obtain ⟨m, k, hm, hk, hmk⟩ := h
    have hbelow : (2 : ℚ) ^ binade x < 2 ^ ((f.digits : ℤ) + k) := by
      refine (binade_spec hx).1.trans_lt ?_
      have hpos : (0 : ℚ) < 2 ^ k := by positivity
      rw [hmk, abs_mul, abs_of_pos hpos, zpow_add₀ two_ne_zero, zpow_natCast]
      gcongr
      exact_mod_cast hm
    have hexp := (zpow_lt_zpow_iff_right₀ (one_lt_two (α := ℚ))).mp hbelow
    have hlast : f.lastExp x ≤ k := by unfold lastExp; omega
    have hshift : (2 : ℚ) ^ k = 2 ^ (k - f.lastExp x).toNat * 2 ^ f.lastExp x := by
      rw [← zpow_natCast, ← zpow_add₀ two_ne_zero]
      congr 1
      omega
    have hscaled : x = ((m * 2 ^ (k - f.lastExp x).toNat : ℤ) : ℚ) * 2 ^ f.lastExp x := by
      push_cast
      rw [mul_assoc, ← hshift, ← hmk]
    refine ⟨_, ?_, hscaled⟩
    have hpos : (0 : ℚ) < 2 ^ f.lastExp x := by positivity
    have habs := abs_lt_digits (f := f) hx
    conv_lhs at habs => rw [hscaled, abs_mul, abs_of_pos hpos]
    exact_mod_cast lt_of_mul_lt_mul_right habs hpos.le

/-- Rounding leaves the numbers of the format as they are. -/
theorem Holds.round_eq (h : f.Holds x) : f.round x = x := by
  obtain ⟨n, -, hn⟩ := h.multiple
  have hne : (2 : ℚ) ^ f.lastExp x ≠ 0 := by positivity
  have hdiv : x / 2 ^ f.lastExp x = n := (div_eq_iff hne).mpr hn
  rw [FloatFormat.round_eq, hdiv, nearestEven_intCast, ← hn]

theorem holds_iff : f.Holds x ↔ f.round x = x := by
  constructor
  · exact Holds.round_eq
  · intro h
    rw [← h]
    exact holds_round x

@[simp] theorem round_round (x : ℚ) : f.round (f.round x) = f.round x := (holds_round x).round_eq

/-! ### Order -/

theorem round_le_of_multiple {n : ℤ} (h : x ≤ n * 2 ^ f.lastExp x) :
    f.round x ≤ n * 2 ^ f.lastExp x := by
  have hpos : (0 : ℚ) < 2 ^ f.lastExp x := by positivity
  have hdiv : x / 2 ^ f.lastExp x ≤ n := (div_le_iff₀ hpos).mpr h
  have hle := nearestEven_mono hdiv
  rw [nearestEven_intCast] at hle
  rw [round_eq]
  gcongr

theorem le_round_of_multiple {n : ℤ} (h : n * 2 ^ f.lastExp x ≤ x) :
    n * 2 ^ f.lastExp x ≤ f.round x := by
  have hpos : (0 : ℚ) < 2 ^ f.lastExp x := by positivity
  have hdiv : n ≤ x / 2 ^ f.lastExp x := (le_div_iff₀ hpos).mpr h
  have hle := nearestEven_mono hdiv
  rw [nearestEven_intCast] at hle
  rw [round_eq]
  gcongr

theorem round_nonneg (h : 0 ≤ x) : 0 ≤ f.round x := by
  have hzero : ((0 : ℤ) : ℚ) * 2 ^ f.lastExp x ≤ x := by simpa using h
  simpa using le_round_of_multiple hzero

theorem round_mono_of_nonneg (hx : 0 ≤ x) (h : x ≤ y) : f.round x ≤ f.round y := by
  rcases hx.eq_or_lt with rfl | hx
  · rw [round_zero]
    exact round_nonneg h
  · have hy := hx.trans_le h
    obtain ⟨hxlow, hxhigh⟩ := binade_spec hx.ne'
    obtain ⟨hylow, hyhigh⟩ := binade_spec hy.ne'
    rw [abs_of_pos hx] at hxlow hxhigh
    rw [abs_of_pos hy] at hylow hyhigh
    have htwo : (1 : ℚ) < 2 := one_lt_two
    have hbin : binade x < binade y + 1 :=
      (zpow_lt_zpow_iff_right₀ htwo).mp (hxlow.trans_lt (h.trans_lt hyhigh))
    have hmul : ∀ {i j : ℤ}, i ≤ j → (2 : ℚ) ^ j = ((2 ^ (j - i).toNat : ℤ) : ℚ) * 2 ^ i := by
      intro i j hij
      push_cast
      rw [← zpow_natCast, ← zpow_add₀ two_ne_zero]
      congr 1
      omega
    rcases eq_or_ne (f.lastExp x) (f.lastExp y) with heq | hne
    · rw [round_eq, round_eq, heq]
      have hmono : nearestEven (x / 2 ^ f.lastExp y) ≤ nearestEven (y / 2 ^ f.lastExp y) :=
        nearestEven_mono (by gcongr)
      gcongr
    · -- the power of two between them is a number of the format
      have hdigits := f.digits_pos
      have hlast : f.lastExp x ≤ binade y ∧ f.lastExp y ≤ binade y ∧ binade x + 1 ≤ binade y := by
        unfold lastExp at hne ⊢
        omega
      obtain ⟨hlx, hly, hstep⟩ := hlast
      have hbelow : x ≤ 2 ^ binade y :=
        hxhigh.le.trans (zpow_le_zpow_right₀ htwo.le hstep)
      calc f.round x ≤ 2 ^ binade y := by
            rw [hmul hlx] at hbelow ⊢
            exact round_le_of_multiple hbelow
        _ ≤ f.round y := by
            rw [hmul hly] at hylow ⊢
            exact le_round_of_multiple hylow

theorem round_mono (h : x ≤ y) : f.round x ≤ f.round y := by
  rcases le_or_gt 0 x with hx | hx
  · exact round_mono_of_nonneg hx h
  · rcases le_or_gt y 0 with hy | hy
    · have hneg := round_mono_of_nonneg (f := f) (neg_nonneg.mpr hy) (neg_le_neg h)
      rw [round_neg, round_neg] at hneg
      exact neg_le_neg_iff.mp hneg
    · have hneg := round_nonneg (f := f) (neg_nonneg.mpr hx.le)
      rw [round_neg] at hneg
      exact (neg_nonneg.mp hneg).trans (round_nonneg hy.le)

theorem round_le (hy : f.Holds y) (h : x ≤ y) : f.round x ≤ y := by
  rw [← hy.round_eq]
  exact round_mono h

/-! ### Differences -/

/-- Taking a whole amount out of no more than the integers that the format holds is exact. -/
theorem Holds.sub_natCast (hx : f.Holds x) (hexp : f.minExp ≤ 0) {n : ℕ} (hn : n ≤ x)
    (hmax : x ≤ 2 ^ f.digits) : f.Holds (x - n) := by
  obtain ⟨m, k, hm, hk, rfl⟩ := hx
  rcases le_or_gt 0 k with hnonneg | hneg
  · -- the number is an integer
    have hint : (m : ℚ) * 2 ^ k = ((m * 2 ^ k.toNat : ℤ) : ℚ) := by
      push_cast
      rw [← zpow_natCast, Int.toNat_of_nonneg hnonneg]
    rw [hint] at hn hmax ⊢
    have hle : (n : ℤ) ≤ m * 2 ^ k.toNat := by exact_mod_cast hn
    have hle' : m * 2 ^ k.toNat ≤ 2 ^ f.digits := by exact_mod_cast hmax
    have hdiff := holds_of_abs_le (f := f) (m := m * 2 ^ k.toNat - n) (k := 0)
      (abs_le.mpr ⟨by have := pow_pos (two_pos (α := ℤ)) f.digits; omega, by omega⟩) hexp
    simpa using hdiff
  · -- its last digit is behind the point
    have hone : (1 : ℚ) = ((2 ^ (-k).toNat : ℤ) : ℚ) * 2 ^ k := by
      push_cast
      rw [← zpow_natCast, ← zpow_add₀ two_ne_zero, Int.toNat_of_nonneg (by omega), neg_add_cancel,
        zpow_zero]
    have hpos : (0 : ℚ) < 2 ^ k := by positivity
    have hdiff : (m : ℚ) * 2 ^ k - n = ((m - n * 2 ^ (-k).toNat : ℤ) : ℚ) * 2 ^ k := by
      push_cast at hone ⊢
      rw [sub_mul, mul_assoc, ← hone, mul_one]
    have hlow : 0 ≤ m - n * 2 ^ (-k).toNat := by
      have h := sub_nonneg.mpr hn
      rw [hdiff] at h
      exact_mod_cast nonneg_of_mul_nonneg_left h hpos
    refine ⟨_, k, ?_, hk, hdiff⟩
    have hnonneg : (0 : ℤ) ≤ n * 2 ^ (-k).toNat := by positivity
    obtain ⟨-, hhigh⟩ := abs_lt.mp hm
    exact abs_lt.mpr ⟨by have := pow_pos (two_pos (α := ℤ)) f.digits; omega, by omega⟩

/-- What is not too small beside a number changes it. -/
theorem round_sub_lt (hx : f.Holds x) (hd : f.Holds d) (hpos : 0 < d) (hdx : d ≤ x)
    (hmax : x ≤ 2 ^ (f.digits - 1 : ℤ) * d) : f.round (x - d) < x := by
  have hxpos := hpos.trans_le hdx
  obtain ⟨n, hn, hxn⟩ := hx.multiple
  have hplace : (0 : ℚ) < 2 ^ f.lastExp x := by positivity
  have hle : 2 ^ f.lastExp x ≤ d := by
    rcases max_choice f.minExp (binade x + 1 - f.digits) with h | h
    · -- no number of the format is smaller
      obtain ⟨m, k, -, hk, rfl⟩ := hd
      have hm : 1 ≤ m := by
        have hpow : (0 : ℚ) < 2 ^ k := by positivity
        exact_mod_cast pos_of_mul_pos_left hpos hpow.le
      unfold lastExp
      rw [h]
      calc (2 : ℚ) ^ f.minExp ≤ 2 ^ k := zpow_le_zpow_right₀ one_le_two hk
        _ ≤ m * 2 ^ k := le_mul_of_one_le_left (by positivity) (by exact_mod_cast hm)
    · have hbin := (binade_spec hxpos.ne').1
      rw [abs_of_pos hxpos] at hbin
      have hscale : (0 : ℚ) < 2 ^ (f.digits - 1 : ℤ) := by positivity
      refine le_of_mul_le_mul_left ?_ hscale
      refine le_trans (le_of_eq ?_) (hbin.trans hmax)
      unfold lastExp
      rw [h, ← zpow_add₀ two_ne_zero]
      congr 1
      ring
  have hnpos : 0 < n := by
    rw [hxn] at hxpos
    exact_mod_cast pos_of_mul_pos_left hxpos hplace.le
  have hprev : x - 2 ^ f.lastExp x = ((n - 1 : ℤ) : ℚ) * 2 ^ f.lastExp x := by
    push_cast
    rw [sub_mul, one_mul, ← hxn]
  have hholds : f.Holds (x - 2 ^ f.lastExp x) := by
    rw [hprev]
    refine ⟨n - 1, _, ?_, le_max_left _ _, rfl⟩
    obtain ⟨-, hhigh⟩ := abs_lt.mp hn
    exact abs_lt.mpr ⟨by have := pow_pos (two_pos (α := ℤ)) f.digits; omega, by omega⟩
  calc f.round (x - d) ≤ x - 2 ^ f.lastExp x := round_le hholds (by linarith)
    _ < x := by linarith

/-! ### Taking an amount away again and again -/

theorem Holds.grid (h : f.Holds x) : ∃ z : ℤ, x = z * 2 ^ f.minExp := by
  obtain ⟨m, k, -, hk, rfl⟩ := h
  refine ⟨m * 2 ^ (k - f.minExp).toNat, ?_⟩
  push_cast
  rw [mul_assoc, ← zpow_natCast, ← zpow_add₀ two_ne_zero]
  congr 2
  omega

/-- Of two numbers of the format the lower one is lower by the least of them at least. -/
theorem Holds.add_least_le (hx : f.Holds x) (hy : f.Holds y) (h : y < x) :
    y + 2 ^ f.minExp ≤ x := by
  obtain ⟨z, rfl⟩ := hx.grid
  obtain ⟨w, rfl⟩ := hy.grid
  have hpos : (0 : ℚ) < 2 ^ f.minExp := by positivity
  have hlt : w < z := by exact_mod_cast lt_of_mul_lt_mul_right h hpos.le
  have hle : (w : ℚ) + 1 ≤ z := by exact_mod_cast hlt
  calc (w : ℚ) * 2 ^ f.minExp + 2 ^ f.minExp = (w + 1) * 2 ^ f.minExp := by ring
    _ ≤ z * 2 ^ f.minExp := by gcongr

/-- It comes to an end unless a number on the way is left as it is. -/
theorem exists_over_iff {due : ℚ → Prop} (hd : 0 ≤ d)
    (hmono : ∀ {x y : ℚ}, x ≤ y → due x → due y) {low : ℚ} (hlow : ∀ {x : ℚ}, due x → low ≤ x)
    (hx : f.Holds x) : (∃ n, Over due (fun x => f.round (x - d)) x n) ↔
      ∀ y, f.Holds y → y ≤ x → due y → f.round (y - d) ≠ y := by
  constructor
  · rintro ⟨n, hn⟩ y - hyx hdue hstuck
    clear hx
    induction n generalizing x with
    | zero => exact over_zero.mp hn (hmono hyx hdue)
    | succ n ih =>
      refine ih ((over_succ (hmono hyx hdue)).mp hn) ?_
      rw [← hstuck]
      exact round_mono (by linarith)
  · intro h
    have hpos : (0 : ℚ) < 2 ^ f.minExp := by positivity
    obtain ⟨N, hN⟩ := exists_nat_gt ((x - low) / 2 ^ f.minExp)
    rw [div_lt_iff₀ hpos] at hN
    -- each turn goes down by the least number at least, and nothing below `low` is due
    induction N generalizing x with
    | zero =>
      refine ⟨0, over_zero.mpr fun hdue => absurd (hlow hdue) (not_le.mpr ?_)⟩
      rw [Nat.cast_zero, zero_mul] at hN
      linarith
    | succ N ih =>
      by_cases hdue : due x
      · have hle : f.round (x - d) ≤ x := round_le hx (by linarith)
        have hlt : f.round (x - d) < x := lt_of_le_of_ne hle (h x hx le_rfl hdue)
        have hstep := hx.add_least_le (holds_round (x - d)) hlt
        obtain ⟨n, hn⟩ := ih (holds_round (x - d)) (fun y hy hyx => h y hy (hyx.trans hle)) (by
          push_cast at hN
          linarith)
        exact ⟨n + 1, (over_succ hdue).mpr hn⟩
      · exact ⟨0, over_zero.mpr hdue⟩

end FloatFormat

/-! ### Values -/

/-- What a variable of a format can hold; the sign of zero does not matter here. -/
inductive FloatValue
  | nan
  | inf (negative : Bool)
  | finite (x : ℚ)
  deriving DecidableEq

namespace FloatValue

/-- No comparison holds of a NaN. -/
def le : FloatValue → FloatValue → Bool
  | nan, _ => false
  | _, nan => false
  | inf true, _ => true
  | _, inf false => true
  | finite x, finite y => x ≤ y
  | finite _, inf true => false
  | inf false, inf true => false
  | inf false, finite _ => false

instance : LE FloatValue := ⟨fun a b => a.le b = true⟩

instance (a b : FloatValue) : Decidable (a ≤ b) := inferInstanceAs (Decidable (a.le b = true))

theorem le_def {a b : FloatValue} : a ≤ b ↔ a.le b = true := Iff.rfl

@[simp] theorem finite_le_finite {x y : ℚ} : finite x ≤ finite y ↔ x ≤ y := decide_eq_true_iff

end FloatValue

namespace FloatFormat

open FloatValue

variable (f : FloatFormat)

/-- An exact result as the format holds it. -/
def value (x : ℚ) : FloatValue :=
  if twoPow f.maxExp ≤ f.round x then inf false
  else if f.round x ≤ -twoPow f.maxExp then inf true
  else finite (f.round x)

def add : FloatValue → FloatValue → FloatValue
  | nan, _ => nan
  | _, nan => nan
  | inf s, inf t => if s = t then inf s else nan
  | inf s, finite _ => inf s
  | finite _, inf t => inf t
  | finite x, finite y => f.value (x + y)

def sub : FloatValue → FloatValue → FloatValue
  | nan, _ => nan
  | _, nan => nan
  | inf s, inf t => if s = t then nan else inf s
  | inf s, finite _ => inf s
  | finite _, inf t => inf !t
  | finite x, finite y => f.value (x - y)

/-- Divided by zero it is infinite. -/
def inverse (x : ℚ) : FloatValue := if x = 0 then inf false else f.value (1 / x)

end FloatFormat

namespace FloatFormat

variable (f : FloatFormat)

/-- A value of the format. -/
def Fits : FloatValue → Prop
  | .finite x => f.Holds x ∧ |x| < 2 ^ f.maxExp
  | _ => True

/-- When taking `dt` away again and again, as long as there is as much, comes to an end: if there is less,
if both are infinite, so that nothing is left that can be compared, or if the interval is positive and no
number on the way is left as it is. -/
def Ends : FloatValue → FloatValue → Prop
  | .finite dt, .finite x =>
    x < dt ∨ 0 < dt ∧ ∀ y, f.Holds y → dt ≤ y → y ≤ x → f.round (y - dt) ≠ y
  | .finite _, .inf negative => negative
  | .inf negative, .finite _ => !negative
  | .inf true, .inf false => False
  | _, _ => True

variable {f}

theorem fits_value (x : ℚ) : f.Fits (f.value x) := by
  unfold value
  rw [twoPow_eq]
  split_ifs with hhigh hlow
  · exact trivial
  · exact trivial
  · exact ⟨holds_round x, abs_lt.mpr ⟨not_le.mp hlow, not_le.mp hhigh⟩⟩

theorem fits_add (a b : FloatValue) : f.Fits (f.add a b) := by
  unfold add
  split
  · exact trivial
  · exact trivial
  · split_ifs <;> exact trivial
  · exact trivial
  · exact trivial
  · exact fits_value _

theorem value_of_fits {x : ℚ} (hx : |f.round x| < 2 ^ f.maxExp) : f.value x = .finite (f.round x) := by
  obtain ⟨hlow, hhigh⟩ := abs_lt.mp hx
  unfold value
  rw [twoPow_eq, if_neg (not_le.mpr hhigh), if_neg (not_le.mpr hlow)]

/-- What is taken from a finite value that is no less leaves a finite value. -/
theorem sub_finite {x d : ℚ} (hx : f.Fits (.finite x)) (hd : 0 ≤ d) (hle : d ≤ x) :
    f.sub (.finite x) (.finite d) = .finite (f.round (x - d)) ∧ f.Fits (.finite (f.round (x - d))) := by
  obtain ⟨hholds, hfits⟩ := hx
  have hnonneg := round_nonneg (f := f) (sub_nonneg.mpr hle)
  have hround := round_le hholds (show x - d ≤ x by linarith)
  have hsmall : |f.round (x - d)| < 2 ^ f.maxExp := by
    rw [abs_of_nonneg hnonneg]
    exact hround.trans_lt ((le_abs_self x).trans_lt hfits)
  exact ⟨value_of_fits hsmall, holds_round _, hsmall⟩

theorem over_finite_iff {x d : ℚ} (hd : 0 ≤ d) (hx : f.Fits (.finite x)) (n : ℕ) :
    Over (FloatValue.finite d ≤ ·) (f.sub · (.finite d)) (.finite x) n ↔
      Over (d ≤ ·) (fun x => f.round (x - d)) x n := by
  induction n generalizing x with
  | zero => simp [over_zero]
  | succ n ih =>
    by_cases hle : d ≤ x
    · obtain ⟨hsub, hfits⟩ := sub_finite hx hd hle
      have hdue : FloatValue.finite d ≤ .finite x := FloatValue.finite_le_finite.mpr hle
      have hrest := ih hfits
      rw [← hsub] at hrest
      exact (over_succ hdue).trans (hrest.trans (over_succ hle).symm)
    · have hdone : ¬FloatValue.finite d ≤ .finite x := fun h => hle (FloatValue.finite_le_finite.mp h)
      exact iff_of_true (over_of_not hdone _) (over_of_not hle _)

/-- What grows as the interval is taken away. -/
def Grows (dt : ℚ) : FloatValue → Prop
  | .finite x => dt ≤ x
  | .inf negative => negative = false
  | .nan => False

theorem not_over_of_nonpos {dt : ℚ} (hdt : dt ≤ 0) {a : FloatValue} (ha : Grows dt a) :
    ¬∃ n, Over (FloatValue.finite dt ≤ ·) (f.sub · (.finite dt)) a n := by
  refine not_over_of_invariant (P := Grows dt) (fun a ha => ?_) (fun a ha => ?_) ha
  · rcases a with _ | negative | x
    · cases ha
    · obtain rfl : negative = false := ha
      rfl
    · exact decide_eq_true ha
  · rcases a with _ | negative | x
    · cases ha
    · exact ha
    · have hx : dt ≤ x := ha
      have hnonneg := round_nonneg (f := f) (sub_nonneg.mpr hx)
      have hpos : (0 : ℚ) < 2 ^ f.maxExp := by positivity
      show Grows dt (f.value (x - dt))
      unfold value
      rw [twoPow_eq]
      split_ifs with hhigh hlow
      · rfl
      · linarith
      · exact hdt.trans hnonneg

theorem exists_over_sub_iff {dt a : FloatValue} (ha : f.Fits a) :
    (∃ n, Over (dt ≤ ·) (f.sub · dt) a n) ↔ f.Ends dt a := by
  rcases dt with _ | negative | d
  · have hends : f.Ends .nan a := by cases a <;> exact trivial
    exact iff_of_true ⟨0, over_zero.mpr (by simp [FloatValue.le_def, FloatValue.le])⟩ hends
  · rcases a with _ | negative' | x
    · exact iff_of_true ⟨0, over_zero.mpr (by cases negative <;> simp [FloatValue.le_def, FloatValue.le])⟩
        (by cases negative <;> exact trivial)
    · rcases negative <;> rcases negative'
      · exact iff_of_true ⟨1, 1, le_rfl, by simp [FloatFormat.sub, FloatValue.le_def, FloatValue.le]⟩ trivial
      · exact iff_of_true ⟨0, over_zero.mpr (by simp [FloatValue.le_def, FloatValue.le])⟩ trivial
      · refine iff_of_false (not_over_of_invariant (P := fun a => a = .inf false) ?_ ?_ rfl) id
        · rintro a rfl
          rfl
        · rintro a rfl
          rfl
      · exact iff_of_true ⟨1, 1, le_rfl, by simp [FloatFormat.sub, FloatValue.le_def, FloatValue.le]⟩ trivial
    · cases negative with
      | false => exact iff_of_true ⟨0, over_zero.mpr (by simp [FloatValue.le_def, FloatValue.le])⟩ rfl
      | true =>
        refine iff_of_false (not_over_of_invariant
          (P := fun a => (∃ x, a = .finite x) ∨ a = .inf false) ?_ ?_ (.inl ⟨x, rfl⟩)) Bool.false_ne_true
        · rintro a (⟨x, rfl⟩ | rfl) <;> rfl
        · rintro a (⟨x, rfl⟩ | rfl) <;> exact .inr rfl
  · rcases a with _ | negative | x
    · exact iff_of_true ⟨0, over_zero.mpr (by simp [FloatValue.le_def, FloatValue.le])⟩ trivial
    · cases negative with
      | true => exact iff_of_true ⟨0, over_zero.mpr (by simp [FloatValue.le_def, FloatValue.le])⟩ rfl
      | false =>
        refine iff_of_false (not_over_of_invariant (P := fun a => a = .inf false) ?_ ?_ rfl)
          Bool.false_ne_true
        · rintro a rfl
          rfl
        · rintro a rfl
          rfl
    · rcases lt_or_ge 0 d with hpos | hneg
      · simp only [over_finite_iff hpos.le ha]
        have hlow : ∀ {x : ℚ}, d ≤ x → d ≤ x := fun hle => hle
        rw [exists_over_iff hpos.le (fun hxy hle => hle.trans hxy) hlow ha.1]
        show _ ↔ x < d ∨ 0 < d ∧ _
        constructor
        · exact fun h => .inr ⟨hpos, fun y hy hdy hyx => h y hy hyx hdy⟩
        · rintro (hlt | ⟨-, h⟩) y hy hyx hdy
          · linarith
          · exact h y hy hdy hyx
      · rcases lt_or_ge x d with hlt | hge
        · exact iff_of_true ⟨0, over_zero.mpr (by simpa using hlt)⟩ (.inl hlt)
        · refine iff_of_false (not_over_of_nonpos hneg hge) ?_
          rintro (hlt | ⟨hpos, -⟩)
          · linarith
          · linarith

/-- A positive interval that is not too small beside the amount. -/
theorem ends_of_le {d x : ℚ} (hd : f.Holds d) (hpos : 0 < d) (hle : x ≤ 2 ^ (f.digits - 1 : ℤ) * d) :
    f.Ends (.finite d) (.finite x) :=
  .inr ⟨hpos, fun _ hy hdy hyx => (round_sub_lt hy hd hpos hdy (hyx.trans hle)).ne⟩

end FloatFormat

/-! ### Arithmetics -/

/-- How an exact result is rounded. -/
structure Rounding where
  round : ℚ → ℚ
  mono : ∀ {x y : ℚ}, x ≤ y → round x ≤ round y
  zero : round 0 = 0

instance : CoeFun Rounding fun _ => ℚ → ℚ := ⟨Rounding.round⟩

def FloatFormat.rounding (f : FloatFormat) : Rounding :=
  ⟨f.round, FloatFormat.round_mono, FloatFormat.round_zero⟩

theorem Rounding.nonneg (r : Rounding) {x : ℚ} (h : 0 ≤ x) : 0 ≤ r x := by
  rw [← r.zero]
  exact r.mono h

/-- How results of single and of double precision are rounded. -/
structure Arith where
  single : Rounding
  double : Rounding

namespace Arith

def exact : Arith := ⟨⟨id, id, rfl⟩, ⟨id, id, rfl⟩⟩

def ieee : Arith := ⟨binary32.rounding, binary64.rounding⟩

@[simp] theorem exact_single (x : ℚ) : exact.single x = x := rfl

@[simp] theorem exact_double (x : ℚ) : exact.double x = x := rfl

@[simp] theorem ieee_single (x : ℚ) : ieee.single x = binary32.round x := rfl

@[simp] theorem ieee_double (x : ℚ) : ieee.double x = binary64.round x := rfl

end Arith

end CampelloNet.Lib
