import CampelloNet.Serialization.Tape
import Mathlib.Algebra.Order.Floor.Semiring
import Mathlib.Data.Rat.Floor
import Mathlib.Tactic.FieldSimp
import Mathlib.Tactic.Linarith
import Mathlib.Tactic.Ring

/-!
# Quantized numbers

`write_quantized` and `read_quantized` over the numbers of a field. A number of a range is rounded to
one of the equidistant numbers that some bits can count. Up to 31 bits it comes back within half of the
distance; with 32, which the methods are said to take, `1u << bits` shifts by the width of its operand
(`roundTrips_iff`).
-/

namespace CampelloNet.Serialization

open Lib BitStream

/-- `std::clamp` -/
def clamp {K : Type} [LinearOrder K] (v lo hi : K) : K :=
  if v < lo then lo else if hi < v then hi else v

section
variable {K : Type} [Field K] [LinearOrder K] [FloorSemiring K] (wide : ℕ → UInt32)

/-- `1u << n`. Where `n` is not below 32 the language leaves the value open, and the machine has it. -/
def oneShl (n : ℕ) : UInt32 := if n < 32 then 1 <<< UInt32.ofNat n else wide n

/-- The amount of the shifts. -/
def shiftAmount (bits : ℕ) : ℕ := if bits > 32 then 32 else bits

def maxInt (bits : ℕ) : UInt32 := oneShl wide (shiftAmount bits) - 1

/-- The number of steps from the lower bound, as the cast to an integer leaves it. -/
def quantize (value min max : K) (bits : ℕ) : UInt32 :=
  let t := clamp ((value - min) / (max - min)) 0 1
  .ofNat ⌊t * (maxInt wide bits).toNat + 1 / 2⌋₊

def writeQuantized (value min max : K) (bits : ℕ) (stream : BitStream) : BitStream :=
  if bits = 0 then stream
  else stream.writeBits (quantize wide value min max bits).toUInt64 (shiftAmount bits)

def readQuantized (min max : K) (bits : ℕ) : Reader K :=
  if bits = 0 then pure min
  else do
    let q ← readBits (shiftAmount bits)
    pure (min + (max - min) * (q.toNat / (maxInt wide bits).toNat))

/-- No shift amount reaches the width of the operand, nothing is divided by zero, and wherever a number
is written, what is read there is within half a step of the number in the range. -/
structure RoundTrips (value min max : K) (bits : ℕ) : Prop where
  shift_lt : shiftAmount bits < 32
  range_ne_zero : max - min ≠ 0
  maxInt_ne_zero : ((maxInt wide bits).toNat : K) ≠ 0
  codes : ∃ e x, tape.Codes e (writeQuantized wide value min max bits)
      (readQuantized wide min max bits) x ∧
    |x - clamp value min max| ≤ (max - min) / (2 * (2 ^ bits - 1))

end

/-! ### The integers -/

theorem shiftAmount_of_le {bits : ℕ} (h : bits ≤ 32) : shiftAmount bits = bits := if_neg (not_lt.mpr h)

section
variable (wide : ℕ → UInt32) {bits : ℕ}

theorem toNat_oneShl (h : bits < 32) : (oneShl wide bits).toNat = 2 ^ bits := by
  have hpow : 2 ^ bits < 2 ^ 32 := Nat.pow_lt_pow_right (by omega) h
  unfold oneShl
  rw [if_pos h, UInt32.toNat_shiftLeft, UInt32.toNat_ofNat_of_lt' (by change bits < 2 ^ 32; omega),
    Nat.mod_eq_of_lt h,
    UInt32.toNat_one, Nat.shiftLeft_eq, one_mul, Nat.mod_eq_of_lt hpow]

theorem toNat_maxInt (h : bits < 32) : (maxInt wide bits).toNat = 2 ^ bits - 1 := by
  have hpow : 1 ≤ 2 ^ bits := Nat.one_le_two_pow
  unfold maxInt
  rw [shiftAmount_of_le h.le, UInt32.toNat_sub_of_le, toNat_oneShl wide h]
  · rfl
  · rw [UInt32.le_iff_toNat_le, toNat_oneShl wide h]
    exact hpow

end

/-! ### The rounding -/

theorem clamp_mem {K : Type} [LinearOrder K] (value : K) {min max : K} (h : min ≤ max) :
    min ≤ clamp value min max ∧ clamp value min max ≤ max := by
  unfold clamp
  split_ifs with hlow hhigh
  · exact ⟨le_rfl, h⟩
  · exact ⟨h, le_rfl⟩
  · exact ⟨not_lt.mp hlow, not_lt.mp hhigh⟩

section
variable {K : Type} [Field K] [LinearOrder K] [IsStrictOrderedRing K] {value min max : K}

/-- The place of a clamped number in its range. -/
theorem clamp_eq (h : min < max) :
    clamp value min max = min + (max - min) * clamp ((value - min) / (max - min)) 0 1 := by
  have hrange : 0 < max - min := sub_pos.mpr h
  have hlow : (value - min) / (max - min) < 0 ↔ value < min := by
    rw [div_lt_iff₀ hrange, zero_mul, sub_neg]
  have hhigh : 1 < (value - min) / (max - min) ↔ max < value := by
    rw [lt_div_iff₀ hrange, one_mul, sub_lt_sub_iff_right]
  unfold clamp
  simp only [hlow, hhigh]
  split_ifs
  · ring
  · ring
  · field_simp
    ring

variable [FloorSemiring K]

/-- Half a step up and the rest cut off. -/
theorem abs_floor_half_sub_le {y : K} (h : 0 ≤ y) : |(⌊y + 1 / 2⌋₊ : K) - y| ≤ 1 / 2 := by
  have hfloor := Nat.floor_le (show 0 ≤ y + 1 / 2 by linarith)
  have hnext := Nat.lt_floor_add_one (y + 1 / 2)
  rw [abs_le]
  constructor
  · linarith
  · linarith

theorem floor_half_le {y : K} {n : ℕ} (h : y ≤ n) : ⌊y + 1 / 2⌋₊ ≤ n := by
  apply Nat.lt_succ_iff.mp
  rw [Nat.floor_lt']
  · push_cast
    linarith
  · omega

variable (wide : ℕ → UInt32) (value min max) {bits : ℕ}

theorem toNat_quantize (h : bits < 32) : (quantize wide value min max bits).toNat =
    ⌊clamp ((value - min) / (max - min)) 0 1 * ((2 ^ bits - 1 : ℕ) : K) + 1 / 2⌋₊ := by
  have hunit := clamp_mem ((value - min) / (max - min)) (zero_le_one' K)
  have hle := floor_half_le (mul_le_of_le_one_left (Nat.cast_nonneg (2 ^ bits - 1)) hunit.2)
  have hpow : 2 ^ bits < 2 ^ 32 := Nat.pow_lt_pow_right (by omega) h
  unfold quantize
  rw [toNat_maxInt wide h, UInt32.toNat_ofNat_of_lt' (by change _ < 2 ^ 32; omega)]

theorem quantize_lt (h : bits < 32) : (quantize wide value min max bits).toNat < 2 ^ bits := by
  have hunit := clamp_mem ((value - min) / (max - min)) (zero_le_one' K)
  have hle := floor_half_le (mul_le_of_le_one_left (Nat.cast_nonneg (2 ^ bits - 1)) hunit.2)
  have hpow : 1 ≤ 2 ^ bits := Nat.one_le_two_pow
  rw [toNat_quantize value min max wide h]
  omega

/-- The number that the count of steps stands for. -/
def dequantize (min max : K) (bits q : ℕ) : K := min + (max - min) * (q / (2 ^ bits - 1 : ℕ))

theorem codes_quantized (hbits : 1 ≤ bits) (h : bits < 32) :
    tape.Codes (fun _ => natBits bits (quantize wide value min max bits).toNat)
      (writeQuantized wide value min max bits) (readQuantized wide min max bits)
      (dequantize min max bits (quantize wide value min max bits).toNat) := by
  have hlt := quantize_lt value min max wide h
  have hcodes := (tape_codes_bits (quantize wide value min max bits).toUInt64 (n := bits) (by omega)).map
    fun q => min + (max - min) * (q.toNat / (maxInt wide bits).toNat)
  have hpow : 2 ^ bits < 2 ^ 32 := Nat.pow_lt_pow_right (by omega) h
  have hsome : bits ≠ 0 := by omega
  rw [UInt32.toNat_toUInt64, Nat.mod_eq_of_lt hlt, toNat_ofNat64 (by omega)] at hcodes
  unfold writeQuantized readQuantized dequantize
  rw [← toNat_maxInt wide h]
  simp only [if_neg hsome, shiftAmount_of_le h.le]
  exact hcodes

variable {min max}

theorem abs_dequantize_sub_le (hbits : 1 ≤ bits) (h : bits < 32) (hrange : min < max) :
    |dequantize min max bits (quantize wide value min max bits).toNat - clamp value min max| ≤
      (max - min) / (2 * (2 ^ bits - 1)) := by
  have hunit := clamp_mem ((value - min) / (max - min)) (zero_le_one' K)
  have hpow : 2 ≤ 2 ^ bits := Nat.le_self_pow (by omega) 2
  have hcast : ((2 ^ bits - 1 : ℕ) : K) = 2 ^ bits - 1 := by
    rw [Nat.cast_sub (by omega)]
    push_cast
    rfl
  have hsteps : (0 : K) < 2 ^ bits - 1 := by
    rw [← hcast, Nat.cast_pos]
    omega
  have hround := abs_floor_half_sub_le
    (mul_nonneg hunit.1 (Nat.cast_nonneg (α := K) (2 ^ bits - 1)))
  rw [clamp_eq hrange, toNat_quantize value min max wide h, dequantize, hcast] at *
  generalize clamp ((value - min) / (max - min)) 0 1 = t at *
  generalize (⌊t * (2 ^ bits - 1 : K) + 1 / 2⌋₊ : K) = q at *
  generalize (2 ^ bits - 1 : K) = steps at *
  have hpos : 0 < max - min := sub_pos.mpr hrange
  calc |min + (max - min) * (q / steps) - (min + (max - min) * t)|
      = |(max - min) / steps * (q - t * steps)| := by
        congr 1
        field_simp
        ring
    _ = (max - min) / steps * |q - t * steps| := by
        rw [abs_mul, abs_of_pos (div_pos hpos hsteps)]
    _ ≤ (max - min) / steps * (1 / 2) := by gcongr
    _ = (max - min) / (2 * steps) := by
        field_simp

/-- For 1 to 32 bits, any range and any number: the number comes back within half a step, with the
arithmetic defined throughout, if and only if there are fewer than 32 bits. -/
theorem roundTrips_iff (hbits : 1 ≤ bits) (h : bits ≤ 32)
    (hrange : min < max) : RoundTrips wide value min max bits ↔ bits < 32 := by
  constructor
  · intro htrips
    have hshift := htrips.shift_lt
    rwa [shiftAmount_of_le h] at hshift
  · intro hlt
    have hpow : 2 ≤ 2 ^ bits := Nat.le_self_pow (by omega) 2
    refine ⟨?_, sub_ne_zero.mpr hrange.ne', ?_, _, _, codes_quantized value min max wide hbits hlt,
      abs_dequantize_sub_le value wide hbits hlt hrange⟩
    · rwa [shiftAmount_of_le h]
    · rw [toNat_maxInt wide hlt, Nat.cast_ne_zero]
      omega

end

/-- A machine that looks at the low five bits of the shift amount. -/
def lowFive (n : ℕ) : UInt32 := 1 <<< UInt32.ofNat (n % 32)

/-- Ten bits for a percentage. -/
theorem roundTrips_iff_ten : RoundTrips lowFive (50 : ℚ) 0 100 10 :=
  (roundTrips_iff 50 lowFive (by omega) (by omega) (by norm_num)).mpr (by omega)

/-- With all 32 bits the shift is too far, and what comes back is a quotient by zero. -/
theorem not_roundTrips_word :
    ¬RoundTrips lowFive (1 : ℚ) 0 1 32 ∧ maxInt lowFive 32 = 0 := by
  constructor
  · intro htrips
    exact absurd htrips.shift_lt (by decide)
  · decide

end CampelloNet.Serialization
