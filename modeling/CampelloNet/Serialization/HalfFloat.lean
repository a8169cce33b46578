import CampelloNet.Serialization.Codes
import Mathlib.Tactic.NormNum
import Mathlib.Tactic.Linarith

/-!
# Half-precision floats

`write_half` makes a half of a float's bits, `read_half` a float of the half. The bits of both are a
sign, an exponent and a mantissa. Between `2 ^ -14` and `65536` the mantissa is cut off and nothing else
changes; what is smaller becomes zero, what is larger infinity (`half_round_trip`).
-/

namespace CampelloNet.Serialization

open Lib

namespace BitStream

/-- The bits of the half that a float becomes. -/
def halfOfFloat (ui : UInt32) : UInt16 :=
  let sign := (ui >>> 31) &&& 1
  let exponent := (ui >>> 23) &&& 0xFF
  let mantissa := ui &&& 0x7FFFFF
  if exponent = 0 then (sign <<< 15).toUInt16
  else if exponent = 0xFF then
    ((sign <<< 15) ||| ((0x1F : UInt32) <<< 10) ||| (if mantissa ≠ 0 then 0x200 else 0)).toUInt16
  else
    let newExp : ℤ := exponent.toNat - 127 + 15
    if newExp ≥ 31 then ((sign <<< 15) ||| ((0x1F : UInt32) <<< 10)).toUInt16
    else if newExp ≤ 0 then (sign <<< 15).toUInt16
    else
      ((sign <<< 15) ||| (UInt32.ofInt newExp <<< 10) ||| (mantissa >>> 13).toUInt16.toUInt32).toUInt16

def writeHalf (value : UInt32) (s : BitStream) : BitStream :=
  s.alignToByte.writeBits (halfOfFloat value).toUInt64 16

/-! ### Sign, exponent and mantissa -/

/-- The bits of a float from its parts. -/
def floatBits (sign exponent mantissa : ℕ) : UInt32 :=
  UInt32.ofNat (sign * 2 ^ 31 + exponent * 2 ^ 23 + mantissa)

def halfBits (sign exponent mantissa : ℕ) : UInt16 :=
  UInt16.ofNat (sign * 2 ^ 15 + exponent * 2 ^ 10 + mantissa)

/-- The parts fit a float. -/
structure FloatParts (sign exponent mantissa : ℕ) : Prop where
  sign : sign < 2
  exponent : exponent < 256
  mantissa : mantissa < 2 ^ 23

structure HalfParts (sign exponent mantissa : ℕ) : Prop where
  sign : sign < 2
  exponent : exponent < 32
  mantissa : mantissa < 2 ^ 10

variable {s e m : ℕ}

theorem toNat_floatBits (h : FloatParts s e m) :
    (floatBits s e m).toNat = s * 2 ^ 31 + e * 2 ^ 23 + m := by
  obtain ⟨hs, he, hm⟩ := h
  exact UInt32.toNat_ofNat_of_lt' (by show _ < 2 ^ 32; omega)

theorem toNat_halfBits (h : HalfParts s e m) :
    (halfBits s e m).toNat = s * 2 ^ 15 + e * 2 ^ 10 + m := by
  obtain ⟨hs, he, hm⟩ := h
  exact UInt16.toNat_ofNat_of_lt' (by show _ < 2 ^ 16; omega)

theorem exists_floatBits (ui : UInt32) : ∃ s e m, FloatParts s e m ∧ ui = floatBits s e m := by
  have hlt : ui.toNat < 2 ^ 32 := ui.toNat_lt
  have hparts : FloatParts (ui.toNat / 2 ^ 31) (ui.toNat / 2 ^ 23 % 256) (ui.toNat % 2 ^ 23) := by
    constructor <;> omega
  refine ⟨_, _, _, hparts, UInt32.toNat_inj.mp ?_⟩
  rw [toNat_floatBits hparts]
  omega

theorem float_fields (h : FloatParts s e m) :
    ((floatBits s e m >>> 31) &&& 1).toNat = s ∧ ((floatBits s e m >>> 23) &&& 0xFF).toNat = e ∧
      (floatBits s e m &&& 0x7FFFFF).toNat = m := by
  have hbits := toNat_floatBits h
  obtain ⟨hs, he, hm⟩ := h
  refine ⟨?_, ?_, ?_⟩
  · rw [UInt32.toNat_and, UInt32.toNat_shiftRight, hbits, Nat.shiftRight_eq_div_pow]
    change (s * 2 ^ 31 + e * 2 ^ 23 + m) / 2 ^ 31 &&& (2 ^ 1 - 1) = s
    rw [Nat.and_two_pow_sub_one_eq_mod]
    omega
  · rw [UInt32.toNat_and, UInt32.toNat_shiftRight, hbits, Nat.shiftRight_eq_div_pow]
    change (s * 2 ^ 31 + e * 2 ^ 23 + m) / 2 ^ 23 &&& (2 ^ 8 - 1) = e
    rw [Nat.and_two_pow_sub_one_eq_mod]
    omega
  · rw [UInt32.toNat_and, hbits]
    change (s * 2 ^ 31 + e * 2 ^ 23 + m) &&& (2 ^ 23 - 1) = m
    rw [Nat.and_two_pow_sub_one_eq_mod]
    omega

theorem half_fields (h : HalfParts s e m) :
    ((halfBits s e m >>> 15) &&& 1).toNat = s ∧ ((halfBits s e m >>> 10) &&& 0x1F).toNat = e ∧
      (halfBits s e m &&& 0x3FF).toNat = m := by
  have hbits := toNat_halfBits h
  obtain ⟨hs, he, hm⟩ := h
  refine ⟨?_, ?_, ?_⟩
  · rw [UInt16.toNat_and, UInt16.toNat_shiftRight, hbits, Nat.shiftRight_eq_div_pow]
    change (s * 2 ^ 15 + e * 2 ^ 10 + m) / 2 ^ 15 &&& (2 ^ 1 - 1) = s
    rw [Nat.and_two_pow_sub_one_eq_mod]
    omega
  · rw [UInt16.toNat_and, UInt16.toNat_shiftRight, hbits, Nat.shiftRight_eq_div_pow]
    change (s * 2 ^ 15 + e * 2 ^ 10 + m) / 2 ^ 10 &&& (2 ^ 5 - 1) = e
    rw [Nat.and_two_pow_sub_one_eq_mod]
    omega
  · rw [UInt16.toNat_and, hbits]
    change (s * 2 ^ 15 + e * 2 ^ 10 + m) &&& (2 ^ 10 - 1) = m
    rw [Nat.and_two_pow_sub_one_eq_mod]
    omega

/-- Three fields, each shifted to its place. -/
theorem float_assembled {sign exponent mantissa : UInt32} (h : FloatParts s e m)
    (hs : sign.toNat = s) (he : exponent.toNat = e) (hm : mantissa.toNat = m) :
    (sign <<< 31) ||| (exponent <<< 23) ||| mantissa = floatBits s e m := by
  apply UInt32.toNat_inj.mp
  rw [toNat_floatBits h]
  obtain ⟨hs2, he2, hm2⟩ := h
  have hinner : s * 2 ^ 31 ||| e * 2 ^ 23 = s * 2 ^ 31 + e * 2 ^ 23 :=
    or_eq_add (k := 31) (by omega) (by omega)
  have houter : (s * 2 ^ 31 + e * 2 ^ 23) ||| m = s * 2 ^ 31 + e * 2 ^ 23 + m :=
    or_eq_add (k := 23) (by omega) (by omega)
  rw [UInt32.toNat_or, UInt32.toNat_or, UInt32.toNat_shiftLeft, UInt32.toNat_shiftLeft, hs, he, hm,
    Nat.shiftLeft_eq, Nat.shiftLeft_eq]
  change (s * 2 ^ 31 % 2 ^ 32 ||| e * 2 ^ 23 % 2 ^ 32) ||| m = _
  rw [Nat.mod_eq_of_lt (by omega), Nat.mod_eq_of_lt (by omega), hinner, houter]

theorem half_assembled {sign exponent mantissa : UInt32} (h : HalfParts s e m)
    (hs : sign.toNat = s) (he : exponent.toNat = e) (hm : mantissa.toNat = m) :
    ((sign <<< 15) ||| (exponent <<< 10) ||| mantissa).toUInt16 = halfBits s e m := by
  apply UInt16.toNat_inj.mp
  rw [toNat_halfBits h]
  obtain ⟨hs2, he2, hm2⟩ := h
  have hinner : s * 2 ^ 15 ||| e * 2 ^ 10 = s * 2 ^ 15 + e * 2 ^ 10 :=
    or_eq_add (k := 15) (by omega) (by omega)
  have houter : (s * 2 ^ 15 + e * 2 ^ 10) ||| m = s * 2 ^ 15 + e * 2 ^ 10 + m :=
    or_eq_add (k := 10) (by omega) (by omega)
  rw [UInt32.toNat_toUInt16, UInt32.toNat_or, UInt32.toNat_or, UInt32.toNat_shiftLeft,
    UInt32.toNat_shiftLeft, hs, he, hm, Nat.shiftLeft_eq, Nat.shiftLeft_eq]
  change ((s * 2 ^ 15 % 2 ^ 32 ||| e * 2 ^ 10 % 2 ^ 32) ||| m) % 2 ^ 16 = _
  rw [Nat.mod_eq_of_lt (by omega : s * 2 ^ 15 < 2 ^ 32), Nat.mod_eq_of_lt (by omega : e * 2 ^ 10 < 2 ^ 32),
    hinner, houter]
  omega

/-! ### What becomes of the three parts -/

/-- What `write_half` makes of an exponent. -/
inductive HalfOf (s e m : ℕ) : UInt16 → Prop
  | small (h : e ≤ 112) : HalfOf s e m (halfBits s 0 0)
  | normal (hlow : 112 < e) (hhigh : e < 143) : HalfOf s e m (halfBits s (e - 112) (m / 2 ^ 13))
  | large (hlow : 143 ≤ e) (hhigh : e < 255) : HalfOf s e m (halfBits s 31 0)
  | infinite (h : e = 255) (hm : m = 0) : HalfOf s e m (halfBits s 31 0)
  | nan (h : e = 255) (hm : m ≠ 0) : HalfOf s e m (halfBits s 31 512)

theorem sign_shifted {sign : UInt32} (hs : sign.toNat = s) (hlt : s < 2) :
    (sign <<< 15).toUInt16 = halfBits s 0 0 := by
  have hhalf : ((sign <<< 15) ||| ((0 : UInt32) <<< 10) ||| 0).toUInt16 = halfBits s 0 0 :=
    half_assembled ⟨hlt, by decide, by decide⟩ hs rfl rfl
  rw [← hhalf]
  simp

theorem infinity_assembled {sign : UInt32} (hs : sign.toNat = s) (hlt : s < 2) :
    ((sign <<< 15) ||| ((0x1F : UInt32) <<< 10)).toUInt16 = halfBits s 31 0 := by
  have hhalf : ((sign <<< 15) ||| ((0x1F : UInt32) <<< 10) ||| 0).toUInt16 = halfBits s 31 0 :=
    half_assembled ⟨hlt, by decide, by decide⟩ hs rfl rfl
  rw [← hhalf, UInt32.or_zero]

theorem halfOfFloat_floatBits (h : FloatParts s e m) : HalfOf s e m (halfOfFloat (floatBits s e m)) := by
  obtain ⟨hs, he, hm⟩ := float_fields h
  have hsign : s < 2 := h.sign
  have hexponent : e < 256 := h.exponent
  have hmantissa : m < 2 ^ 23 := h.mantissa
  unfold halfOfFloat
  dsimp only
  generalize (floatBits s e m >>> 31) &&& 1 = sign at hs ⊢
  generalize (floatBits s e m >>> 23) &&& 0xFF = exponent at he ⊢
  generalize floatBits s e m &&& 0x7FFFFF = mantissa at hm ⊢
  by_cases hzero : exponent = 0
  · rw [if_pos hzero, sign_shifted hs hsign]
    have : e = 0 := by rw [← he, hzero]; rfl
    exact .small (by omega)
  rw [if_neg hzero]
  by_cases htop : exponent = 0xFF
  · rw [if_pos htop]
    have hall : e = 255 := by rw [← he, htop]; rfl
    by_cases hnan : mantissa = 0
    · have hm0 : m = 0 := by rw [← hm, hnan]; rfl
      rw [if_neg (not_not.mpr hnan), UInt32.or_zero, infinity_assembled hs hsign]
      exact .infinite hall hm0
    · have hm0 : m ≠ 0 := fun h0 => hnan (UInt32.toNat_inj.mp (hm.trans h0))
      rw [if_pos hnan, half_assembled (e := 31) (m := 512) ⟨hsign, by decide, by decide⟩ hs rfl rfl]
      exact .nan hall hm0
  have hbelow : e ≠ 255 := fun h0 => htop (UInt32.toNat_inj.mp (he.trans h0))
  rw [if_neg htop, he]
  by_cases hlarge : (e : ℤ) - 127 + 15 ≥ 31
  · rw [if_pos hlarge, infinity_assembled hs hsign]
    exact .large (by omega) (by omega)
  rw [if_neg hlarge]
  by_cases hsmall : (e : ℤ) - 127 + 15 ≤ 0
  · rw [if_pos hsmall, sign_shifted hs hsign]
    exact .small (by omega)
  rw [if_neg hsmall]
  have hexp : (UInt32.ofInt ((e : ℤ) - 127 + 15)).toNat = e - 112 := by
    have hmod : (((e : ℤ) - 127 + 15) % 2 ^ 32).toNat = e - 112 := by omega
    unfold UInt32.ofInt
    rw [hmod]
    exact UInt32.toNat_ofNat_of_lt' (by show _ < 2 ^ 32; omega)
  have hcut : (mantissa >>> 13).toUInt16.toUInt32.toNat = m / 2 ^ 13 := by
    rw [UInt16.toNat_toUInt32, UInt32.toNat_toUInt16, UInt32.toNat_shiftRight, hm,
      Nat.shiftRight_eq_div_pow]
    change m / 2 ^ 13 % 2 ^ 16 = _
    omega
  rw [half_assembled ⟨hsign, by omega, by omega⟩ hs hexp hcut]
  exact .normal (by omega) (by omega)

/-- What `read_half` makes of a half. -/
inductive FloatOf (s e m : ℕ) : UInt32 → Prop
  | zero (h : e = 0) : FloatOf s e m (floatBits s 0 0)
  | normal (hlow : 0 < e) (hhigh : e < 31) : FloatOf s e m (floatBits s (e + 112) (m * 2 ^ 13))
  | top (h : e = 31) : FloatOf s e m (floatBits s 255 (m * 2 ^ 13))

theorem floatOfHalf_halfBits (h : HalfParts s e m) : FloatOf s e m (floatOfHalf (halfBits s e m)) := by
  obtain ⟨hs, he, hm⟩ := half_fields h
  have hsign : s < 2 := h.sign
  have hexponent : e < 32 := h.exponent
  have hmantissa : m < 2 ^ 10 := h.mantissa
  unfold floatOfHalf
  dsimp only
  generalize (halfBits s e m >>> 15) &&& 1 = sign at hs ⊢
  generalize (halfBits s e m >>> 10) &&& 0x1F = exponent at he ⊢
  generalize halfBits s e m &&& 0x3FF = mantissa at hm ⊢
  have hs' : sign.toUInt32.toNat = s := by rw [UInt16.toNat_toUInt32, hs]
  have hm' : (mantissa.toUInt32 <<< 13).toNat = m * 2 ^ 13 := by
    rw [UInt32.toNat_shiftLeft, UInt16.toNat_toUInt32, hm, Nat.shiftLeft_eq]
    change m * 2 ^ 13 % 2 ^ 32 = _
    omega
  by_cases hzero : exponent = 0
  · have he0 : e = 0 := by rw [← he, hzero]; rfl
    have hfloat : (sign.toUInt32 <<< 31) ||| ((0 : UInt32) <<< 23) ||| 0 = floatBits s 0 0 :=
      float_assembled ⟨hsign, by decide, by decide⟩ hs' rfl rfl
    have hshift : sign.toUInt32 <<< 31 = floatBits s 0 0 := by
      rw [← hfloat]
      simp
    rw [if_pos hzero, hshift]
    exact .zero he0
  have hpos : e ≠ 0 := fun h0 => hzero (UInt16.toNat_inj.mp (he.trans h0))
  rw [if_neg hzero]
  by_cases htop : exponent = 0x1F
  · have he31 : e = 31 := by rw [← he, htop]; rfl
    rw [if_pos htop, float_assembled (e := 255) ⟨hsign, by decide, by omega⟩ hs' rfl hm']
    exact .top he31
  have hbelow : e ≠ 31 := fun h0 => htop (UInt16.toNat_inj.mp (he.trans h0))
  have hexp : (exponent.toUInt32 - 15 + 127).toNat = e + 112 := by
    rw [UInt32.toNat_add, UInt32.toNat_sub, UInt16.toNat_toUInt32, he]
    change ((2 ^ 32 - 15 + e) % 2 ^ 32 + 127) % 2 ^ 32 = _
    omega
  rw [if_neg htop, float_assembled ⟨hsign, by omega, by omega⟩ hs' hexp hm']
  exact .normal (by omega) (by omega)

/-- What a reader has of a float that was written as a half. -/
def throughHalf (ui : UInt32) : UInt32 := floatOfHalf (halfOfFloat ui)

theorem floatOfHalf_zero (hs : s < 2) : floatOfHalf (halfBits s 0 0) = floatBits s 0 0 := by
  have hout := floatOfHalf_halfBits (s := s) (e := 0) (m := 0) ⟨hs, by decide, by decide⟩
  generalize floatOfHalf (halfBits s 0 0) = y at hout ⊢
  cases hout with
  | zero => rfl
  | normal hlow => omega
  | top h => omega

theorem floatOfHalf_top (hs : s < 2) (hm : m < 2 ^ 10) :
    floatOfHalf (halfBits s 31 m) = floatBits s 255 (m * 2 ^ 13) := by
  have hout := floatOfHalf_halfBits (s := s) (e := 31) (m := m) ⟨hs, by decide, hm⟩
  generalize floatOfHalf (halfBits s 31 m) = y at hout ⊢
  cases hout with
  | zero h => omega
  | normal hlow hhigh => omega
  | top h => rfl

theorem floatOfHalf_normal (h : HalfParts s e m) (hlow : 0 < e) (hhigh : e < 31) :
    floatOfHalf (halfBits s e m) = floatBits s (e + 112) (m * 2 ^ 13) := by
  have hout := floatOfHalf_halfBits h
  generalize floatOfHalf (halfBits s e m) = y at hout ⊢
  cases hout with
  | zero h => omega
  | normal => rfl
  | top h => omega

/-- What a float becomes on its way. -/
inductive ThroughHalf (s e m : ℕ) : UInt32 → Prop
  | small (h : e ≤ 112) : ThroughHalf s e m (floatBits s 0 0)
  | normal (hlow : 112 < e) (hhigh : e < 143) : ThroughHalf s e m (floatBits s e (m / 2 ^ 13 * 2 ^ 13))
  | large (h : 143 ≤ e) (hm : e < 255 ∨ m = 0) : ThroughHalf s e m (floatBits s 255 0)
  | nan (h : e = 255) (hm : m ≠ 0) : ThroughHalf s e m (floatBits s 255 (2 ^ 22))

theorem throughHalf_floatBits (h : FloatParts s e m) : ThroughHalf s e m (throughHalf (floatBits s e m)) := by
  have hs : s < 2 := h.sign
  have hm : m < 2 ^ 23 := h.mantissa
  have hhalf := halfOfFloat_floatBits h
  unfold throughHalf
  generalize halfOfFloat (floatBits s e m) = half at hhalf ⊢
  cases hhalf with
  | small hle =>
    rw [floatOfHalf_zero hs]
    exact .small hle
  | normal hlow hhigh =>
    rw [floatOfHalf_normal ⟨hs, by omega, by omega⟩ (by omega) (by omega), Nat.sub_add_cancel (by omega)]
    exact .normal hlow hhigh
  | large hlow hhigh =>
    rw [floatOfHalf_top hs (by decide)]
    exact .large hlow (.inl hhigh)
  | infinite he hm0 =>
    rw [floatOfHalf_top hs (by decide)]
    exact .large (by omega) (.inr hm0)
  | nan he hm0 =>
    rw [floatOfHalf_top hs (by decide)]
    exact .nan he hm0

/-! ### Values -/

def signOf (ui : UInt32) : ℕ := ui.toNat / 2 ^ 31

def exponentOf (ui : UInt32) : ℕ := ui.toNat / 2 ^ 23 % 256

def mantissaOf (ui : UInt32) : ℕ := ui.toNat % 2 ^ 23

def IsFinite (ui : UInt32) : Prop := exponentOf ui ≠ 255

def IsInfinite (ui : UInt32) : Prop := exponentOf ui = 255 ∧ mantissaOf ui = 0

def IsNan (ui : UInt32) : Prop := exponentOf ui = 255 ∧ mantissaOf ui ≠ 0

/-- The absolute value of a finite float. -/
def magnitude (ui : UInt32) : ℚ :=
  if exponentOf ui = 0 then mantissaOf ui * 2 ^ (-149 : ℤ)
  else (2 ^ 23 + mantissaOf ui) * 2 ^ ((exponentOf ui : ℤ) - 150)

theorem signOf_floatBits (h : FloatParts s e m) : signOf (floatBits s e m) = s := by
  obtain ⟨hs, he, hm⟩ := id h
  unfold signOf
  rw [toNat_floatBits h]
  omega

theorem exponentOf_floatBits (h : FloatParts s e m) : exponentOf (floatBits s e m) = e := by
  obtain ⟨hs, he, hm⟩ := id h
  unfold exponentOf
  rw [toNat_floatBits h]
  omega

theorem mantissaOf_floatBits (h : FloatParts s e m) : mantissaOf (floatBits s e m) = m := by
  obtain ⟨hs, he, hm⟩ := id h
  unfold mantissaOf
  rw [toNat_floatBits h]
  omega

theorem magnitude_of_pos (h : FloatParts s e m) (hpos : e ≠ 0) :
    magnitude (floatBits s e m) = (2 ^ 23 + m) * 2 ^ ((e : ℤ) - 150) := by
  unfold magnitude
  rw [exponentOf_floatBits h, mantissaOf_floatBits h, if_neg hpos]

theorem magnitude_zero (hs : s < 2) : magnitude (floatBits s 0 0) = 0 := by
  have h : FloatParts s 0 0 := ⟨hs, by decide, by decide⟩
  unfold magnitude
  rw [exponentOf_floatBits h, mantissaOf_floatBits h, if_pos rfl, Nat.cast_zero, zero_mul]

/-- A float is less than the power of two above its exponent. -/
theorem magnitude_lt (h : FloatParts s e m) : magnitude (floatBits s e m) < 2 ^ ((e : ℤ) - 126) := by
  have hm : (m : ℚ) < 2 ^ 23 := by exact_mod_cast h.mantissa
  have hsplit : (2 : ℚ) ^ ((e : ℤ) - 126) = 2 ^ 24 * 2 ^ ((e : ℤ) - 150) := by
    rw [← zpow_natCast, ← zpow_add₀ two_ne_zero]
    congr 1
    push_cast
    ring
  have hscale : (0 : ℚ) < 2 ^ ((e : ℤ) - 150) := zpow_pos two_pos _
  by_cases hzero : e = 0
  · subst hzero
    unfold magnitude
    rw [exponentOf_floatBits h, mantissaOf_floatBits h, if_pos rfl]
    calc (m : ℚ) * 2 ^ (-149 : ℤ) < 2 ^ 23 * 2 ^ (-149 : ℤ) := by gcongr
      _ = 2 ^ (((0 : ℕ) : ℤ) - 126) := by norm_num
  · rw [magnitude_of_pos h hzero, hsplit]
    gcongr
    linarith

theorem le_magnitude (h : FloatParts s e m) (hpos : e ≠ 0) :
    (2 : ℚ) ^ ((e : ℤ) - 127) ≤ magnitude (floatBits s e m) := by
  have hsplit : (2 : ℚ) ^ ((e : ℤ) - 127) = 2 ^ 23 * 2 ^ ((e : ℤ) - 150) := by
    rw [← zpow_natCast, ← zpow_add₀ two_ne_zero]
    congr 1
    push_cast
    ring
  rw [magnitude_of_pos h hpos, hsplit]
  have hm : (0 : ℚ) ≤ m := Nat.cast_nonneg m
  have hscale : (0 : ℚ) < 2 ^ ((e : ℤ) - 150) := zpow_pos two_pos _
  gcongr
  linarith

/-- What is left of a float that goes as a half. -/
structure Halved (x y : UInt32) : Prop where
  sign : signOf y = signOf x
  nan : IsNan y ↔ IsNan x
  infinite : IsInfinite y ↔ IsInfinite x ∨ IsFinite x ∧ 2 ^ 16 ≤ magnitude x
  small : IsFinite x → magnitude x < 2 ^ (-14 : ℤ) → magnitude y = 0
  normal : IsFinite x → 2 ^ (-14 : ℤ) ≤ magnitude x → magnitude x < 2 ^ 16 →
    magnitude y ≤ magnitude x ∧ magnitude x - magnitude y < magnitude x * 2 ^ (-10 : ℤ)

theorem isFinite_floatBits (h : FloatParts s e m) : IsFinite (floatBits s e m) ↔ e ≠ 255 := by
  unfold IsFinite
  rw [exponentOf_floatBits h]

theorem isInfinite_floatBits (h : FloatParts s e m) : IsInfinite (floatBits s e m) ↔ e = 255 ∧ m = 0 := by
  unfold IsInfinite
  rw [exponentOf_floatBits h, mantissaOf_floatBits h]

theorem isNan_floatBits (h : FloatParts s e m) : IsNan (floatBits s e m) ↔ e = 255 ∧ m ≠ 0 := by
  unfold IsNan
  rw [exponentOf_floatBits h, mantissaOf_floatBits h]

/-- Which exponents belong to the floats that a half cannot hold. -/
theorem small_iff (h : FloatParts s e m) : magnitude (floatBits s e m) < 2 ^ (-14 : ℤ) ↔ e ≤ 112 := by
  constructor
  · intro hlt
    by_contra hlow
    have hle := le_magnitude h (by omega)
    have hpow : (2 : ℚ) ^ (-14 : ℤ) ≤ 2 ^ ((e : ℤ) - 127) := zpow_le_zpow_right₀ one_le_two (by omega)
    linarith
  · intro hle
    have hlt := magnitude_lt h
    have hpow : (2 : ℚ) ^ ((e : ℤ) - 126) ≤ 2 ^ (-14 : ℤ) := zpow_le_zpow_right₀ one_le_two (by omega)
    linarith

theorem large_iff (h : FloatParts s e m) : 2 ^ 16 ≤ magnitude (floatBits s e m) ↔ 143 ≤ e := by
  constructor
  · intro hle
    by_contra hlow
    have hlt := magnitude_lt h
    have hpow : (2 : ℚ) ^ ((e : ℤ) - 126) ≤ 2 ^ (16 : ℤ) := zpow_le_zpow_right₀ one_le_two (by omega)
    have hnat : (2 : ℚ) ^ (16 : ℤ) = 2 ^ 16 := zpow_natCast 2 16
    linarith
  · intro hge
    have hle := le_magnitude h (by omega)
    have hpow : (2 : ℚ) ^ (16 : ℤ) ≤ 2 ^ ((e : ℤ) - 127) := zpow_le_zpow_right₀ one_le_two (by omega)
    have hnat : (2 : ℚ) ^ (16 : ℤ) = 2 ^ 16 := zpow_natCast 2 16
    linarith

/-- Cutting off thirteen bits of the mantissa. -/
theorem magnitude_cut (h : FloatParts s e m) (hpos : e ≠ 0) :
    magnitude (floatBits s e (m / 2 ^ 13 * 2 ^ 13)) ≤ magnitude (floatBits s e m) ∧
      magnitude (floatBits s e m) - magnitude (floatBits s e (m / 2 ^ 13 * 2 ^ 13)) <
        magnitude (floatBits s e m) * 2 ^ (-10 : ℤ) := by
  have hlt : m < 2 ^ 23 := h.mantissa
  have hcut : FloatParts s e (m / 2 ^ 13 * 2 ^ 13) := ⟨h.sign, h.exponent, by omega⟩
  have hle : ((m / 2 ^ 13 * 2 ^ 13 : ℕ) : ℚ) ≤ m := by
    exact_mod_cast Nat.div_mul_le_self m (2 ^ 13)
  have hrest : (m : ℚ) < (m / 2 ^ 13 * 2 ^ 13 : ℕ) + 2 ^ 13 := by
    exact_mod_cast (by omega : m < m / 2 ^ 13 * 2 ^ 13 + 2 ^ 13)
  have hm : (0 : ℚ) ≤ m := Nat.cast_nonneg m
  have hscale : (0 : ℚ) < 2 ^ ((e : ℤ) - 150) := zpow_pos two_pos _
  rw [magnitude_of_pos h hpos, magnitude_of_pos hcut hpos]
  generalize ((m / 2 ^ 13 * 2 ^ 13 : ℕ) : ℚ) = cut at hle hrest ⊢
  constructor
  · gcongr
  · rw [← sub_mul, mul_right_comm]
    gcongr
    norm_num
    linarith

theorem halved (ui : UInt32) : Halved ui (throughHalf ui) := by
  obtain ⟨s, e, m, h, rfl⟩ := exists_floatBits ui
  have hs : s < 2 := h.sign
  have hm : m < 2 ^ 23 := h.mantissa
  have hsmall := small_iff h
  have hlarge := large_iff h
  have hout := throughHalf_floatBits h
  generalize throughHalf (floatBits s e m) = y at hout ⊢
  cases hout with
  | small hle =>
    have hy : FloatParts s 0 0 := ⟨hs, by decide, by decide⟩
    constructor
    · rw [signOf_floatBits hy, signOf_floatBits h]
    · rw [isNan_floatBits hy, isNan_floatBits h]
      omega
    · rw [isInfinite_floatBits hy, isInfinite_floatBits h, hlarge]
      omega
    · exact fun _ _ => magnitude_zero hs
    · intro _ hlow _
      exact absurd (hsmall.mpr hle) (not_lt.mpr hlow)
  | normal hlow hhigh =>
    have hy : FloatParts s e (m / 2 ^ 13 * 2 ^ 13) := ⟨hs, h.exponent, by omega⟩
    constructor
    · rw [signOf_floatBits hy, signOf_floatBits h]
    · rw [isNan_floatBits hy, isNan_floatBits h]
      omega
    · rw [isInfinite_floatBits hy, isInfinite_floatBits h, hlarge]
      omega
    · intro _ hlt
      have := hsmall.mp hlt
      omega
    · exact fun _ _ _ => magnitude_cut h (by omega)
  | large hle hor =>
    have hy : FloatParts s 255 0 := ⟨hs, by decide, by decide⟩
    constructor
    · rw [signOf_floatBits hy, signOf_floatBits h]
    · rw [isNan_floatBits hy, isNan_floatBits h]
      omega
    · rw [isInfinite_floatBits hy, isInfinite_floatBits h, isFinite_floatBits h, hlarge]
      omega
    · intro _ hlt
      have := hsmall.mp hlt
      omega
    · intro _ _ hlt
      exact absurd (hlarge.mpr hle) (not_le.mpr hlt)
  | nan he hm0 =>
    have hy : FloatParts s 255 (2 ^ 22) := ⟨hs, by decide, by decide⟩
    have hinf : ¬IsFinite (floatBits s e m) := fun hfin => (isFinite_floatBits h).mp hfin he
    constructor
    · rw [signOf_floatBits hy, signOf_floatBits h]
    · rw [isNan_floatBits hy, isNan_floatBits h]
      omega
    · rw [isInfinite_floatBits hy, isInfinite_floatBits h, isFinite_floatBits h]
      omega
    · exact fun hfin => absurd hfin hinf
    · exact fun hfin => absurd hfin hinf

/-- What came as a half goes on as the same half. -/
theorem halfOfFloat_throughHalf (ui : UInt32) : halfOfFloat (throughHalf ui) = halfOfFloat ui := by
  obtain ⟨s, e, m, h, rfl⟩ := exists_floatBits ui
  have hs : s < 2 := h.sign
  have hm : m < 2 ^ 23 := h.mantissa
  have hhalf := halfOfFloat_floatBits h
  unfold throughHalf
  generalize halfOfFloat (floatBits s e m) = half at hhalf ⊢
  -- a second time the exponent takes the same branch
  cases hhalf with
  | small hle =>
    have hagain := halfOfFloat_floatBits (s := s) (e := 0) (m := 0) ⟨hs, by decide, by decide⟩
    rw [floatOfHalf_zero hs]
    generalize halfOfFloat (floatBits s 0 0) = again at hagain ⊢
    cases hagain with
    | small => rfl
    | normal hlow => omega
    | large hlow => omega
    | infinite h => omega
    | nan h => omega
  | normal hlow hhigh =>
    have hagain := halfOfFloat_floatBits (s := s) (e := e) (m := m / 2 ^ 13 * 2 ^ 13)
      ⟨hs, h.exponent, by omega⟩
    rw [floatOfHalf_normal ⟨hs, by omega, by omega⟩ (by omega) (by omega), Nat.sub_add_cancel (by omega)]
    generalize halfOfFloat (floatBits s e (m / 2 ^ 13 * 2 ^ 13)) = again at hagain ⊢
    cases hagain with
    | small h => omega
    | normal => rw [Nat.mul_div_cancel _ (by decide)]
    | large hlow => omega
    | infinite h => omega
    | nan h => omega
  | large | infinite =>
    have hagain := halfOfFloat_floatBits (s := s) (e := 255) (m := 0) ⟨hs, by decide, by decide⟩
    rw [floatOfHalf_top hs (by decide), Nat.zero_mul]
    generalize halfOfFloat (floatBits s 255 0) = again at hagain ⊢
    cases hagain with
    | small h => omega
    | normal _ hhigh => omega
    | large _ hhigh => rfl
    | infinite => rfl
    | nan _ hm => omega
  | nan he hm0 =>
    have hagain := halfOfFloat_floatBits (s := s) (e := 255) (m := 512 * 2 ^ 13)
      ⟨hs, by decide, by decide⟩
    rw [floatOfHalf_top hs (by decide)]
    generalize halfOfFloat (floatBits s 255 (512 * 2 ^ 13)) = again at hagain ⊢
    cases hagain with
    | small h => omega
    | normal _ hhigh => omega
    | large _ hhigh => omega
    | infinite _ hm => omega
    | nan => rfl

theorem codes_half (ui : UInt32) :
    medium.Codes (alignment.seq fun _ => natBits 16 (halfOfFloat ui).toNat) (writeHalf ui) readHalf
      (throughHalf ui) := by
  have hword := codes_word UInt16.toUInt64 UInt64.toUInt16 16 (by omega) (halfOfFloat ui)
    (by simpa using (halfOfFloat ui).toNat_lt) (by simp)
  have hfloat := hword.map floatOfHalf
  rw [UInt16.toNat_toUInt64] at hfloat
  have hread : readHalf = (do alignReadToByte; floatOfHalf <$> UInt64.toUInt16 <$> readBits 16) := by
    unfold readHalf
    simp only [map_eq_pure_bind, bind_assoc, pure_bind]
  rw [hread]
  exact codes_align.bind hfloat

/-- A half anywhere in a stream: the reader has the float with its sign, its mantissa cut off, or zero
or infinity, and what was read is written as the same half. -/
theorem half_round_trip (ui : UInt32) :
    medium.Codes (alignment.seq fun _ => natBits 16 (halfOfFloat ui).toNat) (writeHalf ui) readHalf
        (throughHalf ui) ∧
      Halved ui (throughHalf ui) ∧ halfOfFloat (throughHalf ui) = halfOfFloat ui :=
  ⟨codes_half ui, halved ui, halfOfFloat_throughHalf ui⟩

end BitStream

end CampelloNet.Serialization
