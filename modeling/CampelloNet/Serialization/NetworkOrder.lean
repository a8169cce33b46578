import CampelloNet.Lib.Bits
import CampelloNet.Serialization.BitStream
/-!
# Words in network order

On a little-endian machine `to_net` puts the bytes of a word into the other order; on a big-endian one
it leaves them. Either way it undoes itself.
-/

namespace CampelloNet.Serialization.BitStream

open Lib

/-- Masking one byte. -/
theorem and_byte (x k : ℕ) : x &&& (255 * 2 ^ k) = x / 2 ^ k % 2 ^ 8 * 2 ^ k := by
  rw [← Nat.shiftLeft_eq, ← Nat.shiftLeft_eq, ← Nat.shiftRight_eq_div_pow,
    ← Nat.and_two_pow_sub_one_eq_mod]
  apply Nat.eq_of_testBit_eq
  intro i
  simp only [Nat.testBit_and, Nat.testBit_shiftLeft, Nat.testBit_shiftRight]
  by_cases hi : i ≥ k
  · simp [hi]
  · simp [hi]

theorem toNet16_little (v : UInt16) : toNet16 .little v = ofBe16 v.toUInt8 (v >>> 8).toUInt8 := by
  have hv := v.toNat_lt
  have hright : (v >>> 8).toNat = v.toNat / 2 ^ 8 := by
    rw [UInt16.toNat_shiftRight, Nat.shiftRight_eq_div_pow]
    rfl
  have hleft : (v <<< 8).toNat = v.toNat % 2 ^ 8 * 2 ^ 8 := by
    rw [UInt16.toNat_shiftLeft, Nat.shiftLeft_eq]
    change v.toNat * 2 ^ 8 % 2 ^ 16 = _
    omega
  apply UInt16.toNat_inj.mp
  rw [ofBe16_toNat, UInt16.toNat_toUInt8, UInt16.toNat_toUInt8, hright]
  unfold toNet16
  dsimp only
  rw [UInt16.or_comm, UInt16.toNat_or, hright, hleft, or_eq_add (k := 8) (by omega) (by omega)]
  omega

theorem toNet32_little (v : UInt32) : toNet32 .little v =
    ofBe32 v.toUInt8 (v >>> 8).toUInt8 (v >>> 16).toUInt8 (v >>> 24).toUInt8 := by
  have hv := v.toNat_lt
  have h0 : ((v >>> 24) &&& (0xFF : UInt32)) = (v >>> 24).toUInt8.toUInt32 := by
    apply UInt32.toNat_inj.mp
    rw [UInt32.toNat_and, UInt8.toNat_toUInt32, UInt32.toNat_toUInt8]
    exact Nat.and_two_pow_sub_one_eq_mod _ 8
  have h1 : ((v >>> 8) &&& (0xFF00 : UInt32)) = (v >>> 16).toUInt8.toUInt32 <<< 8 := by
    apply UInt32.toNat_inj.mp
    rw [shl32_toNat _ _ (by decide), UInt32.toNat_and, UInt32.toNat_toUInt8, UInt32.toNat_shiftRight,
      UInt32.toNat_shiftRight, Nat.shiftRight_eq_div_pow, Nat.shiftRight_eq_div_pow]
    change v.toNat / 2 ^ 8 &&& 255 * 2 ^ 8 = v.toNat / 2 ^ 16 % 2 ^ 8 * 2 ^ 8
    rw [and_byte, Nat.div_div_eq_div_mul]
    rfl
  have h2 : ((v <<< 8) &&& (0xFF0000 : UInt32)) = (v >>> 8).toUInt8.toUInt32 <<< 16 := by
    apply UInt32.toNat_inj.mp
    rw [shl32_toNat _ _ (by decide), UInt32.toNat_and, UInt32.toNat_toUInt8, UInt32.toNat_shiftRight,
      UInt32.toNat_shiftLeft, Nat.shiftRight_eq_div_pow, Nat.shiftLeft_eq]
    change v.toNat * 2 ^ 8 % 2 ^ 32 &&& 255 * 2 ^ 16 = v.toNat / 2 ^ 8 % 2 ^ 8 * 2 ^ 16
    rw [and_byte]
    omega
  have h3 : v <<< 24 = v.toUInt8.toUInt32 <<< 24 := by
    apply UInt32.toNat_inj.mp
    rw [shl32_toNat _ _ (by decide), UInt32.toNat_shiftLeft, UInt32.toNat_toUInt8, Nat.shiftLeft_eq]
    change v.toNat * 2 ^ 24 % 2 ^ 32 = v.toNat % 2 ^ 8 * 2 ^ 24
    omega
  unfold toNet32
  dsimp only
  rw [h0, h1, h2, h3]
  exact ofLe32_eq _ _ _ _

/-- A byte of the low half of a word. -/
theorem toUInt8_shiftRight_toUInt32 (v : UInt64) (k : UInt32) (j : UInt64) (hk : k.toNat ≤ 24)
    (hj : j.toNat = k.toNat) : (v.toUInt32 >>> k).toUInt8 = (v >>> j).toUInt8 := by
  apply UInt8.toNat_inj.mp
  rw [UInt32.toNat_toUInt8, UInt64.toNat_toUInt8, UInt32.toNat_shiftRight, UInt64.toNat_shiftRight,
    UInt64.toNat_toUInt32, Nat.mod_eq_of_lt (by omega : k.toNat < 32),
    Nat.mod_eq_of_lt (by omega : j.toNat < 64), hj]
  apply Nat.eq_of_testBit_eq
  intro i
  simp only [Nat.testBit_mod_two_pow, Nat.testBit_shiftRight]
  by_cases hi : i < 8
  · simp [hi]
    omega
  · simp [hi]

theorem toNet64_little (v : UInt64) : toNet64 .little v =
    ofBe64 v.toUInt8 (v >>> 8).toUInt8 (v >>> 16).toUInt8 (v >>> 24).toUInt8
      (v >>> 32).toUInt8 (v >>> 40).toUInt8 (v >>> 48).toUInt8 (v >>> 56).toUInt8 := by
  have hshift : ∀ j k : UInt64, j.toNat ≤ 24 → k.toNat = j.toNat + 32 → (v >>> 32) >>> j = v >>> k := by
    intro j k hj hk
    apply UInt64.toNat_inj.mp
    rw [UInt64.toNat_shiftRight, UInt64.toNat_shiftRight, UInt64.toNat_shiftRight,
      Nat.mod_eq_of_lt (by omega : j.toNat < 64), Nat.mod_eq_of_lt (by omega : k.toNat < 64), hk,
      Nat.add_comm, Nat.shiftRight_add]
    rfl
  have hlow : ∀ w : UInt64, w.toUInt32.toUInt8 = w.toUInt8 := by simp
  have h0 := (toNet32 .little v.toUInt32).toNat_lt
  have h1 := (toNet32 .little (v >>> 32).toUInt32).toNat_lt
  have hhigh : ((toNet32 .little v.toUInt32).toUInt64 <<< 32).toNat =
      (toNet32 .little v.toUInt32).toNat * 2 ^ 32 := by
    rw [UInt64.toNat_shiftLeft, Nat.shiftLeft_eq, UInt32.toNat_toUInt64]
    change _ * 2 ^ 32 % 2 ^ 64 = _
    omega
  apply UInt64.toNat_inj.mp
  unfold toNet64
  dsimp only
  rw [UInt64.toNat_or, hhigh, UInt32.toNat_toUInt64, or_eq_add (k := 32) (by omega) (by omega),
    toNet32_little, toNet32_little, ofBe32_toNat, ofBe32_toNat, ofBe64_toNat, hlow, hlow,
    toUInt8_shiftRight_toUInt32 v 8 8 (by decide) rfl, toUInt8_shiftRight_toUInt32 v 16 16 (by decide) rfl,
    toUInt8_shiftRight_toUInt32 v 24 24 (by decide) rfl, toUInt8_shiftRight_toUInt32 _ 8 8 (by decide) rfl,
    toUInt8_shiftRight_toUInt32 _ 16 16 (by decide) rfl, toUInt8_shiftRight_toUInt32 _ 24 24 (by decide) rfl,
    hshift 8 40 (by decide) rfl, hshift 16 48 (by decide) rfl, hshift 24 56 (by decide) rfl]
  ring

/-- The bytes of a word, given most significant first, in the order in which `to_net` leaves them. -/
def ordered (native : Endian) (data : Bytes) : Bytes :=
  match native with
  | .big => data
  | .little => data.reverse

@[simp] theorem length_ordered (native : Endian) (data : Bytes) :
    (ordered native data).length = data.length := by
  cases native <;> simp [ordered]

theorem ordered_ordered (native : Endian) (data : Bytes) :
    ordered native (ordered native data) = data := by
  cases native <;> simp [ordered]

section
variable (native : Endian)

theorem natBits_toNet16 (v : UInt16) :
    natBits 16 (toNet16 native v).toNat = bytesBits (ordered native (be16 v)) := by
  cases native with
  | big => exact natBits_be16 v
  | little =>
    rw [toNet16_little]
    exact natBits_ofBe16 _ _

theorem natBits_toNet32 (v : UInt32) :
    natBits 32 (toNet32 native v).toNat = bytesBits (ordered native (be32 v)) := by
  cases native with
  | big => exact natBits_be32 v
  | little =>
    rw [toNet32_little]
    exact natBits_ofBe32 _ _ _ _

theorem natBits_toNet64 (v : UInt64) :
    natBits 64 (toNet64 native v).toNat = bytesBits (ordered native (be64 v)) := by
  cases native with
  | big => exact natBits_be64 v
  | little =>
    rw [toNet64_little]
    exact natBits_ofBe64 _ _ _ _ _ _ _ _

theorem be16_toNet16 (v : UInt16) : be16 (toNet16 native v) = ordered native (be16 v) := by
  apply bytesBits_injective
  rw [← natBits_be16, natBits_toNet16]

theorem be32_toNet32 (v : UInt32) : be32 (toNet32 native v) = ordered native (be32 v) := by
  apply bytesBits_injective
  rw [← natBits_be32, natBits_toNet32]

theorem be64_toNet64 (v : UInt64) : be64 (toNet64 native v) = ordered native (be64 v) := by
  apply bytesBits_injective
  rw [← natBits_be64, natBits_toNet64]

@[simp] theorem toNet16_toNet16 (v : UInt16) : toNet16 native (toNet16 native v) = v := by
  apply UInt16.toNat_inj.mp
  apply natBits_injective (n := 16) (UInt16.toNat_lt _) v.toNat_lt
  rw [natBits_toNet16, be16_toNet16, ordered_ordered, natBits_be16]

@[simp] theorem toNet32_toNet32 (v : UInt32) : toNet32 native (toNet32 native v) = v := by
  apply UInt32.toNat_inj.mp
  apply natBits_injective (n := 32) (UInt32.toNat_lt _) v.toNat_lt
  rw [natBits_toNet32, be32_toNet32, ordered_ordered, natBits_be32]

@[simp] theorem toNet64_toNet64 (v : UInt64) : toNet64 native (toNet64 native v) = v := by
  apply UInt64.toNat_inj.mp
  apply natBits_injective (n := 64) (UInt64.toNat_lt _) v.toNat_lt
  rw [natBits_toNet64, be64_toNet64, ordered_ordered, natBits_be64]

end

end CampelloNet.Serialization.BitStream
