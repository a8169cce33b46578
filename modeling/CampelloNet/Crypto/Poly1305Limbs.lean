import CampelloNet.Crypto.Poly1305
import Mathlib.Tactic.IntervalCases

/-!
# The Poly1305 of the code

The limbs of the code are the digits of the accumulator: no product and no sum overflows, and the
message may come in any pieces. The packing at the end neither reduces the accumulator nor carries
its second digit, and the key is clamped by one bit less than in the standard; `poly1305_iff` says
when the tag is right all the same.
-/

namespace CampelloNet.Crypto

open Lib

namespace Poly1305

/-! ### The code's limbs -/

def digits (h : Limbs) : Digits :=
  ⟨h.l0.toNat, h.l1.toNat, h.l2.toNat, h.l3.toNat, h.l4.toNat⟩

theorem toNat_mask (x : UInt32) : (x &&& 0x3ffffff).toNat = x.toNat % 2 ^ 26 := by
  rw [UInt32.toNat_and]
  exact Nat.and_two_pow_sub_one_eq_mod x.toNat 26

theorem toNat_carry {d : UInt64} (h : d.toNat < 2 ^ 58) :
    (d >>> 26).toUInt32.toNat = d.toNat / 2 ^ 26 := by
  rw [UInt64.toNat_toUInt32, UInt64.toNat_shiftRight, Nat.shiftRight_eq_div_pow]
  simp only [UInt64.reduceToNat, Nat.reduceMod]
  omega

theorem toNat_low (d : UInt64) : (d.toUInt32 &&& 0x3ffffff).toNat = d.toNat % 2 ^ 26 := by
  rw [toNat_mask, UInt64.toNat_toUInt32]
  omega

theorem toNat_mul {a b : UInt32} : (a.toUInt64 * b.toUInt64).toNat = a.toNat * b.toNat := by
  rw [UInt64.toNat_mul, UInt32.toNat_toUInt64, UInt32.toNat_toUInt64]
  apply Nat.mod_eq_of_lt
  calc a.toNat * b.toNat < 2 ^ 32 * 2 ^ 32 :=
        Nat.mul_lt_mul'' a.toNat_lt b.toNat_lt
    _ = 2 ^ 64 := by norm_num

/-- The carries of `Limbs.mul`. -/
def carried (d0 d1 d2 d3 d4 : UInt64) : Limbs :=
  let c := (d0 >>> 26).toUInt32
  let h0 := d0.toUInt32 &&& 0x3ffffff
  let d1 := d1 + c.toUInt64
  let c := (d1 >>> 26).toUInt32
  let h1 := d1.toUInt32 &&& 0x3ffffff
  let d2 := d2 + c.toUInt64
  let c := (d2 >>> 26).toUInt32
  let h2 := d2.toUInt32 &&& 0x3ffffff
  let d3 := d3 + c.toUInt64
  let c := (d3 >>> 26).toUInt32
  let h3 := d3.toUInt32 &&& 0x3ffffff
  let d4 := d4 + c.toUInt64
  let c := (d4 >>> 26).toUInt32
  let h4 := d4.toUInt32 &&& 0x3ffffff
  let h0 := h0 + c * 5
  let c := h0 >>> 26
  let h0 := h0 &&& 0x3ffffff
  ⟨h0, h1 + c, h2, h3, h4⟩

theorem toNat_add_carry {d e : UInt64} (hd : d.toNat < 2 ^ 58) (he : e.toNat < 2 ^ 58) :
    (e + (d >>> 26).toUInt32.toUInt64).toNat = e.toNat + d.toNat / 2 ^ 26 := by
  rw [UInt64.toNat_add, UInt32.toNat_toUInt64, toNat_carry hd]
  omega

theorem digits_carried {d0 d1 d2 d3 d4 : UInt64} (h0 : d0.toNat < 7 * 2 ^ 55)
    (h1 : d1.toNat < 7 * 2 ^ 55) (h2 : d2.toNat < 7 * 2 ^ 55) (h3 : d3.toNat < 7 * 2 ^ 55)
    (h4 : d4.toNat < 3 * 2 ^ 54) :
    digits (carried d0 d1 d2 d3 d4) =
      Digits.reduce ⟨d0.toNat, d1.toNat, d2.toNat, d3.toNat, d4.toNat⟩ := by
  have e1 : (d1 + (d0 >>> 26).toUInt32.toUInt64).toNat = d1.toNat + d0.toNat / 2 ^ 26 :=
    toNat_add_carry (by omega) (by omega)
  generalize hf1 : d1 + (d0 >>> 26).toUInt32.toUInt64 = f1 at e1
  have e2 : (d2 + (f1 >>> 26).toUInt32.toUInt64).toNat = d2.toNat + f1.toNat / 2 ^ 26 :=
    toNat_add_carry (by omega) (by omega)
  generalize hf2 : d2 + (f1 >>> 26).toUInt32.toUInt64 = f2 at e2
  have e3 : (d3 + (f2 >>> 26).toUInt32.toUInt64).toNat = d3.toNat + f2.toNat / 2 ^ 26 :=
    toNat_add_carry (by omega) (by omega)
  generalize hf3 : d3 + (f2 >>> 26).toUInt32.toUInt64 = f3 at e3
  have e4 : (d4 + (f3 >>> 26).toUInt32.toUInt64).toNat = d4.toNat + f3.toNat / 2 ^ 26 :=
    toNat_add_carry (by omega) (by omega)
  generalize hf4 : d4 + (f3 >>> 26).toUInt32.toUInt64 = f4 at e4
  -- the top carry goes in at the bottom, where there is room for it
  have htop : ((d0.toUInt32 &&& (0x3ffffff : UInt32)) + (f4 >>> 26).toUInt32 * 5).toNat =
      d0.toNat % 2 ^ 26 + 5 * (f4.toNat / 2 ^ 26) := by
    rw [UInt32.toNat_add, UInt32.toNat_mul, toNat_low, toNat_carry (by omega)]
    simp only [UInt32.reduceToNat]
    omega
  simp only [carried, hf1, hf2, hf3, hf4]
  generalize (d0.toUInt32 &&& (0x3ffffff : UInt32)) + (f4 >>> 26).toUInt32 * 5 = low at htop
  have hlow : (low >>> 26).toNat = low.toNat / 2 ^ 26 := by
    rw [UInt32.toNat_shiftRight, Nat.shiftRight_eq_div_pow]
    rfl
  have hlast : ((f1.toUInt32 &&& (0x3ffffff : UInt32)) + low >>> 26).toNat =
      f1.toNat % 2 ^ 26 + low.toNat / 2 ^ 26 := by
    rw [UInt32.toNat_add, toNat_low, hlow]
    have := low.toNat_lt
    omega
  rw [Digits.reduce_eq]
  simp only [digits, toNat_mask low, toNat_low, hlast, htop, e1, e2, e3, e4]

section Column

variable {b : ℕ} {h0 h1 h2 h3 h4 x0 x1 x2 x3 x4 : UInt32}
  (hh0 : h0.toNat < 2 ^ 27 + 64) (hh1 : h1.toNat < 2 ^ 27 + 64) (hh2 : h2.toNat < 2 ^ 27 + 64)
  (hh3 : h3.toNat < 2 ^ 27 + 64) (hh4 : h4.toNat < 2 ^ 27 + 64)
  (hx0 : x0.toNat < b) (hx1 : x1.toNat < b) (hx2 : x2.toNat < b) (hx3 : x3.toNat < b)
  (hx4 : x4.toNat < b)

include hh0 hh1 hh2 hh3 hh4 hx0 hx1 hx2 hx3 hx4

theorem column_lt : h0.toNat * x0.toNat + h1.toNat * x1.toNat + h2.toNat * x2.toNat +
    h3.toNat * x3.toNat + h4.toNat * x4.toNat < 5 * ((2 ^ 27 + 64) * b) := by
  have t0 := Nat.mul_lt_mul'' hh0 hx0
  have t1 := Nat.mul_lt_mul'' hh1 hx1
  have t2 := Nat.mul_lt_mul'' hh2 hx2
  have t3 := Nat.mul_lt_mul'' hh3 hx3
  have t4 := Nat.mul_lt_mul'' hh4 hx4
  omega

theorem toNat_column (hb : b ≤ 2 ^ 26 * 5) :
    (h0.toUInt64 * x0.toUInt64 + h1.toUInt64 * x1.toUInt64 + h2.toUInt64 * x2.toUInt64 +
      h3.toUInt64 * x3.toUInt64 + h4.toUInt64 * x4.toUInt64).toNat =
    h0.toNat * x0.toNat + h1.toNat * x1.toNat + h2.toNat * x2.toNat + h3.toNat * x3.toNat +
      h4.toNat * x4.toNat := by
  have hlt := column_lt hh0 hh1 hh2 hh3 hh4 hx0 hx1 hx2 hx3 hx4
  simp only [UInt64.toNat_add, toNat_mul]
  omega

end Column

theorem digits_mul {h r : Limbs} (hh : (digits h).Below (2 ^ 27 + 64)) (hr : (digits r).Below (2 ^ 26)) :
    digits (h.mul r) = ((digits h).mul (digits r)).reduce := by
  have hfive : ∀ x : UInt32, x.toNat < 2 ^ 26 → (x * 5).toNat = x.toNat * 5 := by
    intro x hx
    rw [UInt32.toNat_mul]
    simp only [UInt32.reduceToNat]
    omega
  obtain ⟨hh0, hh1, hh2, hh3, hh4⟩ := hh
  obtain ⟨hr0, hr1, hr2, hr3, hr4⟩ := hr
  simp only [digits] at hh0 hh1 hh2 hh3 hh4 hr0 hr1 hr2 hr3 hr4
  have s1 := hfive r.l1 hr1
  have s2 := hfive r.l2 hr2
  have s3 := hfive r.l3 hr3
  have s4 := hfive r.l4 hr4
  have lt_five : ∀ x : UInt32, x.toNat < 2 ^ 26 → x.toNat < 2 ^ 26 * 5 := fun x hx => by omega
  have five_lt : ∀ x : UInt32, x.toNat < 2 ^ 26 → (x * 5).toNat < 2 ^ 26 * 5 := by
    intro x hx
    rw [hfive x hx]
    omega
  have c0 := toNat_column hh0 hh1 hh2 hh3 hh4 (lt_five _ hr0) (five_lt _ hr4) (five_lt _ hr3)
    (five_lt _ hr2) (five_lt _ hr1) le_rfl
  have c1 := toNat_column hh0 hh1 hh2 hh3 hh4 (lt_five _ hr1) (lt_five _ hr0) (five_lt _ hr4)
    (five_lt _ hr3) (five_lt _ hr2) le_rfl
  have c2 := toNat_column hh0 hh1 hh2 hh3 hh4 (lt_five _ hr2) (lt_five _ hr1) (lt_five _ hr0)
    (five_lt _ hr4) (five_lt _ hr3) le_rfl
  have c3 := toNat_column hh0 hh1 hh2 hh3 hh4 (lt_five _ hr3) (lt_five _ hr2) (lt_five _ hr1)
    (lt_five _ hr0) (five_lt _ hr4) le_rfl
  have c4 := toNat_column hh0 hh1 hh2 hh3 hh4 hr4 hr3 hr2 hr1 hr0 (by decide)
  have b0 := column_lt hh0 hh1 hh2 hh3 hh4 (lt_five _ hr0) (five_lt _ hr4) (five_lt _ hr3)
    (five_lt _ hr2) (five_lt _ hr1)
  have b1 := column_lt hh0 hh1 hh2 hh3 hh4 (lt_five _ hr1) (lt_five _ hr0) (five_lt _ hr4)
    (five_lt _ hr3) (five_lt _ hr2)
  have b2 := column_lt hh0 hh1 hh2 hh3 hh4 (lt_five _ hr2) (lt_five _ hr1) (lt_five _ hr0)
    (five_lt _ hr4) (five_lt _ hr3)
  have b3 := column_lt hh0 hh1 hh2 hh3 hh4 (lt_five _ hr3) (lt_five _ hr2) (lt_five _ hr1)
    (lt_five _ hr0) (five_lt _ hr4)
  have b4 := column_lt hh0 hh1 hh2 hh3 hh4 hr4 hr3 hr2 hr1 hr0
  have hmul := digits_carried (c0 ▸ b0.trans (by decide)) (c1 ▸ b1.trans (by decide))
    (c2 ▸ b2.trans (by decide)) (c3 ▸ b3.trans (by decide)) (c4 ▸ b4.trans (by decide))
  rw [c0, c1, c2, c3, c4, s1, s2, s3, s4] at hmul
  exact hmul

/-! ### Blocks in limbs -/

theorem toNat_or {x y : UInt32} (k : ℕ) (hy : y.toNat % 2 ^ k = 0) (hx : x.toNat < 2 ^ k) :
    (x ||| y).toNat = x.toNat + y.toNat := by
  rw [UInt32.toNat_or, Nat.or_comm, or_eq_add hy hx, Nat.add_comm]

theorem toNat_shiftLeft (b : UInt32) (s k : ℕ) (hs : s + k = 32) (hs0 : 0 < s) :
    (b <<< .ofNat k).toNat = b.toNat % 2 ^ s * 2 ^ k := by
  have hks : k % 2 ^ 32 % 32 = k := by omega
  have hsplit : 2 ^ 32 = 2 ^ s * 2 ^ k := by rw [← Nat.pow_add, hs]
  rw [UInt32.toNat_shiftLeft, UInt32.toNat_ofNat', Nat.shiftLeft_eq, hks, hsplit,
    Nat.mul_mod_mul_right]

theorem toNat_shiftRight (a : UInt32) {s : ℕ} (hs : s < 32) :
    (a >>> .ofNat s).toNat = a.toNat / 2 ^ s := by
  have hss : s % 2 ^ 32 % 32 = s := by omega
  rw [UInt32.toNat_shiftRight, UInt32.toNat_ofNat', Nat.shiftRight_eq_div_pow, hss]

/-- A digit out of two words. -/
theorem toNat_limb {a b : UInt32} (s k : ℕ) (hs : s + k = 32) (hs0 : 0 < s) (hk : 0 < k) :
    (((a >>> .ofNat s) ||| (b <<< .ofNat k)) &&& 0x3ffffff).toNat =
      (a.toNat / 2 ^ s + b.toNat % 2 ^ s * 2 ^ k) % 2 ^ 26 := by
  have hhigh := toNat_shiftLeft b s k hs hs0
  have hlow := toNat_shiftRight a (s := s) (by omega)
  have hlt : a.toNat / 2 ^ s < 2 ^ k := by
    apply Nat.div_lt_of_lt_mul
    rw [← Nat.pow_add, hs]
    exact a.toNat_lt
  rw [toNat_mask, toNat_or k (hhigh ▸ Nat.mul_mod_left _ _) (hlow ▸ hlt), hhigh, hlow]

theorem digits_ofBlock {m : Bytes} {hibit : UInt32} (h : m.length = 16)
    (hbit : hibit.toNat % 2 ^ 24 = 0) :
    digits (.ofBlock m hibit) = .ofNat (leNat m + hibit.toNat * 2 ^ 104) := by
  have hn := leNat_lt m
  rw [h] at hn
  have w0 := toNat_load32le (l := m) (by omega)
  have w1 := toNat_load32le (l := m.drop 4) (by rw [List.length_drop]; omega)
  have w2 := toNat_load32le (l := m.drop 8) (by rw [List.length_drop]; omega)
  have w3 := toNat_load32le (l := m.drop 12) (by rw [List.length_drop]; omega)
  rw [leNat_drop (by omega)] at w1 w2 w3
  simp only [Limbs.ofBlock]
  generalize load32le m = b0 at w0
  generalize load32le (m.drop 4) = b1 at w1
  generalize load32le (m.drop 8) = b2 at w2
  generalize load32le (m.drop 12) = b3 at w3
  generalize leNat m = n at hn w0 w1 w2 w3
  have hn : n = b0.toNat + 2 ^ 32 * b1.toNat + 2 ^ 64 * b2.toNat + 2 ^ 96 * b3.toNat := by
    omega
  have l1 := toNat_limb (a := b0) (b := b1) 26 6 rfl (by decide) (by decide)
  have l2 := toNat_limb (a := b1) (b := b2) 20 12 rfl (by decide) (by decide)
  have l3 := toNat_limb (a := b2) (b := b3) 14 18 rfl (by decide) (by decide)
  have l4 : ((b3 >>> 8) ||| hibit).toNat = b3.toNat / 2 ^ 8 + hibit.toNat := by
    have hdiv : (b3 >>> 8).toNat = b3.toNat / 2 ^ 8 := by
      rw [UInt32.toNat_shiftRight, Nat.shiftRight_eq_div_pow]
      rfl
    have := b3.toNat_lt
    rw [toNat_or 24 hbit, hdiv]
    omega
  simp only [digits, Digits.ofNat, Digits.mk.injEq]
  refine ⟨(toNat_mask b0).trans ?_, l1.trans ?_, l2.trans ?_, l3.trans ?_, l4.trans ?_⟩
  · omega
  · omega
  · omega
  · omega
  · omega

/-! ### One block -/

/-- What the carries leave: the second digit may be above 26 bits. -/
structure Small (d : Digits) : Prop where
  d0 : d.d0 < 2 ^ 26
  d1 : d.d1 < 2 ^ 26 + 64
  d2 : d.d2 < 2 ^ 26
  d3 : d.d3 < 2 ^ 26
  d4 : d.d4 < 2 ^ 26

theorem small_mul (h r : Limbs) : Small (digits (h.mul r)) := by
  have hmask : ∀ x : UInt32, (x &&& (0x3ffffff : UInt32)).toNat < 2 ^ 26 := by
    intro x
    rw [toNat_mask]
    exact Nat.mod_lt _ (by decide)
  refine ⟨hmask _, ?_, hmask _, hmask _, hmask _⟩
  have hadd : ∀ x y : UInt32, ((x &&& (0x3ffffff : UInt32)) + y >>> 26).toNat < 2 ^ 26 + 64 := by
    intro x y
    have hx := hmask x
    have hy := y.toNat_lt
    rw [UInt32.toNat_add, UInt32.toNat_shiftRight, Nat.shiftRight_eq_div_pow]
    simp only [UInt32.reduceToNat, Nat.reduceMod]
    omega
  exact hadd _ _

theorem below_ofNat {n : ℕ} (h : n < 2 ^ 129) : (Digits.ofNat n).Below (2 ^ 26) := by
  refine ⟨Nat.mod_lt _ (by decide), Nat.mod_lt _ (by decide), Nat.mod_lt _ (by decide),
    Nat.mod_lt _ (by decide), ?_⟩
  simp only [Digits.ofNat]
  omega

theorem below_block {m : Bytes} {hibit : UInt32} (hm : m.length = 16) (hbit : hibit.toNat % 2 ^ 24 = 0)
    (hhibit : hibit.toNat ≤ 2 ^ 24) : (digits (Limbs.ofBlock m hibit)).Below (2 ^ 26) := by
  have hn := leNat_lt m
  rw [hm] at hn
  rw [digits_ofBlock hm hbit]
  apply below_ofNat
  omega

/-- A block on what the carries have left: no limb overflows, and the product has room. -/
theorem digits_add {h m : Limbs} (hh : Small (digits h)) (hm : (digits m).Below (2 ^ 26)) :
    digits (h.add m) = (digits h).add (digits m) ∧ (digits (h.add m)).Below (2 ^ 27 + 64) := by
  obtain ⟨h0, h1, h2, h3, h4⟩ := hh
  obtain ⟨m0, m1, m2, m3, m4⟩ := hm
  have hadd : digits (h.add m) = (digits h).add (digits m) := by
    simp only [digits, Limbs.add, Digits.add, UInt32.toNat_add, Digits.mk.injEq] at *
    omega
  refine ⟨hadd, ?_⟩
  rw [hadd]
  simp only [Digits.add]
  constructor <;> simp only <;> omega

theorem digits_absorb {st : Poly1305State} {r : ℕ} (hr : digits st.r = .ofNat r) (hlt : r < 2 ^ 129)
    (hsmall : Small (digits st.h)) {m : Bytes} {hibit : UInt32} (hm : m.length = 16)
    (hbit : hibit.toNat % 2 ^ 24 = 0) (hhibit : hibit.toNat ≤ 2 ^ 24) :
    digits (st.absorb m hibit).h =
      (((digits st.h).add (.ofNat (leNat m + hibit.toNat * 2 ^ 104))).mul (.ofNat r)).reduce := by
  obtain ⟨hadd, hbelow⟩ := digits_add hsmall (below_block hm hbit hhibit)
  rw [Poly1305State.absorb, digits_mul hbelow, hadd, hr, digits_ofBlock hm hbit]
  rw [hr]
  exact below_ofNat hlt

/-! ### The start -/

theorem and_full (x : UInt8) : x &&& 0xff = x := by
  apply UInt8.toNat_inj.mp
  rw [UInt8.toNat_and]
  exact (Nat.and_two_pow_sub_one_eq_mod x.toNat 8).trans (Nat.mod_eq_of_lt x.toNat_lt)

theorem load32le_take (l : Bytes) {n : ℕ} (h : 4 ≤ n) : load32le (l.take n) = load32le l := by
  obtain ⟨n, rfl⟩ := Nat.exists_eq_add_of_le' h
  match l with
  | [] => rfl
  | [_] => rfl
  | [_, _] => rfl
  | [_, _, _] => rfl
  | _ :: _ :: _ :: _ :: _ => rfl

theorem digits_init (key : Key) : digits (poly1305Init key).r = .ofNat (clamp 0xfe key) := by
  have hmask : ∀ x : UInt32, (x >>> 8) &&& (0x3ffffff : UInt32) = x >>> 8 := by
    intro x
    apply UInt32.toNat_inj.mp
    rw [toNat_mask, UInt32.toNat_shiftRight, Nat.shiftRight_eq_div_pow]
    have := x.toNat_lt
    simp only [UInt32.reduceToNat, Nat.reduceMod]
    omega
  have hlength : (List.zipWith (· &&& ·) key.toList (clampMask 0xfe)).length = 16 := by
    rw [List.length_zipWith, Vector.length_toList]
    rfl
  -- the bytes of `clamp`, as the code makes them
  have hclamped : (key.set 3 (key[3] &&& 0x0f) |>.set 7 (key[7] &&& 0x0f)
      |>.set 11 (key[11] &&& 0x0f) |>.set 15 (key[15] &&& 0x0f) |>.set 4 (key[4] &&& 0xfe)
      |>.set 8 (key[8] &&& 0xfe) |>.set 12 (key[12] &&& 0xfe)).toList.take 16 =
      List.zipWith (· &&& ·) key.toList (clampMask 0xfe) := by
    simp only [Vector.toList_set, clampMask]
    apply List.ext_getElem
    · simp
    · intro i h1 h2
      have hi : i < 16 := by
        rw [List.length_take] at h1
        omega
      interval_cases i <;> simp [and_full]
  have hr : (poly1305Init key).r =
      .ofBlock (List.zipWith (· &&& ·) key.toList (clampMask 0xfe)) 0 := by
    rw [← hclamped, Limbs.ofBlock]
    simp only [List.drop_take, load32le_take _ (show 4 ≤ 16 by decide),
      load32le_take _ (show 4 ≤ 16 - 4 by decide), load32le_take _ (show 4 ≤ 16 - 8 by decide),
      load32le_take _ (show 4 ≤ 16 - 12 by decide), UInt32.or_zero]
    simp [poly1305Init, hmask]
  rw [hr, digits_ofBlock hlength rfl]
  rfl

theorem clamp_lt (low : UInt8) (key : Key) : clamp low key < 2 ^ 129 := by
  have hlt := leNat_lt (List.zipWith (· &&& ·) key.toList (clampMask low))
  have hlength : (List.zipWith (· &&& ·) key.toList (clampMask low)).length = 16 := by
    rw [List.length_zipWith, Vector.length_toList]
    rfl
  rw [hlength] at hlt
  exact hlt.trans (by decide)

/-! ### The message in pieces -/

/-- The state has taken in the message: whole blocks in the accumulator, the rest in the buffer. -/
structure Taken (key : Key) (message : Bytes) (st : Poly1305State) : Prop where
  r : st.r = (poly1305Init key).r
  pad : st.pad = (poly1305Init key).pad
  small : Small (digits st.h)
  absorbed : Absorbed 16 (Digits.step (clamp 0xfe key)) ⟨0, 0, 0, 0, 0⟩ message (digits st.h) st.buffer

variable {key : Key} {message : Bytes} {st : Poly1305State}

theorem taken_init (key : Key) : Taken key [] (poly1305Init key) :=
  have hzero : digits (poly1305Init key).h = ⟨0, 0, 0, 0, 0⟩ := rfl
  ⟨rfl, rfl, hzero ▸ ⟨by decide, by decide, by decide, by decide, by decide⟩, .nil (by decide)⟩

theorem digits_absorb_block (hr : st.r = (poly1305Init key).r) (hsmall : Small (digits st.h)) {m : Bytes}
    (hm : m.length = 16) :
    digits (st.absorb m hibit).h = Digits.step (clamp 0xfe key) (digits st.h) m := by
  rw [digits_absorb (hr ▸ digits_init key) (clamp_lt _ key) hsmall hm (by decide) (by decide),
    Digits.step, leNat_append, hm]
  rfl

/-- The loop over whole blocks. -/
theorem poly1305Blocks_spec (n : ℕ) (hr : st.r = (poly1305Init key).r) (hsmall : Small (digits st.h))
    {m : Bytes} (hm : m.length = 16 * n) :
    digits (poly1305Blocks hibit n m st).h =
        absorb 16 (Digits.step (clamp 0xfe key)) n (digits st.h) m ∧
      Small (digits (poly1305Blocks hibit n m st).h) ∧
      (poly1305Blocks hibit n m st).r = st.r ∧ (poly1305Blocks hibit n m st).pad = st.pad := by
  induction n generalizing m st with
  | zero => exact ⟨rfl, hsmall, rfl, rfl⟩
  | succ n ih =>
    have hblock : (m.take 16).length = 16 := by
      rw [List.length_take]
      omega
    have hrest : (m.drop 16).length = 16 * n := by
      rw [List.length_drop]
      omega
    have hr' : (st.absorb (m.take 16) hibit).r = (poly1305Init key).r := hr
    rw [poly1305Blocks, absorb, ← digits_absorb_block hr hsmall hblock]
    exact ih hr' (small_mul _ _) hrest

theorem poly1305Blocks_take (n : ℕ) (m : Bytes) :
    poly1305Blocks hibit n m st = poly1305Blocks hibit n (m.take (16 * n)) st := by
  induction n generalizing m st with
  | zero => rfl
  | succ n ih =>
    rw [poly1305Blocks, poly1305Blocks, List.take_take, List.drop_take, ih,
      Nat.min_eq_left (by omega), Nat.mul_succ, Nat.add_sub_cancel]

theorem taken_whole (h : Taken key message st) (hbuffer : st.buffer = []) (m : Bytes) :
    Taken key (message ++ m) (poly1305Whole st m) := by
  have hlength : (m.take (16 * (m.length / 16))).length = 16 * (m.length / 16) := by
    rw [List.length_take]
    omega
  have habsorbed := h.absorbed
  rw [hbuffer] at habsorbed
  obtain ⟨hdigits, hsmall, hr, hpad⟩ := poly1305Blocks_spec (m.length / 16) h.r h.small hlength
  rw [← poly1305Blocks_take] at hdigits hsmall hr hpad
  refine ⟨hr.trans h.r, hpad.trans h.pad, hsmall, ?_⟩
  have hrest : ([] : Bytes).length + (m.drop (16 * (m.length / 16))).length < 16 := by
    rw [List.length_nil, List.length_drop]
    omega
  have hwhole := (habsorbed.whole hlength).keep hrest
  rw [List.append_assoc, List.take_append_drop, ← hdigits] at hwhole
  simp only [poly1305Whole, hbuffer]
  exact hwhole

theorem taken_update (h : Taken key message st) (m : Bytes) :
    Taken key (message ++ m) (poly1305Update st m) := by
  have hfits := h.absorbed.fits
  rw [poly1305Update]
  split
  · simp only
    split
    · rename_i hshort
      -- all of it fits into the buffer
      have hall : m.take (min (16 - st.buffer.length) m.length) = m := by
        rw [List.length_append, List.length_take] at hshort
        apply List.take_of_length_le
        omega
      rw [hall] at hshort ⊢
      rw [List.length_append] at hshort
      exact ⟨h.r, h.pad, h.small, h.absorbed.keep hshort⟩
    · rename_i hfull
      -- the block in the buffer is full
      have hlength : st.buffer.length + (m.take (min (16 - st.buffer.length) m.length)).length = 16 := by
        rw [List.length_append, List.length_take] at hfull
        rw [List.length_take]
        omega
      have hblock : (st.buffer ++ m.take (min (16 - st.buffer.length) m.length)).length = 16 := by
        rw [List.length_append, hlength]
      have hfill := h.absorbed.fill hlength
      rw [← digits_absorb_block h.r h.small hblock] at hfill
      nth_rewrite 1 [← List.take_append_drop (min (16 - st.buffer.length) m.length) m]
      rw [← List.append_assoc]
      apply taken_whole _ rfl
      exact ⟨h.r, h.pad, small_mul _ _, hfill⟩
  · rename_i hempty
    exact taken_whole h (List.length_eq_zero_iff.mp (not_not.mp hempty)) m

theorem taken_chunks (h : Taken key message st) (chunks : List Bytes) :
    Taken key (message ++ chunks.flatten) (chunks.foldl poly1305Update st) := by
  induction chunks generalizing message st with
  | nil =>
    rw [List.flatten_nil, List.append_nil]
    exact h
  | cons chunk chunks ih =>
    rw [List.flatten_cons, ← List.append_assoc]
    exact ih (taken_update h chunk)

/-! ### The tag -/

/-- The accumulator at the end of the message. -/
theorem digits_last (h : Taken key message st) :
    let last := if st.buffer.length ≠ 0 then
        st.absorb (st.buffer ++ 1 :: List.replicate (15 - st.buffer.length) 0) 0
      else st
    digits last.h = Digits.residue (clamp 0xfe key) message ∧ Small (digits last.h) ∧ last.pad = st.pad := by
  have hfits := h.absorbed.fits
  rw [Digits.residue, h.absorbed.absorbAll_eq]
  cases hbuffer : st.buffer with
  | nil => exact ⟨rfl, h.small, rfl⟩
  | cons b buffer =>
    rw [hbuffer] at hfits
    have hlength : (b :: buffer ++ 1 :: List.replicate (15 - (b :: buffer).length) 0).length = 16 := by
      rw [List.length_append, List.length_cons (a := 1), List.length_replicate]
      omega
    have hbytes : b :: buffer ++ 1 :: List.replicate (15 - (b :: buffer).length) 0 =
        (b :: buffer ++ [1]) ++ List.replicate (15 - (b :: buffer).length) 0 :=
      List.append_cons _ _ _
    have hbit : (0 : UInt32).toNat % 2 ^ 24 = 0 := rfl
    have hlast := digits_absorb (h.r ▸ digits_init key) (clamp_lt _ key) h.small hlength hbit (by decide)
    rw [UInt32.toNat_zero, Nat.zero_mul, Nat.add_zero, hbytes, leNat_zeros, ← hbytes] at hlast
    rw [if_neg (List.cons_ne_nil b buffer)]
    simp only [List.length_cons, ne_eq, Nat.add_eq_zero_iff, one_ne_zero, and_false, not_false_eq_true,
      if_true]
    exact ⟨hlast, small_mul _ _, rfl⟩

/-- The number in the words of the packed accumulator. -/
def wordsNat : List UInt32 → ℕ
  | [] => 0
  | w :: words => w.toNat + 2 ^ 32 * wordsNat words

/-- The bit of a carry is lost in an odd digit. -/
theorem toNat_or_carry {x y : UInt32} (hx : x.toNat ≤ 2 ^ 20) (hy : y.toNat % 2 ^ 20 = 0) :
    (x ||| y).toNat + (if x.toNat = 2 ^ 20 ∧ y.toNat / 2 ^ 20 % 2 = 1 then 2 ^ 20 else 0) =
      x.toNat + y.toNat := by
  by_cases hcarry : x.toNat = 2 ^ 20
  · by_cases hodd : y.toNat / 2 ^ 20 % 2 = 1
    · rw [if_pos ⟨hcarry, hodd⟩]
      -- the odd digit has the bit already
      have hy' : y.toNat = y.toNat - 2 ^ 20 ||| 2 ^ 20 := by
        rw [or_eq_add (k := 21) (by omega) (by decide)]
        omega
      have hidem : 2 ^ 20 ||| y.toNat = y.toNat := by
        rw [hy', Nat.or_comm, Nat.or_assoc, Nat.or_self]
      rw [UInt32.toNat_or, hcarry, hidem, Nat.add_comm]
    · rw [if_neg (fun h => hodd h.2), toNat_or 21 (by omega) (by omega)]
      rfl
  · rw [if_neg (fun h => hcarry h.1), toNat_or 20 hy (by omega)]
    rfl

/-- Packing keeps the low 128 bits, but for a carry out of the second digit into an odd one. -/
theorem wordsNat_pack {h : Limbs} (hsmall : Small (digits h)) :
    wordsNat h.pack.toList +
      (if 2 ^ 26 ≤ (digits h).d1 ∧ (digits h).d2 % 2 = 1 then 2 ^ 52 else 0) ≡
        (digits h).value [MOD 2 ^ 128] := by
  obtain ⟨l0, l1, l2, l3, l4⟩ := h
  obtain ⟨h0, h1, h2, h3, h4⟩ := hsmall
  simp only [digits] at h0 h1 h2 h3 h4
  have w0 : (l0 ||| (l1 <<< 26)).toNat = l0.toNat + l1.toNat % 2 ^ 6 * 2 ^ 26 := by
    have hshift := toNat_shiftLeft l1 6 26 rfl (by decide)
    exact (toNat_or 26 (hshift ▸ Nat.mul_mod_left _ _) h0).trans (congrArg _ hshift)
  have w1 : ((l1 >>> 6) ||| (l2 <<< 20)).toNat +
      (if 2 ^ 26 ≤ l1.toNat ∧ l2.toNat % 2 = 1 then 2 ^ 20 else 0) =
        l1.toNat / 2 ^ 6 + l2.toNat % 2 ^ 12 * 2 ^ 20 := by
    have hshift : (l2 <<< 20).toNat = l2.toNat % 2 ^ 12 * 2 ^ 20 := toNat_shiftLeft l2 12 20 rfl (by decide)
    have hright : (l1 >>> 6).toNat = l1.toNat / 2 ^ 6 := toNat_shiftRight l1 (by decide)
    have hor := toNat_or_carry (x := l1 >>> 6) (y := l2 <<< 20)
      (by rw [hright]; omega) (hshift ▸ Nat.mul_mod_left _ _)
    have hcarry : l1.toNat / 2 ^ 6 = 2 ^ 20 ↔ 2 ^ 26 ≤ l1.toNat := by omega
    have hodd : l2.toNat % 2 ^ 12 * 2 ^ 20 / 2 ^ 20 % 2 = 1 ↔ l2.toNat % 2 = 1 := by omega
    rw [hright, hshift] at hor
    simp only [hcarry, hodd] at hor
    exact hor
  have w2 : ((l2 >>> 12) ||| (l3 <<< 14)).toNat =
      l2.toNat / 2 ^ 12 + l3.toNat % 2 ^ 18 * 2 ^ 14 := by
    have hshift := toNat_shiftLeft l3 18 14 rfl (by decide)
    have hright := toNat_shiftRight l2 (s := 12) (by decide)
    exact (toNat_or 14 (hshift ▸ Nat.mul_mod_left _ _) (hright ▸ (by omega))).trans
      (congrArg₂ _ hright hshift)
  have w3 : ((l3 >>> 18) ||| ((l4 &&& 0x00ffffff) <<< 8)).toNat =
      l3.toNat / 2 ^ 18 + l4.toNat % 2 ^ 24 * 2 ^ 8 := by
    have hmask : (l4 &&& (0x00ffffff : UInt32)).toNat = l4.toNat % 2 ^ 24 := by
      rw [UInt32.toNat_and]
      exact Nat.and_two_pow_sub_one_eq_mod l4.toNat 24
    have hshift := toNat_shiftLeft (l4 &&& 0x00ffffff) 24 8 rfl (by decide)
    rw [hmask, Nat.mod_mod] at hshift
    have hright := toNat_shiftRight l3 (s := 18) (by decide)
    exact (toNat_or 8 (hshift ▸ Nat.mul_mod_left _ _) (hright ▸ (by omega))).trans
      (congrArg₂ _ hright hshift)
  have hsplit : (digits ⟨l0, l1, l2, l3, l4⟩).value =
      wordsNat (Limbs.pack ⟨l0, l1, l2, l3, l4⟩).toList +
        (if 2 ^ 26 ≤ l1.toNat ∧ l2.toNat % 2 = 1 then 2 ^ 52 else 0) +
        2 ^ 128 * (l4.toNat / 2 ^ 24) := by
    change _ = wordsNat [_, _, _, _] + _ + _
    simp only [wordsNat, w0, w2, w3, digits, Digits.value]
    split at w1 <;> rename_i hlost
    · rw [if_pos hlost]
      omega
    · rw [if_neg hlost]
      omega
  rw [hsplit]
  exact Nat.modEq_add_modulus_mul_iff.mpr rfl

theorem le32_eq (x : UInt32) : le32 x = leBytes 4 x.toNat := by
  simp only [le32, leBytes, List.range, List.range.loop, List.map_cons, List.map_nil,
    List.cons.injEq, ← UInt8.toNat_inj]
  simp [Nat.shiftRight_eq_div_pow]

/-- The words of the accumulator plus those of the pad, from the carry `u`. -/
theorem addPad_eq (words : List (UInt32 × UInt32)) {u : UInt64} (hu : u.toNat < 2 ^ 32) :
    addPad u words = leBytes (4 * words.length)
      (u.toNat + wordsNat (words.map (·.1)) + wordsNat (words.map (·.2))) := by
  induction words generalizing u with
  | nil => rfl
  | cons w words ih =>
    obtain ⟨word, pad⟩ := w
    have hw := word.toNat_lt
    have hp := pad.toNat_lt
    have hsum : (u + (word.toUInt64 + pad.toUInt64)).toNat = u.toNat + word.toNat + pad.toNat := by
      rw [UInt64.toNat_add, UInt64.toNat_add, UInt32.toNat_toUInt64, UInt32.toNat_toUInt64]
      omega
    have hcarry : ((u + (word.toUInt64 + pad.toUInt64)) >>> 32).toNat =
        (u.toNat + word.toNat + pad.toNat) / 2 ^ 32 := by
      rw [UInt64.toNat_shiftRight, hsum, Nat.shiftRight_eq_div_pow]
      rfl
    have hlow : le32 (u + (word.toUInt64 + pad.toUInt64)).toUInt32 =
        leBytes 4 (u.toNat + word.toNat + pad.toNat) := by
      rw [le32_eq, UInt64.toNat_toUInt32, hsum]
      exact leBytes_mod 4 _
    simp only [addPad, List.map_cons, wordsNat, List.length_cons]
    rw [hlow, ih (by omega), hcarry, Nat.mul_succ, Nat.add_comm (4 * words.length), leBytes_add]
    generalize wordsNat (words.map (·.1)) = a
    generalize wordsNat (words.map (·.2)) = b
    congr 1
    · rw [leBytes_inj, Nat.ModEq]
      omega
    · congr 1
      omega

/-- The pad is the second half of the key. -/
theorem wordsNat_pad (key : Key) :
    wordsNat (poly1305Init key).pad.toList = leNat (key.toList.drop 16) := by
  have hlength : (key.toList.drop 16).length = 16 := by
    rw [List.length_drop, Vector.length_toList]
  have hlt := leNat_lt (key.toList.drop 16)
  rw [hlength] at hlt
  have hword : ∀ k ≤ 12, (load32le (key.toList.drop (16 + k))).toNat =
      leNat (key.toList.drop 16) / 256 ^ k % 2 ^ 32 := by
    intro k hk
    rw [← List.drop_drop, toNat_load32le, leNat_drop]
    · omega
    · rw [List.length_drop]
      omega
  have h0 := hword 0 (by decide)
  have h1 := hword 4 (by decide)
  have h2 := hword 8 (by decide)
  have h3 := hword 12 (by decide)
  change wordsNat [load32le (key.toList.drop (16 + 0)), load32le (key.toList.drop (16 + 4)),
    load32le (key.toList.drop (16 + 8)), load32le (key.toList.drop (16 + 12))] = _
  simp only [wordsNat, h0, h1, h2, h3]
  omega

/-! ### When the tag is right -/

/-- The accumulator ends at `P` or above. -/
def Unreduced (key : Key) (message : Bytes) : Prop :=
  P ≤ (Digits.residue (clamp 0xfe key) message).value

/-- The accumulator ends with a carry out of the second digit into an odd one. -/
def LostCarry (key : Key) (message : Bytes) : Prop :=
  2 ^ 26 ≤ (Digits.residue (clamp 0xfe key) message).d1 ∧
    (Digits.residue (clamp 0xfe key) message).d2 % 2 = 1

instance : Decidable (Unreduced key message) := inferInstanceAs (Decidable (_ ≤ _))

instance : Decidable (LostCarry key message) := inferInstanceAs (Decidable (_ ∧ _))

theorem polynomial_lt (r : ℕ) (message : Bytes) : polynomial r message < P := by
  refine absorbAll_related 16 (step r) (g := step r) (R := fun a _ => a < P) ?_ (t := 0) (by decide) message
  intro _ _ _ _
  exact Nat.mod_lt _ (by decide)

theorem Small.value_lt {d : Digits} (h : Small d) : d.value < 2 * P := by
  obtain ⟨h0, h1, h2, h3, h4⟩ := h
  have hP : P = 2 ^ 130 - 5 := rfl
  rw [hP, Digits.value]
  omega

theorem finish_eq (h : Taken key message st) :
    ∃ packed, poly1305Finish st = leBytes 16 (packed + leNat (key.toList.drop 16)) ∧
      packed + (if LostCarry key message then 2 ^ 52 else 0) ≡
        polynomial (clamp 0xfe key) message + (if Unreduced key message then P else 0)
          [MOD 2 ^ 128] := by
  obtain ⟨hdigits, hsmall, hpad⟩ := digits_last h
  rw [poly1305Finish]
  generalize (if st.buffer.length ≠ 0 then
      st.absorb (st.buffer ++ 1 :: List.replicate (15 - st.buffer.length) 0) 0
    else st) = last at hdigits hsmall hpad
  have hvalue : (digits last.h).value =
      polynomial (clamp 0xfe key) message + (if Unreduced key message then P else 0) := by
    have hlt := hsmall.value_lt
    have hpoly := polynomial_lt (clamp 0xfe key) message
    have hmod := Digits.value_residue (clamp 0xfe key) message
    rw [hdigits] at hlt ⊢
    rw [Nat.ModEq, Nat.mod_eq_of_lt hpoly] at hmod
    split
    · rename_i hge
      rw [← hmod, Nat.mod_eq_sub_mod hge, Nat.mod_eq_of_lt (by omega), Nat.sub_add_cancel hge]
    · rename_i hge
      rw [← hmod, Nat.mod_eq_of_lt (Nat.lt_of_not_le hge), Nat.add_zero]
  have hpacked := wordsNat_pack hsmall
  rw [hvalue, hdigits] at hpacked
  refine ⟨wordsNat last.h.pack.toList, ?_, hpacked⟩
  have hlength : last.h.pack.toList.length = last.pad.toList.length := by
    rw [Vector.length_toList, Vector.length_toList]
  rw [addPad_eq _ (by decide), List.map_fst_zip hlength.le, List.map_snd_zip hlength.ge,
    List.length_zip, ← hlength, Nat.min_self, Vector.length_toList, hpad, h.pad, wordsNat_pad]
  rw [UInt64.toNat_zero, Nat.zero_add]

/-- The word that is packed and the number it should have been. -/
theorem modEq_iff {packed a b : ℕ} {u l : Prop} [Decidable u] [Decidable l]
    (h : packed + (if l then 2 ^ 52 else 0) ≡ a + (if u then 2 ^ 130 - 5 else 0) [MOD 2 ^ 128]) :
    packed ≡ b [MOD 2 ^ 128] ↔
      a ≡ b + (if u then 5 else 0) + (if l then 2 ^ 52 else 0) [MOD 2 ^ 128] := by
  simp only [Nat.ModEq] at *
  by_cases hu : u
  · by_cases hl : l
    · rw [if_pos hu, if_pos hl] at *
      omega
    · rw [if_pos hu, if_neg hl] at *
      omega
  · by_cases hl : l
    · rw [if_neg hu, if_pos hl] at *
      omega
    · rw [if_neg hu, if_neg hl] at *
      omega

theorem modEq_self_iff {b : ℕ} {u l : Prop} [Decidable u] [Decidable l] :
    b ≡ b + (if u then 5 else 0) + (if l then 2 ^ 52 else 0) [MOD 2 ^ 128] ↔ ¬ u ∧ ¬ l := by
  rw [Nat.add_assoc, Nat.left_modEq_add_iff]
  by_cases hu : u <;> by_cases hl : l <;> simp [hu, hl]

/-- The tag is the standard's exactly where its polynomial is, at the `r` of the code, but for what
the end leaves undone. -/
theorem poly1305_iff (key : Key) (chunks : List Bytes) :
    (poly1305Finish (chunks.foldl poly1305Update (poly1305Init key)) = tag key chunks.flatten ↔
      polynomial (clamp 0xfe key) chunks.flatten ≡
        polynomial (clamp 0xfc key) chunks.flatten +
          (if Unreduced key chunks.flatten then 5 else 0) +
          (if LostCarry key chunks.flatten then 2 ^ 52 else 0) [MOD 2 ^ 128]) ∧
    (clamp 0xfe key = clamp 0xfc key →
      (poly1305Finish (chunks.foldl poly1305Update (poly1305Init key)) = tag key chunks.flatten ↔
        ¬ Unreduced key chunks.flatten ∧ ¬ LostCarry key chunks.flatten)) := by
  have htaken := taken_chunks (taken_init key) chunks
  rw [List.nil_append] at htaken
  obtain ⟨packed, hfinish, hpacked⟩ := finish_eq htaken
  have hP : P = 2 ^ 130 - 5 := rfl
  have htag : poly1305Finish (chunks.foldl poly1305Update (poly1305Init key)) =
      tag key chunks.flatten ↔ packed ≡ polynomial (clamp 0xfc key) chunks.flatten [MOD 2 ^ 128] := by
    rw [hfinish, tag, leBytes_inj]
    exact ⟨Nat.ModEq.add_right_cancel' _, fun h => h.add_right _⟩
  have hiff := modEq_iff (b := polynomial (clamp 0xfc key) chunks.flatten) hpacked
  refine ⟨htag.trans hiff, fun hclamp => ?_⟩
  rw [htag, hiff, hclamp]
  exact modEq_self_iff

/-- A key whose byte 4 has its second bit set, and one byte of data. -/
theorem not_poly1305 : ¬ ∀ (key : Key) (chunks : List Bytes),
    poly1305Finish (chunks.foldl poly1305Update (poly1305Init key)) = tag key chunks.flatten := by
  intro h
  have := h (Vector.replicate 32 0 |>.set 4 2) [[0]]
  revert this
  decide +kernel

-- the standard clamps this key as the code does, but the accumulator ends at `P`
example : let key : Key := Vector.replicate 32 0 |>.set 0 1
    let message : Bytes := 0xfb :: (List.replicate 15 0xff ++ List.replicate 32 0)
    clamp 0xfe key = clamp 0xfc key ∧ Unreduced key message := by
  decide +kernel

end Poly1305

end CampelloNet.Crypto
