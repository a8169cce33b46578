import CampelloNet.Crypto.ChaCha20Poly1305
import CampelloNet.Lib.Blocks
import Mathlib.Data.Nat.Digits.Lemmas
import Mathlib.Data.Nat.ModEq
import Mathlib.Tactic.Ring

/-!
# Poly1305

The authenticator as it is specified, over natural numbers, and its accumulator in digits of 26 bits,
whose value follows the polynomial modulo 2^130 - 5.
-/

namespace CampelloNet.Crypto

open Lib

namespace Poly1305

/-! ### The specification -/

/-- The number in some bytes, the least significant first. -/
def leNat (bytes : Bytes) : ℕ := Nat.ofDigits 256 (bytes.map UInt8.toNat)

/-- The low `k` bytes of a number. -/
def leBytes (k n : ℕ) : Bytes := (List.range k).map fun i => .ofNat (n / 256 ^ i)

def P : ℕ := 2 ^ 130 - 5

/-- What is left of the bytes of `r`; `low` of the bytes 4, 8 and 12. -/
def clampMask (low : UInt8) : Bytes :=
  [0xff, 0xff, 0xff, 0x0f, low, 0xff, 0xff, 0x0f, low, 0xff, 0xff, 0x0f, low, 0xff, 0xff, 0x0f]

/-- The number in the first half of the key, clamped. -/
def clamp (low : UInt8) (key : Key) : ℕ := leNat (List.zipWith (· &&& ·) key.toList (clampMask low))

def step (r a : ℕ) (block : Bytes) : ℕ := (a + leNat (block ++ [1])) * r % P

/-- The blocks, each with a one above it, times powers of `r`. -/
def polynomial (r : ℕ) (message : Bytes) : ℕ := absorbAll 16 (step r) 0 message

/-- The tag of the standard, which leaves the bits `0xfc` of the bytes 4, 8 and 12. -/
def tag (key : Key) (message : Bytes) : Bytes :=
  leBytes 16 (polynomial (clamp 0xfc key) message + leNat (key.toList.drop 16))

/-! ### Numbers in bytes -/

theorem leNat_cons (b : UInt8) (l : Bytes) : leNat (b :: l) = b.toNat + 256 * leNat l := by
  rw [leNat, List.map_cons, Nat.ofDigits_cons]
  rfl

theorem leNat_append (l l' : Bytes) : leNat (l ++ l') = leNat l + 256 ^ l.length * leNat l' := by
  rw [leNat, List.map_append, Nat.ofDigits_append, List.length_map]
  rfl

theorem leNat_lt (l : Bytes) : leNat l < 256 ^ l.length := by
  have := Nat.ofDigits_lt_base_pow_length (l := l.map UInt8.toNat) (b := 256) (by decide)
    (fun x hx => by
      obtain ⟨b, -, rfl⟩ := List.mem_map.mp hx
      exact b.toNat_lt)
  rwa [List.length_map] at this

theorem leNat_zeros (l : Bytes) (n : ℕ) : leNat (l ++ List.replicate n 0) = leNat l := by
  have hzeros : leNat (List.replicate n 0) = 0 := by
    induction n with
    | zero => rfl
    | succ n ih =>
      rw [List.replicate_succ, leNat_cons, ih]
      rfl
  rw [leNat_append, hzeros, Nat.mul_zero, Nat.add_zero]

theorem leNat_drop {l : Bytes} {k : ℕ} (h : k ≤ l.length) : leNat (l.drop k) = leNat l / 256 ^ k := by
  have hsplit := leNat_append (l.take k) (l.drop k)
  have hlt := leNat_lt (l.take k)
  rw [List.take_append_drop, List.length_take_of_le h] at hsplit
  rw [List.length_take_of_le h] at hlt
  rw [hsplit, Nat.add_mul_div_left _ _ (by positivity), Nat.div_eq_of_lt hlt, Nat.zero_add]

theorem leBytes_succ (k n : ℕ) : leBytes (k + 1) n = .ofNat n :: leBytes k (n / 256) := by
  rw [leBytes, List.range_succ_eq_map, List.map_cons, List.map_map, Nat.pow_zero, Nat.div_one]
  congr 1
  apply List.map_congr_left
  intro i _
  rw [Function.comp_apply, Nat.pow_succ', Nat.div_div_eq_div_mul]

theorem leNat_leBytes (k n : ℕ) : leNat (leBytes k n) = n % 256 ^ k := by
  induction k generalizing n with
  | zero => rw [Nat.pow_zero, Nat.mod_one]; rfl
  | succ k ih =>
    rw [leBytes_succ, leNat_cons, ih, Nat.pow_succ', Nat.mod_mul, UInt8.toNat_ofNat']

theorem leBytes_mod (k n : ℕ) : leBytes k (n % 256 ^ k) = leBytes k n := by
  induction k generalizing n with
  | zero => rfl
  | succ k ih =>
    rw [leBytes_succ, leBytes_succ, ← ih (n / 256), Nat.pow_succ', Nat.mod_mul_right_div_self]
    congr 1
    apply UInt8.toNat_inj.mp
    rw [UInt8.toNat_ofNat', UInt8.toNat_ofNat']
    exact Nat.mod_mul_right_mod n 256 _

theorem leBytes_inj {k n m : ℕ} : leBytes k n = leBytes k m ↔ n ≡ m [MOD 256 ^ k] := by
  refine ⟨fun h => ?_, fun h => ?_⟩
  · rw [Nat.ModEq, ← leNat_leBytes, ← leNat_leBytes, h]
  · rw [← leBytes_mod k n, ← leBytes_mod k m, h]

theorem leBytes_add (j k n : ℕ) : leBytes (j + k) n = leBytes j n ++ leBytes k (n / 256 ^ j) := by
  induction j generalizing n with
  | zero => rw [Nat.zero_add, Nat.pow_zero, Nat.div_one]; rfl
  | succ j ih =>
    rw [Nat.add_right_comm, leBytes_succ, leBytes_succ, ih, Nat.div_div_eq_div_mul, ← Nat.pow_succ',
      List.cons_append]

theorem toNat_load32le {l : Bytes} (h : 4 ≤ l.length) : (load32le l).toNat = leNat l % 2 ^ 32 := by
  match l, h with
  | b0 :: b1 :: b2 :: b3 :: rest, _ =>
    have h0 := b0.toNat_lt
    have h1 := b1.toNat_lt
    have h2 := b2.toNat_lt
    have h3 := b3.toNat_lt
    rw [load32le, ofLe32_eq, ofBe32_toNat]
    simp only [leNat_cons]
    omega

/-! ### Digits of 26 bits -/

/-- A number in digits of 26 bits, which need not be carried. -/
structure Digits where
  d0 : ℕ
  d1 : ℕ
  d2 : ℕ
  d3 : ℕ
  d4 : ℕ

namespace Digits

structure Below (b : ℕ) (d : Digits) : Prop where
  d0 : d.d0 < b
  d1 : d.d1 < b
  d2 : d.d2 < b
  d3 : d.d3 < b
  d4 : d.d4 < b

def value (d : Digits) : ℕ :=
  d.d0 + 2 ^ 26 * (d.d1 + 2 ^ 26 * (d.d2 + 2 ^ 26 * (d.d3 + 2 ^ 26 * d.d4)))

def ofNat (n : ℕ) : Digits :=
  ⟨n % 2 ^ 26, n / 2 ^ 26 % 2 ^ 26, n / 2 ^ 52 % 2 ^ 26, n / 2 ^ 78 % 2 ^ 26, n / 2 ^ 104⟩

def add (d e : Digits) : Digits :=
  ⟨d.d0 + e.d0, d.d1 + e.d1, d.d2 + e.d2, d.d3 + e.d3, d.d4 + e.d4⟩

/-- The columns of the product, those from 2^130 on five times in the low ones. -/
def mul (d e : Digits) : Digits :=
  ⟨d.d0 * e.d0 + d.d1 * (e.d4 * 5) + d.d2 * (e.d3 * 5) + d.d3 * (e.d2 * 5) + d.d4 * (e.d1 * 5),
    d.d0 * e.d1 + d.d1 * e.d0 + d.d2 * (e.d4 * 5) + d.d3 * (e.d3 * 5) + d.d4 * (e.d2 * 5),
    d.d0 * e.d2 + d.d1 * e.d1 + d.d2 * e.d0 + d.d3 * (e.d4 * 5) + d.d4 * (e.d3 * 5),
    d.d0 * e.d3 + d.d1 * e.d2 + d.d2 * e.d1 + d.d3 * e.d0 + d.d4 * (e.d4 * 5),
    d.d0 * e.d4 + d.d1 * e.d3 + d.d2 * e.d2 + d.d3 * e.d1 + d.d4 * e.d0⟩

/-- One pass of carries; what comes out of the top goes in at the bottom five times, and from there
into the digit above only. -/
def reduce (d : Digits) : Digits :=
  let n := d.value
  let low := n % 2 ^ 26 + 5 * (n / 2 ^ 130)
  ⟨low % 2 ^ 26, n / 2 ^ 26 % 2 ^ 26 + low / 2 ^ 26, n / 2 ^ 52 % 2 ^ 26, n / 2 ^ 78 % 2 ^ 26,
    n / 2 ^ 104 % 2 ^ 26⟩

/-- A block taken into the accumulator. -/
def step (r : ℕ) (d : Digits) (block : Bytes) : Digits :=
  ((d.add (ofNat (leNat (block ++ [1])))).mul (ofNat r)).reduce

/-- The accumulator after the whole message. -/
def residue (r : ℕ) (message : Bytes) : Digits := absorbAll 16 (step r) ⟨0, 0, 0, 0, 0⟩ message

theorem value_ofNat (n : ℕ) : (ofNat n).value = n := by
  simp only [ofNat, value]
  omega

theorem value_add (d e : Digits) : (d.add e).value = d.value + e.value := by
  simp only [add, value]
  ring

theorem value_mul (d e : Digits) : (d.mul e).value ≡ d.value * e.value [MOD P] := by
  -- what the product has from 2^130 on
  let high := d.d1 * e.d4 + d.d2 * e.d3 + d.d3 * e.d2 + d.d4 * e.d1 +
    2 ^ 26 * (d.d2 * e.d4 + d.d3 * e.d3 + d.d4 * e.d2) + 2 ^ 52 * (d.d3 * e.d4 + d.d4 * e.d3) +
    2 ^ 78 * (d.d4 * e.d4)
  have hsplit : d.value * e.value = (d.mul e).value + P * high := by
    have hP : P = 2 ^ 130 - 5 := rfl
    have : d.value * e.value + 5 * high = (d.mul e).value + 2 ^ 130 * high := by
      simp only [mul, value, high]
      ring
    rw [hP]
    omega
  rw [hsplit]
  exact Nat.modEq_add_modulus_mul_iff.mpr rfl

/-- The carries one by one. -/
theorem reduce_eq (d0 d1 d2 d3 d4 : ℕ) :
    reduce ⟨d0, d1, d2, d3, d4⟩ =
      let e1 := d1 + d0 / 2 ^ 26
      let e2 := d2 + e1 / 2 ^ 26
      let e3 := d3 + e2 / 2 ^ 26
      let e4 := d4 + e3 / 2 ^ 26
      let low := d0 % 2 ^ 26 + 5 * (e4 / 2 ^ 26)
      ⟨low % 2 ^ 26, e1 % 2 ^ 26 + low / 2 ^ 26, e2 % 2 ^ 26, e3 % 2 ^ 26, e4 % 2 ^ 26⟩ := by
  have hdiv : ∀ a b : ℕ, (a + 2 ^ 26 * b) / 2 ^ 26 = b + a / 2 ^ 26 := by
    intro a b
    rw [Nat.add_mul_div_left _ _ (by decide), Nat.add_comm]
  have hmod : ∀ a b : ℕ, (a + 2 ^ 26 * b) % 2 ^ 26 = a % 2 ^ 26 := fun a b => Nat.add_mul_mod_self_left _ _ _
  have hassoc : ∀ a b c : ℕ, a + 2 ^ 26 * b + c = a + c + 2 ^ 26 * b := fun a b c => Nat.add_right_comm _ _ _
  have hnext : ∀ n k : ℕ, n / 2 ^ (k + 26) = n / 2 ^ k / 2 ^ 26 := by
    intro n k
    rw [Nat.pow_add, Nat.div_div_eq_div_mul]
  have h2 : ∀ n : ℕ, n / 2 ^ 52 = n / 2 ^ 26 / 2 ^ 26 := fun n => hnext n 26
  have h3 : ∀ n : ℕ, n / 2 ^ 78 = n / 2 ^ 52 / 2 ^ 26 := fun n => hnext n 52
  have h4 : ∀ n : ℕ, n / 2 ^ 104 = n / 2 ^ 78 / 2 ^ 26 := fun n => hnext n 78
  have h5 : ∀ n : ℕ, n / 2 ^ 130 = n / 2 ^ 104 / 2 ^ 26 := fun n => hnext n 104
  simp only [reduce, value, h2, h3, h4, h5, hdiv, hmod, hassoc]

theorem value_reduce (d : Digits) : d.reduce.value = d.value % 2 ^ 130 + 5 * (d.value / 2 ^ 130) := by
  simp only [reduce]
  generalize d.value = n
  have h2 : n / 2 ^ 52 = n / 2 ^ 26 / 2 ^ 26 := (Nat.div_div_eq_div_mul n (2 ^ 26) (2 ^ 26)).symm
  have h3 : n / 2 ^ 78 = n / 2 ^ 52 / 2 ^ 26 := (Nat.div_div_eq_div_mul n (2 ^ 52) (2 ^ 26)).symm
  have h4 : n / 2 ^ 104 = n / 2 ^ 78 / 2 ^ 26 := (Nat.div_div_eq_div_mul n (2 ^ 78) (2 ^ 26)).symm
  have h5 : n / 2 ^ 130 = n / 2 ^ 104 / 2 ^ 26 := (Nat.div_div_eq_div_mul n (2 ^ 104) (2 ^ 26)).symm
  have hmod := Nat.div_add_mod n (2 ^ 130)
  simp only [value]
  omega

theorem value_reduce_modEq (d : Digits) : d.reduce.value ≡ d.value [MOD P] := by
  have hsplit : d.value = d.reduce.value + P * (d.value / 2 ^ 130) := by
    have hP : P = 2 ^ 130 - 5 := rfl
    rw [value_reduce, hP]
    omega
  have : d.reduce.value + P * (d.value / 2 ^ 130) ≡ d.reduce.value [MOD P] :=
    Nat.add_modulus_mul_modEq_iff.mpr rfl
  rw [← hsplit] at this
  exact this.symm

/-- One block: the digits follow the polynomial. -/
theorem value_step (r : ℕ) {a : ℕ} {d : Digits} (h : d.value ≡ a [MOD P]) (block : Bytes) :
    (step r d block).value ≡ Poly1305.step r a block [MOD P] := by
  calc (step r d block).value
      ≡ (d.add (ofNat (leNat (block ++ [1])))).value * (ofNat r).value [MOD P] :=
        (value_reduce_modEq _).trans (value_mul _ _)
    _ ≡ (a + leNat (block ++ [1])) * r [MOD P] := by
        rw [value_add, value_ofNat, value_ofNat]
        exact (h.add_right _).mul_right r
    _ ≡ Poly1305.step r a block [MOD P] := (Nat.mod_modEq _ _).symm

theorem value_residue (r : ℕ) (message : Bytes) :
    (residue r message).value ≡ polynomial r message [MOD P] :=
  absorbAll_related 16 (step r) (R := fun d a => d.value ≡ a [MOD P])
    (fun _ _ block h => value_step r h block) rfl message

end Digits

end Poly1305

end CampelloNet.Crypto
