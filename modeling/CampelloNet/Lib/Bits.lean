import CampelloNet.Lib.Bytes
import Mathlib.Data.List.Induction
import Mathlib.Tactic.IntervalCases
import Mathlib.Tactic.Ring

/-!
# Bits, most significant first

A number as its last `n` bits, a byte string as the bits of its bytes one after the other, and the
number that some bits stand for.
-/

namespace CampelloNet.Lib

/-- The last `n` bits of a number. -/
def natBits : ℕ → ℕ → List Bool
  | 0, _ => []
  | n + 1, v => v.testBit n :: natBits n v

/-- The number with these bits. -/
def ofBits (bits : List Bool) : ℕ := bits.foldl (fun v b => 2 * v + b.toNat) 0

def byteBits (b : UInt8) : List Bool := natBits 8 b.toNat

def bytesBits (data : Bytes) : List Bool := data.flatMap byteBits

@[simp] theorem length_natBits (n v : ℕ) : (natBits n v).length = n := by
  induction n with
  | zero => rfl
  | succ n ih => simp [natBits, ih]

@[simp] theorem length_byteBits (b : UInt8) : (byteBits b).length = 8 := length_natBits 8 _

@[simp] theorem bytesBits_nil : bytesBits [] = [] := rfl

@[simp] theorem bytesBits_cons (b : UInt8) (data : Bytes) :
    bytesBits (b :: data) = byteBits b ++ bytesBits data := rfl

@[simp] theorem bytesBits_append (data data' : Bytes) :
    bytesBits (data ++ data') = bytesBits data ++ bytesBits data' := List.flatMap_append

@[simp] theorem length_bytesBits (data : Bytes) : (bytesBits data).length = 8 * data.length := by
  induction data with
  | nil => rfl
  | cons b data ih => simp [ih]; omega

theorem getElem?_natBits {n i : ℕ} (v : ℕ) (h : i < n) :
    (natBits n v)[i]? = some (v.testBit (n - 1 - i)) := by
  induction n generalizing i with
  | zero => omega
  | succ n ih =>
    cases i with
    | zero => simp [natBits]
    | succ i =>
      rw [natBits, List.getElem?_cons_succ, ih (by omega)]
      congr 2
      omega

/-- Two numbers have the same last bits if they agree on them. -/
theorem natBits_congr {n v w : ℕ} (h : ∀ i < n, v.testBit i = w.testBit i) :
    natBits n v = natBits n w := by
  induction n with
  | zero => rfl
  | succ n ih => rw [natBits, natBits, h n (by omega), ih fun i hi => h i (by omega)]

theorem natBits_mod (n v : ℕ) : natBits n (v % 2 ^ n) = natBits n v := by
  apply natBits_congr
  intro i hi
  rw [Nat.testBit_mod_two_pow]
  simp [hi]

theorem natBits_add (m n v : ℕ) : natBits (m + n) v = natBits m (v / 2 ^ n) ++ natBits n v := by
  induction m with
  | zero => simp [natBits]
  | succ m ih =>
    rw [Nat.succ_add, natBits, natBits, List.cons_append, ih, Nat.testBit_div_two_pow]

@[simp] theorem ofBits_nil : ofBits [] = 0 := rfl

theorem ofBits_snoc (bits : List Bool) (b : Bool) : ofBits (bits ++ [b]) = 2 * ofBits bits + b.toNat := by
  unfold ofBits
  rw [List.foldl_append]
  rfl

theorem ofBits_append (bits bits' : List Bool) :
    ofBits (bits ++ bits') = ofBits bits * 2 ^ bits'.length + ofBits bits' := by
  induction bits' using List.reverseRecOn with
  | nil => simp
  | append_singleton bits' b ih =>
    rw [← List.append_assoc, ofBits_snoc, ofBits_snoc, ih, List.length_append, List.length_singleton,
      Nat.pow_succ]
    ring

theorem ofBits_natBits (n v : ℕ) : ofBits (natBits n v) = v % 2 ^ n := by
  induction n with
  | zero => simp [natBits, Nat.mod_one]
  | succ n ih =>
    rw [natBits, ← List.singleton_append, ofBits_append, ih, length_natBits, Nat.mod_pow_succ]
    have hbit : ofBits [v.testBit n] = v / 2 ^ n % 2 := by
      rw [Nat.testBit_eq_decide_div_mod_eq]
      rcases Nat.mod_two_eq_zero_or_one (v / 2 ^ n) with h | h <;> simp [h, ofBits]
    rw [hbit]
    ring

theorem natBits_injective {n v w : ℕ} (hv : v < 2 ^ n) (hw : w < 2 ^ n)
    (h : natBits n v = natBits n w) : v = w := by
  have := congrArg ofBits h
  rwa [ofBits_natBits, ofBits_natBits, Nat.mod_eq_of_lt hv, Nat.mod_eq_of_lt hw] at this

theorem byteBits_injective : Function.Injective byteBits := fun b b' h =>
  UInt8.toNat_inj.mp (natBits_injective b.toNat_lt b'.toNat_lt h)

theorem bytesBits_injective : Function.Injective bytesBits := by
  intro data data' h
  induction data generalizing data' with
  | nil =>
    cases data' with
    | nil => rfl
    | cons b data' => exact absurd (congrArg List.length h) (by simp; omega)
  | cons b data ih =>
    cases data' with
    | nil => exact absurd (congrArg List.length h) (by simp)
    | cons b' data' =>
      rw [bytesBits_cons, bytesBits_cons] at h
      obtain ⟨hb, hrest⟩ := List.append_inj h (by simp)
      rw [byteBits_injective hb, ih hrest]

/-! ### One bit of a byte string -/

theorem getElem?_byteBits {j : ℕ} (b : UInt8) (h : j < 8) :
    (byteBits b)[j]? = some (b.toNat.testBit (7 - j)) := by
  rw [byteBits, getElem?_natBits _ h]

theorem getElem?_bytesBits {data : Bytes} {p : ℕ} (h : p < 8 * data.length) :
    (bytesBits data)[p]? = some ((data.getD (p / 8) 0).toNat.testBit (7 - p % 8)) := by
  induction data generalizing p with
  | nil => simp at h
  | cons b data ih =>
    rw [bytesBits_cons]
    by_cases hp : p < 8
    · rw [List.getElem?_append_left (by simpa using hp), getElem?_byteBits b hp,
        Nat.div_eq_of_lt hp, Nat.mod_eq_of_lt hp]
      rfl
    · rw [List.length_cons] at h
      rw [List.getElem?_append_right (by simpa using hp), length_byteBits, ih (by omega)]
      rw [show p / 8 = (p - 8) / 8 + 1 by omega, show p % 8 = (p - 8) % 8 by omega]
      rfl

theorem byteBits_or {j : ℕ} (b : UInt8) (h : j < 8) :
    byteBits (b ||| (1 <<< UInt8.ofNat (7 - j))) = (byteBits b).set j true := by
  apply List.ext_getElem?
  intro i
  by_cases hi : i < 8
  · rw [getElem?_byteBits _ hi, List.getElem?_set, getElem?_byteBits _ hi, UInt8.toNat_or,
      Nat.testBit_or]
    have hone : (1 <<< UInt8.ofNat (7 - j) : UInt8).toNat = 2 ^ (7 - j) := by
      interval_cases j <;> rfl
    rw [hone, Nat.testBit_two_pow]
    by_cases hij : j = i
    · subst hij
      simp [h]
    · rw [if_neg hij, decide_eq_false (by omega), Bool.or_false]
  · rw [List.getElem?_eq_none (by simpa using hi), List.getElem?_eq_none (by simpa using hi)]

/-- Setting one bit of one byte. -/
theorem bytesBits_modify {data : Bytes} {i j : ℕ} (hi : i < data.length) (hj : j < 8) :
    bytesBits (data.modify i (· ||| (1 <<< UInt8.ofNat (7 - j)))) =
      (bytesBits data).set (8 * i + j) true := by
  induction data generalizing i with
  | nil => simp at hi
  | cons b data ih =>
    rw [bytesBits_cons]
    cases i with
    | zero =>
      rw [List.modify_zero_cons, bytesBits_cons, byteBits_or b hj, List.set_append_left _ _ (by simp; omega)]
      simp
    | succ i =>
      rw [List.modify_succ_cons, bytesBits_cons, ih (by simpa using hi),
        List.set_append_right _ _ (by simp; omega)]
      congr 2
      simp
      omega

/-! ### Words -/

theorem natBits_byte_add (b : UInt8) {n r : ℕ} (hr : r < 2 ^ n) :
    natBits (8 + n) (b.toNat * 2 ^ n + r) = byteBits b ++ natBits n r := by
  have hdiv : (b.toNat * 2 ^ n + r) / 2 ^ n = b.toNat := by
    rw [Nat.mul_comm, Nat.mul_add_div (Nat.two_pow_pos n), Nat.div_eq_of_lt hr, Nat.add_zero]
  rw [natBits_add, hdiv, ← natBits_mod n, Nat.mul_add_mod_self_right, natBits_mod]
  rfl

theorem natBits_ofBe16 (b0 b1 : UInt8) : natBits 16 (ofBe16 b0 b1).toNat = bytesBits [b0, b1] := by
  have h1 := b1.toNat_lt
  rw [ofBe16_toNat]
  exact (natBits_byte_add b0 h1).trans (by simp [byteBits])

theorem natBits_ofBe32 (b0 b1 b2 b3 : UInt8) :
    natBits 32 (ofBe32 b0 b1 b2 b3).toNat = bytesBits [b0, b1, b2, b3] := by
  have h1 := b1.toNat_lt
  have h2 := b2.toNat_lt
  have h3 := b3.toNat_lt
  rw [ofBe32_toNat, Nat.add_assoc, Nat.add_assoc]
  rw [show 32 = 8 + 24 from rfl, natBits_byte_add b0 (by omega), show 24 = 8 + 16 from rfl,
    natBits_byte_add b1 (by omega), show 16 = 8 + 8 from rfl, natBits_byte_add b2 h3]
  simp [byteBits]

theorem natBits_ofBe64 (b0 b1 b2 b3 b4 b5 b6 b7 : UInt8) :
    natBits 64 (ofBe64 b0 b1 b2 b3 b4 b5 b6 b7).toNat = bytesBits [b0, b1, b2, b3, b4, b5, b6, b7] := by
  have h4 := b4.toNat_lt
  have h5 := b5.toNat_lt
  have h6 := b6.toNat_lt
  have h7 := b7.toNat_lt
  have hlow := natBits_ofBe32 b4 b5 b6 b7
  have hhigh := natBits_ofBe32 b0 b1 b2 b3
  rw [ofBe32_toNat] at hlow hhigh
  have hsplit : (ofBe64 b0 b1 b2 b3 b4 b5 b6 b7).toNat =
      (b0.toNat * 2 ^ 24 + b1.toNat * 2 ^ 16 + b2.toNat * 2 ^ 8 + b3.toNat) * 2 ^ 32 +
        (b4.toNat * 2 ^ 24 + b5.toNat * 2 ^ 16 + b6.toNat * 2 ^ 8 + b7.toNat) := by
    rw [ofBe64_toNat]
    ring
  rw [hsplit, show 64 = 32 + 32 from rfl, natBits_add, ← natBits_mod 32 (_ * _ + _),
    Nat.mul_add_mod_self_right, natBits_mod, Nat.mul_comm, Nat.mul_add_div (Nat.two_pow_pos 32),
    Nat.div_eq_of_lt (by omega), Nat.add_zero, hhigh, hlow]
  rfl

theorem natBits_be16 (x : UInt16) : natBits 16 x.toNat = bytesBits (be16 x) := by
  have := natBits_ofBe16 (x >>> 8).toUInt8 x.toUInt8
  rwa [ofBe16_be16] at this

theorem natBits_be32 (x : UInt32) : natBits 32 x.toNat = bytesBits (be32 x) := by
  have := natBits_ofBe32 (x >>> 24).toUInt8 (x >>> 16).toUInt8 (x >>> 8).toUInt8 x.toUInt8
  rwa [ofBe32_be32] at this

theorem natBits_be64 (x : UInt64) : natBits 64 x.toNat = bytesBits (be64 x) := by
  have := natBits_ofBe64 (x >>> 56).toUInt8 (x >>> 48).toUInt8 (x >>> 40).toUInt8 (x >>> 32).toUInt8
    (x >>> 24).toUInt8 (x >>> 16).toUInt8 (x >>> 8).toUInt8 x.toUInt8
  rwa [ofBe64_be64] at this

end CampelloNet.Lib
