import CampelloNet.Serialization.Quantization
import Mathlib.Algebra.BigOperators.Fin
import Mathlib.Analysis.Real.Sqrt
import Mathlib.Data.Sign.Basic

/-!
# Smallest three

`write_smallest_three` leaves out the component of a unit quaternion that is largest in absolute value,
and `read_smallest_three` makes it from the other three, never negative. The writer sends the others with
their own signs whatever the sign of the largest is. `keepsRotation_iff` says which rotations come back.
-/

namespace CampelloNet.Serialization

open Lib BitStream

section
variable {K : Type} [Field K] [LinearOrder K] [FloorSemiring K] (wide : ℕ → UInt32) (sqrt : K → K)

/-- The index 0 of an array. -/
def first : Fin 4 := (List.finRange 4).head (by decide)

/-- The first of the components that are largest in absolute value. -/
def largestIdx (quat : Fin 4 → K) : Fin 4 :=
  ((List.finRange 4).tail.foldl (fun (best : Fin 4 × K) i =>
    if |quat i| > best.2 then (i, |quat i|) else best) (first, |quat first|)).1

def writeSmallestThree (quat : Fin 4 → K) (bitsPerComponent : ℕ) (stream : BitStream) : BitStream :=
  (List.finRange 4).foldl
    (fun stream i =>
      if i = largestIdx quat then stream
      else writeQuantized wide (quat i) (-1) 1 bitsPerComponent stream)
    (stream.writeBits (UInt64.ofNat (largestIdx quat)) 2)

/-- The loop that reads the components into the array. -/
def readComponents (largestIdx : UInt64) (bitsPerComponent : ℕ) :
    List (Fin 4) → (Fin 4 → K) → Reader (Fin 4 → K)
  | [], quat => pure quat
  | i :: is, quat =>
    if largestIdx = UInt64.ofNat i then readComponents largestIdx bitsPerComponent is quat
    else do
      let x ← readQuantized wide (-1) 1 bitsPerComponent
      readComponents largestIdx bitsPerComponent is (Function.update quat i x)

def sumSq (largestIdx : UInt64) (quat : Fin 4 → K) : K :=
  (List.finRange 4).foldl
    (fun sum (i : Fin 4) => if largestIdx ≠ UInt64.ofNat i then sum + quat i * quat i else sum) 0

/-- The array that is read into is an argument. -/
def readSmallestThree (bitsPerComponent : ℕ) (quat : Fin 4 → K) : Reader (Fin 4 → K) := do
  let largestIdx ← readBits 2
  let quat ← readComponents wide largestIdx bitsPerComponent (List.finRange 4) quat
  let reconstructed := sqrt (max 0 (1 - sumSq largestIdx quat))
  pure fun i => if largestIdx = UInt64.ofNat i then reconstructed else quat i

/-! ### What is restored -/

/-- A component as it comes back. -/
def restoredComponent (bits : ℕ) (x : K) : K :=
  dequantize (-1) 1 bits (quantize wide x (-1) 1 bits).toNat

/-- The whole quaternion as it comes back. -/
def restored (bits : ℕ) (quat : Fin 4 → K) : Fin 4 → K :=
  let others := fun i => restoredComponent wide bits (quat i)
  Function.update others (largestIdx quat)
    (sqrt (max 0 (1 - sumSq (UInt64.ofNat (largestIdx quat)) others)))

/-! ### The law and its condition -/

/-- With one sign for the whole, the components that were sent are within half a step and the largest
one has its sign. -/
def KeepsRotation (bits : ℕ) (quat out : Fin 4 → K) : Prop :=
  ∃ s : K, (s = 1 ∨ s = -1) ∧
    (∀ i ≠ largestIdx quat, |out i - s * quat i| ≤ 1 / (2 ^ bits - 1 : ℕ)) ∧
    SignType.sign (out (largestIdx quat)) = SignType.sign (s * quat (largestIdx quat))

/-- Beyond the bound `a / b`, from which on a component is rounded away from it. -/
def Outer (a b : ℕ) (x : K) : Prop := (a / b : K) ≤ x ∨ x < -(a / b : K)

/-- The largest component is positive and, with 2 or 3 bits, the others are not rounded to a length of 1
or more; or the others are all zero. -/
def Kept (bits : ℕ) (quat : Fin 4 → K) : Prop :=
  let idx := largestIdx quat
  (0 < quat idx ∧ (bits = 2 → ∀ i ≠ idx, ¬Outer 2 3 (quat i)) ∧
      (bits = 3 → ∀ i ≠ idx, ∀ j ≠ idx, Outer 4 7 (quat i) → Outer 4 7 (quat j) → i = j)) ∨
    ∀ i ≠ idx, quat i = 0

end

theorem ofNat_fin_inj {i j : Fin 4} : UInt64.ofNat i = UInt64.ofNat j ↔ i = j := by
  rw [← UInt64.toNat_inj, toNat_ofNat64 (by omega), toNat_ofNat64 (by omega), Fin.val_inj]

/-- The largest component does not count among the others. -/
theorem sumSq_congr {K : Type} [Field K] {idx : Fin 4} {x y : Fin 4 → K} (h : ∀ i ≠ idx, x i = y i) :
    sumSq (UInt64.ofNat idx) x = sumSq (UInt64.ofNat idx) y := by
  unfold sumSq
  congr 1
  funext sum i
  split_ifs with hi
  · rw [h i fun heq => hi (by rw [heq])]
  · rfl

section
variable {K : Type} [Field K] [LinearOrder K] [IsStrictOrderedRing K] [FloorSemiring K]
  (wide : ℕ → UInt32) {sqrt : K → K} {bits : ℕ}

/-- The encoding of the components in a list of indices. -/
def componentEncoding (bits : ℕ) (quat : Fin 4 → K) (i : Fin 4) : Encoding Bool :=
  if i = largestIdx quat then Encoding.nil
  else fun _ => natBits bits (quantize wide (quat i) (-1) 1 bits).toNat

theorem codes_components (hbits : 1 ≤ bits) (h : bits < 32) (quat : Fin 4 → K) (is : List (Fin 4))
    (array : Fin 4 → K) :
    tape.Codes (Encoding.all (is.map (componentEncoding wide bits quat)))
      (fun stream => is.foldl (fun stream i => if i = largestIdx quat then stream
        else writeQuantized wide (quat i) (-1) 1 bits stream) stream)
      (readComponents wide (UInt64.ofNat (largestIdx quat)) bits is array)
      (fun i => if i ∈ is ∧ i ≠ largestIdx quat then restoredComponent wide bits (quat i)
        else array i) := by
  induction is generalizing array with
  | nil =>
    have hnone : (fun i => if i ∈ ([] : List (Fin 4)) ∧ i ≠ largestIdx quat then
        restoredComponent wide bits (quat i) else array i) = array := by
      funext i
      simp
    rw [hnone]
    exact ⟨Medium.writes_id, Medium.reads_pure _⟩
  | cons i is ih =>
    by_cases hi : i = largestIdx quat
    · have hsame : (fun j => if j ∈ i :: is ∧ j ≠ largestIdx quat then
          restoredComponent wide bits (quat j) else array j) =
          fun j => if j ∈ is ∧ j ≠ largestIdx quat then restoredComponent wide bits (quat j)
            else array j := by
        funext j
        apply if_congr _ rfl rfl
        rw [List.mem_cons, ← hi]
        tauto
      simp only [List.map_cons, List.foldl_cons, readComponents, componentEncoding, if_pos hi]
      rw [hsame, ← hi, if_pos rfl, hi]
      exact ih array
    · have hnext := ih (Function.update array i (restoredComponent wide bits (quat i)))
      have hsame : (fun j => if j ∈ i :: is ∧ j ≠ largestIdx quat then
          restoredComponent wide bits (quat j) else array j) =
          fun j => if j ∈ is ∧ j ≠ largestIdx quat then restoredComponent wide bits (quat j)
            else Function.update array i (restoredComponent wide bits (quat i)) j := by
        funext j
        by_cases hj : j = i
        · subst hj
          simp [hi]
        · rw [Function.update_of_ne hj]
          simp [hj]
      have hne : UInt64.ofNat (largestIdx quat) ≠ UInt64.ofNat i := by
        rw [Ne, ofNat_fin_inj]
        exact fun heq => hi heq.symm
      simp only [List.map_cons, List.foldl_cons, readComponents, if_neg hi, if_neg hne]
      rw [hsame]
      have hfirst := codes_quantized (quat i) (-1) 1 wide hbits h
      unfold componentEncoding at hnext ⊢
      simp only [Encoding.all, if_neg hi]
      exact ⟨hfirst.writes.seq hnext.writes, hfirst.reads.bind hnext.reads⟩

theorem codes_smallestThree (sqrt : K → K) (hbits : 1 ≤ bits) (h : bits < 32) (quat array : Fin 4 → K) :
    ∃ e, tape.Codes e (writeSmallestThree wide quat bits)
      (readSmallestThree wide sqrt bits array) (restored wide sqrt bits quat) := by
  have hlt := (largestIdx quat).isLt
  have hidx : (UInt64.ofNat (largestIdx quat)).toNat = largestIdx quat := toNat_ofNat64 (by omega)
  have hfirst := tape_codes_bits (UInt64.ofNat (largestIdx quat)) (n := 2) (by omega)
  rw [hidx, Nat.mod_eq_of_lt (by omega : (largestIdx quat : ℕ) < 2 ^ 2)] at hfirst
  have hothers : ∀ i ≠ largestIdx quat,
      (if i ∈ List.finRange 4 ∧ i ≠ largestIdx quat then restoredComponent wide bits (quat i)
        else array i) = restoredComponent wide bits (quat i) := by
    intro i hi
    simp [hi]
  have hrest := codes_components wide hbits h quat (List.finRange 4) array
  have hread := hrest.reads.map fun quat' (i : Fin 4) =>
    if UInt64.ofNat (largestIdx quat) = UInt64.ofNat i then
      sqrt (max 0 (1 - sumSq (UInt64.ofNat (largestIdx quat)) quat'))
    else quat' i
  -- the last step of the reader, on the components that were sent
  have hlast : ∀ quat' : Fin 4 → K,
      (∀ i ≠ largestIdx quat, quat' i = restoredComponent wide bits (quat i)) →
      (fun i : Fin 4 => if UInt64.ofNat (largestIdx quat) = UInt64.ofNat i then
        sqrt (max 0 (1 - sumSq (UInt64.ofNat (largestIdx quat)) quat')) else quat' i) =
      restored wide sqrt bits quat := by
    intro quat' hsent
    unfold restored
    dsimp only
    rw [← sumSq_congr hsent]
    funext i
    by_cases hi : i = largestIdx quat
    · rw [hi, if_pos rfl, Function.update_self]
    · rw [if_neg fun heq => hi (ofNat_fin_inj.mp heq).symm, Function.update_of_ne hi]
      exact hsent i hi
  rw [hlast _ hothers] at hread
  exact ⟨_, hfirst.writes.seq hrest.writes, hfirst.reads.bind hread⟩

/-! ### The components -/

theorem abs_le_largest {K : Type} [Field K] [LinearOrder K] (quat : Fin 4 → K) (i : Fin 4) :
    |quat i| ≤ |quat (largestIdx quat)| := by
  have hloop : ∀ (is : List (Fin 4)) (best : Fin 4 × K), best.2 = |quat best.1| →
      let found := is.foldl (fun (best : Fin 4 × K) i =>
        if |quat i| > best.2 then (i, |quat i|) else best) best
      best.2 ≤ |quat found.1| ∧ ∀ i ∈ is, |quat i| ≤ |quat found.1| := by
    intro is
    induction is with
    | nil => exact fun best hbest => ⟨hbest.le, by simp⟩
    | cons j is ih =>
      intro best hbest
      dsimp only
      rw [List.foldl_cons, List.forall_mem_cons]
      split_ifs with hj
      · obtain ⟨hle, hrest⟩ := ih (j, |quat j|) rfl
        exact ⟨hj.le.trans hle, hle, hrest⟩
      · obtain ⟨hle, hrest⟩ := ih best hbest
        exact ⟨hle, (not_lt.mp hj).trans hle, hrest⟩
  obtain ⟨hfirst, hrest⟩ := hloop (List.finRange 4).tail (first, |quat first|) rfl
  by_cases hi : i = first
  · rw [hi]
    exact hfirst
  · have htail : ∀ j : Fin 4, j ≠ first → j ∈ (List.finRange 4).tail := by decide
    exact hrest i (htail i hi)

/-- The three other components. -/
theorem exists_others {K : Type} [Field K] (idx : Fin 4) :
    ∃ i j k, i ≠ idx ∧ j ≠ idx ∧ k ≠ idx ∧ i ≠ j ∧ i ≠ k ∧ j ≠ k ∧
    (∀ m ≠ idx, m = i ∨ m = j ∨ m = k) ∧ ∀ x : Fin 4 → K,
      sumSq (UInt64.ofNat idx) x = x i ^ 2 + x j ^ 2 + x k ^ 2 ∧
        ∑ m, x m ^ 2 = x idx ^ 2 + (x i ^ 2 + x j ^ 2 + x k ^ 2) := by
  have hloop : ∀ x : Fin 4 → K, sumSq (UInt64.ofNat idx) x = (if idx = 0 then 0 else x 0 ^ 2) +
      (if idx = 1 then 0 else x 1 ^ 2) + (if idx = 2 then 0 else x 2 ^ 2) +
      (if idx = 3 then 0 else x 3 ^ 2) := by
    intro x
    have hif : ∀ (c : Prop) [Decidable c] (a b : K), (if c then a else a + b) = a + if c then 0 else b := by
      intro c _ a b
      split_ifs
      · rw [add_zero]
      · rfl
    simp only [sumSq, ne_eq, ofNat_fin_inj, ite_not, hif, List.finRange_succ, List.finRange_zero,
      List.map_cons, List.map_nil, List.foldl_cons, List.foldl_nil, zero_add, sq]
    rfl
  have hcases : ∀ i : Fin 4, i = 0 ∨ i = 1 ∨ i = 2 ∨ i = 3 := by decide
  rcases hcases idx with rfl | rfl | rfl | rfl
  · refine ⟨1, 2, 3, by decide, by decide, by decide, by decide, by decide, by decide, by decide,
      fun x => ⟨by simpa using hloop x, ?_⟩⟩
    rw [Fin.sum_univ_four]
    ring
  · refine ⟨0, 2, 3, by decide, by decide, by decide, by decide, by decide, by decide, by decide,
      fun x => ⟨by simpa using hloop x, ?_⟩⟩
    rw [Fin.sum_univ_four]
    ring
  · refine ⟨0, 1, 3, by decide, by decide, by decide, by decide, by decide, by decide, by decide,
      fun x => ⟨by simpa using hloop x, ?_⟩⟩
    rw [Fin.sum_univ_four]
    ring
  · refine ⟨0, 1, 2, by decide, by decide, by decide, by decide, by decide, by decide, by decide,
      fun x => ⟨by simpa using hloop x, ?_⟩⟩
    rw [Fin.sum_univ_four]
    ring

theorem cast_steps {K : Type} [Field K] {bits : ℕ} : ((2 ^ bits - 1 : ℕ) : K) = 2 ^ bits - 1 := by
  rw [Nat.cast_sub Nat.one_le_two_pow]
  push_cast
  rfl

/-- A component comes back as an odd number of half steps, and it is in the step around that number. -/
theorem exists_odd (hbits : 1 ≤ bits) (h : bits < 32) {x : K} (hx : |x| ≤ 1) :
    ∃ m : ℤ, Odd m ∧ restoredComponent wide bits x * (2 ^ bits - 1) = m ∧
      m - 1 ≤ x * (2 ^ bits - 1) ∧ x * (2 ^ bits - 1) < m + 1 := by
  have hpow : 2 ≤ 2 ^ bits := Nat.le_self_pow (by omega) 2
  have hcast : ((2 ^ bits - 1 : ℕ) : K) = 2 ^ bits - 1 := cast_steps
  have hsteps : (0 : K) < 2 ^ bits - 1 := by
    rw [← hcast, Nat.cast_pos]
    omega
  obtain ⟨hlow, hhigh⟩ := abs_le.mp hx
  have hplace : clamp ((x - -1) / (1 - -1)) 0 1 = (x + 1) / 2 := by
    unfold clamp
    rw [if_neg (by linarith), if_neg (by linarith)]
    norm_num
  unfold restoredComponent dequantize
  rw [toNat_quantize x (-1) 1 wide h, hplace, hcast]
  have hnonneg : 0 ≤ (x + 1) / 2 * (2 ^ bits - 1) := mul_nonneg (by linarith) hsteps.le
  have hfloor := Nat.floor_le (show 0 ≤ (x + 1) / 2 * (2 ^ bits - 1) + 1 / 2 by linarith)
  have hnext := Nat.lt_floor_add_one ((x + 1) / 2 * (2 ^ bits - 1) + 1 / 2)
  generalize ⌊(x + 1) / 2 * (2 ^ bits - 1) + 1 / 2⌋₊ = k at *
  refine ⟨2 * k - (2 ^ bits - 1 : ℕ), ?_, ?_, ?_, ?_⟩
  · have hodd : Odd (2 ^ bits - 1 : ℕ) := by
      obtain ⟨n, rfl⟩ := Nat.exists_eq_add_of_le hbits
      exact ⟨2 ^ n - 1, by rw [Nat.pow_add]; have := Nat.one_le_two_pow (n := n); omega⟩
    exact (even_two_mul (k : ℤ)).sub_odd (by exact_mod_cast hodd)
  · push_cast [hcast]
    field_simp
    ring
  · push_cast [hcast]
    linarith
  · push_cast [hcast]
    linarith

/-- With 2 bits a component is 1 or a third, up to its sign. -/
theorem restored_two {x : K} (hx : |x| ≤ 1) :
    Outer 2 3 x ∧ restoredComponent wide 2 x ^ 2 = 1 ∨
      ¬Outer 2 3 x ∧ restoredComponent wide 2 x ^ 2 = 1 / 9 := by
  obtain ⟨m, hodd, hrestored, hlow, hhigh⟩ := exists_odd wide (show 1 ≤ 2 by omega) (by omega) hx
  have hthird : restoredComponent wide 2 x = m / 3 := by linarith
  obtain ⟨hge, hle⟩ := abs_le.mp hx
  have hmin : -4 < m := by
    have : (-4 : K) < m := by linarith
    exact_mod_cast this
  have hmax : m ≤ 4 := by
    have : (m : K) ≤ 4 := by linarith
    exact_mod_cast this
  obtain ⟨n, hn⟩ := hodd
  have hcases : m = -3 ∨ m = 3 ∨ m = -1 ∨ m = 1 := by omega
  unfold Outer
  rw [hthird]
  rcases hcases with rfl | rfl | rfl | rfl
  · left
    push_cast at hhigh
    exact ⟨Or.inr (by linarith), by norm_num⟩
  · left
    push_cast at hlow
    exact ⟨Or.inl (by linarith), by norm_num⟩
  · right
    push_cast at hlow hhigh
    exact ⟨not_or.mpr ⟨by linarith, by linarith⟩, by norm_num⟩
  · right
    push_cast at hlow hhigh
    exact ⟨not_or.mpr ⟨by linarith, by linarith⟩, by norm_num⟩

/-- With 3 bits a component that is not the only large one is 1, 3 or 5 sevenths, up to its sign. -/
theorem restored_three {x : K} (hx : x ^ 2 ≤ 1 / 2) :
    Outer 4 7 x ∧ restoredComponent wide 3 x ^ 2 = 25 / 49 ∨
      ¬Outer 4 7 x ∧ 1 / 49 ≤ restoredComponent wide 3 x ^ 2 ∧
        restoredComponent wide 3 x ^ 2 ≤ 9 / 49 := by
  have habs : |x| ≤ 6 / 7 := abs_le_of_sq_le_sq (by linarith) (by norm_num)
  obtain ⟨m, hodd, hrestored, hlow, hhigh⟩ := exists_odd wide (show 1 ≤ 3 by omega) (by omega)
    (habs.trans (by norm_num))
  have hseventh : restoredComponent wide 3 x = m / 7 := by linarith
  obtain ⟨hge, hle⟩ := abs_le.mp habs
  have hne : x ≠ 6 / 7 := by
    rintro rfl
    norm_num at hx
  have hlt : x < 6 / 7 := lt_of_le_of_ne hle hne
  have hmin : -7 < m := by
    have : (-7 : K) < m := by linarith
    exact_mod_cast this
  have hmax : m < 7 := by
    have : (m : K) < 7 := by linarith
    exact_mod_cast this
  obtain ⟨n, hn⟩ := hodd
  have hcases : m = -5 ∨ m = 5 ∨ m = -3 ∨ m = 3 ∨ m = -1 ∨ m = 1 := by omega
  unfold Outer
  rw [hseventh]
  rcases hcases with rfl | rfl | rfl | rfl | rfl | rfl
  · left
    push_cast at hhigh
    exact ⟨Or.inr (by linarith), by norm_num⟩
  · left
    push_cast at hlow
    exact ⟨Or.inl (by linarith), by norm_num⟩
  all_goals
    right
    push_cast at hlow hhigh
    exact ⟨not_or.mpr ⟨by linarith, by linarith⟩, by norm_num, by norm_num⟩

/-- A component comes back within half a step. -/
theorem abs_restored_sub_le (hbits : 1 ≤ bits) (h : bits < 32) {x : K} (hx : |x| ≤ 1) :
    |restoredComponent wide bits x - x| ≤ 1 / (2 ^ bits - 1 : ℕ) := by
  rw [cast_steps]
  obtain ⟨hlow, hhigh⟩ := abs_le.mp hx
  have hhalf := abs_dequantize_sub_le x wide hbits h (show (-1 : K) < 1 by norm_num)
  have hclamp : clamp x (-1) 1 = x := by
    unfold clamp
    rw [if_neg (by linarith), if_neg (by linarith)]
  have hstep : (1 - -1 : K) / (2 * (2 ^ bits - 1)) = 1 / (2 ^ bits - 1) := by
    rw [show (1 - -1 : K) = 2 * 1 by norm_num, mul_div_mul_left _ _ two_ne_zero]
  rwa [hclamp, hstep] at hhalf

/-- With 4 bits and more the squares of the components grow by less than what the largest leaves. -/
theorem sq_restored_le (hbits : 4 ≤ bits) (h : bits < 32) {x : K} (hx : |x| ≤ 1) :
    restoredComponent wide bits x ^ 2 ≤ x ^ 2 + 2 / 15 * (x ^ 2 + 1 / 4) + 1 / 225 := by
  have hpow : 2 ^ 4 ≤ 2 ^ bits := Nat.pow_le_pow_right (by omega) hbits
  have hsteps : (15 : K) ≤ 2 ^ bits - 1 := by
    have : ((2 ^ 4 : ℕ) : K) ≤ (2 ^ bits : ℕ) := Nat.cast_le.mpr hpow
    push_cast at this
    linarith
  have hstep : 1 / (2 ^ bits - 1 : K) ≤ 1 / 15 := one_div_le_one_div_of_le (by norm_num) hsteps
  have hhalf := abs_restored_sub_le wide (by omega) h hx
  rw [cast_steps] at hhalf
  have habs : |restoredComponent wide bits x| ≤ |x| + 1 / 15 := by
    have := abs_add_le x (restoredComponent wide bits x - x)
    rw [add_sub_cancel] at this
    linarith
  have hsq := sq_abs x
  have hmean := sq_nonneg (|x| - 1 / 2)
  calc restoredComponent wide bits x ^ 2 = |restoredComponent wide bits x| ^ 2 := (sq_abs _).symm
    _ ≤ (|x| + 1 / 15) ^ 2 := by gcongr
    _ ≤ x ^ 2 + 2 / 15 * (x ^ 2 + 1 / 4) + 1 / 225 := by linarith

/-- What comes back of the others leaves something for the largest. -/
theorem sumSq_lt_one_iff {quat : Fin 4 → K} (hunit : ∑ i, quat i ^ 2 = 1) (hbits : 2 ≤ bits)
    (h : bits < 32) :
    sumSq (UInt64.ofNat (largestIdx quat)) (fun i => restoredComponent wide bits (quat i)) < 1 ↔
      (bits = 2 → ∀ i ≠ largestIdx quat, ¬Outer 2 3 (quat i)) ∧
        (bits = 3 → ∀ i ≠ largestIdx quat, ∀ j ≠ largestIdx quat,
          Outer 4 7 (quat i) → Outer 4 7 (quat j) → i = j) := by
  have hlargest : ∀ m, quat m ^ 2 ≤ quat (largestIdx quat) ^ 2 := fun m =>
    sq_le_sq.mpr (abs_le_largest quat m)
  obtain ⟨i, j, k, hi, hj, hk, hij, hik, hjk, hall, hsums⟩ := exists_others (K := K) (largestIdx quat)
  have hforall : ∀ P : Fin 4 → Prop, (∀ m ≠ largestIdx quat, P m) ↔ P i ∧ P j ∧ P k := by
    intro P
    constructor
    · exact fun hP => ⟨hP i hi, hP j hj, hP k hk⟩
    · rintro ⟨hPi, hPj, hPk⟩ m hm
      rcases hall m hm with rfl | rfl | rfl
      · exact hPi
      · exact hPj
      · exact hPk
  have hsum := (hsums quat).2
  rw [hunit] at hsum
  have hhalf : ∀ m ≠ largestIdx quat, quat m ^ 2 ≤ 1 / 2 := by
    rw [hforall]
    have := hlargest i
    have := hlargest j
    have := hlargest k
    have := sq_nonneg (quat i)
    have := sq_nonneg (quat j)
    have := sq_nonneg (quat k)
    exact ⟨by linarith, by linarith, by linarith⟩
  have hunits : ∀ m ≠ largestIdx quat, |quat m| ≤ 1 := fun m hm =>
    abs_le_of_sq_le_sq (by linarith [hhalf m hm]) zero_le_one
  rw [(hsums _).1]
  simp only [hforall]
  obtain rfl | rfl | hmany : bits = 2 ∨ bits = 3 ∨ 4 ≤ bits := by omega
  · rcases restored_two wide (hunits i hi) with ⟨hoi, hri⟩ | ⟨hoi, hri⟩ <;>
    rcases restored_two wide (hunits j hj) with ⟨hoj, hrj⟩ | ⟨hoj, hrj⟩ <;>
    rcases restored_two wide (hunits k hk) with ⟨hok, hrk⟩ | ⟨hok, hrk⟩ <;>
    norm_num [hoi, hoj, hok, hri, hrj, hrk]
  · rcases restored_three wide (hhalf i hi) with ⟨hoi, hri⟩ | ⟨hoi, hri, hri'⟩ <;>
    rcases restored_three wide (hhalf j hj) with ⟨hoj, hrj⟩ | ⟨hoj, hrj, hrj'⟩ <;>
    rcases restored_three wide (hhalf k hk) with ⟨hok, hrk⟩ | ⟨hok, hrk, hrk'⟩ <;>
    simp [hoi, hoj, hok, hij, hik, hjk, hij.symm, hik.symm, hjk.symm] <;>
    linarith
  · have hri := sq_restored_le wide hmany h (hunits i hi)
    have hrj := sq_restored_le wide hmany h (hunits j hj)
    have hrk := sq_restored_le wide hmany h (hunits k hk)
    have := hlargest i
    have := hlargest j
    have := hlargest k
    refine iff_of_true (by linarith) ⟨by omega, by omega⟩

/-- A component that comes back as well with the other sign is zero. -/
theorem eq_zero_of_opposite (hbits : 1 ≤ bits) (h : bits < 32) {x : K} (hx : |x| ≤ 1)
    (hopposite : |restoredComponent wide bits x - -1 * x| ≤ 1 / (2 ^ bits - 1 : ℕ)) : x = 0 := by
  obtain ⟨m, ⟨n, hn⟩, hrestored, hlow, hhigh⟩ := exists_odd wide hbits h hx
  have hsteps : (0 : K) < 2 ^ bits - 1 := by
    have : (1 : K) < 2 ^ bits := one_lt_pow₀ (by norm_num) (by omega)
    linarith
  rw [cast_steps, neg_one_mul, sub_neg_eq_add, le_div_iff₀ hsteps, ← abs_of_pos hsteps, ← abs_mul,
    add_mul, hrestored, abs_le] at hopposite
  obtain ⟨hge, hle⟩ := hopposite
  have hzero : x * (2 ^ bits - 1) = 0 := by
    rcases le_or_gt 1 m with hpos | hneg
    · have : (1 : K) ≤ m := by exact_mod_cast hpos
      linarith
    · have hm : m ≤ -1 := by omega
      have : (m : K) ≤ -1 := by exact_mod_cast hm
      linarith
  rcases mul_eq_zero.mp hzero with hx0 | hsteps0
  · exact hx0
  · exact absurd hsteps0 hsteps.ne'

theorem largest_ne_zero {quat : Fin 4 → K} (hunit : ∑ i, quat i ^ 2 = 1) :
    quat (largestIdx quat) ≠ 0 := by
  intro hzero
  have hall : ∀ i, quat i = 0 := by
    intro i
    have hle := abs_le_largest quat i
    rw [hzero, abs_zero] at hle
    exact abs_nonpos_iff.mp hle
  simp [hall] at hunit

end

section
variable (wide : ℕ → UInt32) {bits : ℕ} {quat : Fin 4 → ℝ}

theorem restored_largest : restored wide Real.sqrt bits quat (largestIdx quat) =
    √(max 0 (1 - sumSq (UInt64.ofNat (largestIdx quat)) fun i =>
      restoredComponent wide bits (quat i))) := by
  unfold restored
  rw [Function.update_self]

theorem restored_other {i : Fin 4} (hi : i ≠ largestIdx quat) :
    restored wide Real.sqrt bits quat i = restoredComponent wide bits (quat i) := by
  unfold restored
  rw [Function.update_of_ne hi]

theorem sign_restored_largest : SignType.sign (restored wide Real.sqrt bits quat (largestIdx quat)) = 1 ↔
    sumSq (UInt64.ofNat (largestIdx quat)) (fun i => restoredComponent wide bits (quat i)) < 1 := by
  rw [sign_eq_one_iff, restored_largest, Real.sqrt_pos, lt_max_iff, sub_pos]
  exact or_iff_right (lt_irrefl 0)

theorem keepsRotation_restored_iff (hunit : ∑ i, quat i ^ 2 = 1) (hbits : 2 ≤ bits) (h : bits < 32) :
    KeepsRotation bits quat (restored wide Real.sqrt bits quat) ↔ Kept bits quat := by
  have hne := largest_ne_zero hunit
  have hshort := sumSq_lt_one_iff wide hunit hbits h
  rw [← sign_restored_largest wide] at hshort
  have hunits : ∀ i, |quat i| ≤ 1 := by
    intro i
    rw [← sq_le_one_iff_abs_le_one, ← hunit]
    exact Finset.single_le_sum (fun j _ => sq_nonneg (quat j)) (Finset.mem_univ i)
  have hnonneg : 0 ≤ SignType.sign (restored wide Real.sqrt bits quat (largestIdx quat)) := by
    rw [sign_nonneg_iff, restored_largest]
    exact Real.sqrt_nonneg _
  constructor
  · rintro ⟨s, rfl | rfl, hothers, hsign⟩
    · left
      rw [one_mul] at hsign
      have hpos : 0 < quat (largestIdx quat) := by
        rw [hsign, sign_nonneg_iff] at hnonneg
        exact lt_of_le_of_ne hnonneg hne.symm
      exact ⟨hpos, hshort.mp (hsign.trans (sign_pos hpos))⟩
    · right
      intro i hi
      have hother := hothers i hi
      rw [restored_other wide hi] at hother
      exact eq_zero_of_opposite wide (by omega) h (hunits i) hother
  · rintro (⟨hpos, hfits⟩ | hzero)
    · refine ⟨1, Or.inl rfl, fun i hi => ?_, ?_⟩
      · rw [restored_other wide hi, one_mul]
        exact abs_restored_sub_le wide (by omega) h (hunits i)
      · rw [one_mul, sign_pos hpos]
        exact hshort.mpr hfits
    · -- the sign of the largest does for the zeros as well
      have hone : quat (largestIdx quat) ^ 2 = 1 := by
        rw [← hunit, Finset.sum_eq_single_of_mem _ (Finset.mem_univ _)]
        intro i _ hi
        rw [hzero i hi, zero_pow two_ne_zero]
      have hinner : ∀ a b : ℕ, (0 : ℝ) < a / b → ∀ i ≠ largestIdx quat, ¬Outer a b (quat i) := by
        rintro a b hbound i hi (hge | hlt)
        · rw [hzero i hi] at hge
          exact absurd hbound (not_lt.mpr hge)
        · rw [hzero i hi] at hlt
          exact absurd hbound (not_lt.mpr (neg_pos.mp hlt).le)
      refine ⟨quat (largestIdx quat), sq_eq_one_iff.mp hone, fun i hi => ?_, ?_⟩
      · have hother := abs_restored_sub_le wide (by omega) h (hunits i)
        rw [restored_other wide hi]
        rw [hzero i hi] at hother ⊢
        rwa [mul_zero]
      · rw [← sq, hone, sign_one]
        exact hshort.mpr ⟨fun _ => hinner 2 3 (by norm_num),
          fun _ i hi _ _ hout => absurd hout (hinner 4 7 (by norm_num) i hi)⟩

/-- A unit quaternion written with 2 to 16 bits a component comes back, up to one sign and half a step,
if and only if its largest component is positive and the others leave something for it, or it is alone. -/
theorem keepsRotation_iff (array : Fin 4 → ℝ) (hunit : ∑ i, quat i ^ 2 = 1)
    (hbits : 2 ≤ bits) (h : bits ≤ 16) :
    (∃ e out, tape.Codes e (writeSmallestThree wide quat bits)
      (readSmallestThree wide Real.sqrt bits array) out ∧ KeepsRotation bits quat out) ↔
      Kept bits quat := by
  obtain ⟨e, hcodes⟩ := codes_smallestThree wide Real.sqrt (show 1 ≤ bits by omega)
    (by omega) quat array
  rw [← keepsRotation_restored_iff wide hunit hbits (by omega)]
  constructor
  · rintro ⟨e', out, hcodes', hkeeps⟩
    rwa [codes_unique hcodes' hcodes] at hkeeps
  · exact fun hkeeps => ⟨e, _, hcodes, hkeeps⟩

end

/-- A turn about the first axis, with the last component of either sign. -/
noncomputable def turn (last : ℝ) (i : Fin 4) : ℝ :=
  match i.val with
  | 0 => 3 / 5
  | 3 => last
  | _ => 0

theorem sum_turn {last : ℝ} (h : |last| = 4 / 5) : ∑ i, turn last i ^ 2 = 1 := by
  have hsq : last ^ 2 = 16 / 25 := by
    rw [← sq_abs, h]
    norm_num
  rw [Fin.sum_univ_four]
  norm_num [turn, hsq]

theorem largestIdx_turn {last : ℝ} (h : |last| = 4 / 5) : largestIdx (turn last) = 3 := by
  have hle := abs_le_largest (turn last) 3
  have hcases : ∀ i : Fin 4, i = 0 ∨ i = 1 ∨ i = 2 ∨ i = 3 := by decide
  rcases hcases (largestIdx (turn last)) with hidx | hidx | hidx | hidx
  · norm_num [hidx, turn, h, abs_of_pos] at hle
  · norm_num [hidx, turn, h] at hle
  · norm_num [hidx, turn, h] at hle
  · exact hidx

theorem keepsRotation_iff_turn :
    ∃ e out, tape.Codes e (writeSmallestThree lowFive (turn (4 / 5)) 16)
      (readSmallestThree lowFive Real.sqrt 16 0) out ∧ KeepsRotation 16 (turn (4 / 5)) out := by
  have hlast : |(4 / 5 : ℝ)| = 4 / 5 := abs_of_pos (by norm_num)
  refine (keepsRotation_iff lowFive 0 (sum_turn hlast) (by omega) (by omega)).mpr
    (.inl ⟨?_, by omega, by omega⟩)
  rw [largestIdx_turn hlast]
  norm_num [turn]

/-- The same turn, by the one of its two quaternions whose largest component is negative: the first
component comes back with its sign, and the last without. -/
theorem not_keepsRotation_negative :
    ¬∃ e out, tape.Codes e (writeSmallestThree lowFive (turn (-4 / 5)) 16)
      (readSmallestThree lowFive Real.sqrt 16 0) out ∧ KeepsRotation 16 (turn (-4 / 5)) out := by
  rintro ⟨e', out, hcodes', hkeeps⟩
  have hlast : |(-4 / 5 : ℝ)| = 4 / 5 := by norm_num [abs_of_neg]
  obtain ⟨e, hcodes⟩ := codes_smallestThree lowFive Real.sqrt (show 1 ≤ 16 by omega)
    (by omega) (turn (-4 / 5)) 0
  rw [codes_unique hcodes' hcodes,
    keepsRotation_restored_iff lowFive (sum_turn hlast) (by omega) (by omega)] at hkeeps
  unfold Kept at hkeeps
  rw [largestIdx_turn hlast] at hkeeps
  rcases hkeeps with ⟨hpos, -⟩ | hzero
  · norm_num [turn] at hpos
  · have := hzero 0 (by decide)
    norm_num [turn] at this

end CampelloNet.Serialization
