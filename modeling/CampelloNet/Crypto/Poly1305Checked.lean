import CampelloNet.Crypto.Poly1305Limbs

/-!
# Poly1305 with its arithmetic looked at

`poly1305_blocks` once more, with a check of each sum, each product and each cast to a shorter word.
None fails, however the message comes in, and the accumulator is the Horner value of the whole blocks so
far (`accumulator_spec`).
-/

namespace CampelloNet.Crypto

open Lib

/-! ### Words that do not overflow -/

def addWord (a b : UInt32) : Option UInt32 := if a.toNat + b.toNat < 2 ^ 32 then some (a + b) else none

def mulWord (a b : UInt32) : Option UInt32 := if a.toNat * b.toNat < 2 ^ 32 then some (a * b) else none

def addWide (a b : UInt64) : Option UInt64 := if a.toNat + b.toNat < 2 ^ 64 then some (a + b) else none

def mulWide (a b : UInt64) : Option UInt64 := if a.toNat * b.toNat < 2 ^ 64 then some (a * b) else none

def narrow (a : UInt64) : Option UInt32 := if a.toNat < 2 ^ 32 then some a.toUInt32 else none

/-! ### The code with the checks -/

namespace Limbs

def checkedAdd (h m : Limbs) : Option Limbs := do
  let l0 ← addWord h.l0 m.l0
  let l1 ← addWord h.l1 m.l1
  let l2 ← addWord h.l2 m.l2
  let l3 ← addWord h.l3 m.l3
  let l4 ← addWord h.l4 m.l4
  pure ⟨l0, l1, l2, l3, l4⟩

/-- One of the sums of five products. -/
def checkedColumn (h : Limbs) (x0 x1 x2 x3 x4 : UInt32) : Option UInt64 := do
  let p0 ← mulWide h.l0.toUInt64 x0.toUInt64
  let p1 ← mulWide h.l1.toUInt64 x1.toUInt64
  let sum ← addWide p0 p1
  let p2 ← mulWide h.l2.toUInt64 x2.toUInt64
  let sum ← addWide sum p2
  let p3 ← mulWide h.l3.toUInt64 x3.toUInt64
  let sum ← addWide sum p3
  let p4 ← mulWide h.l4.toUInt64 x4.toUInt64
  addWide sum p4

def checkedCarry (d0 d1 d2 d3 d4 : UInt64) : Option Limbs := do
  let c ← narrow (d0 >>> 26)
  let h0 := d0.toUInt32 &&& 0x3ffffff
  let d1 ← addWide d1 c.toUInt64
  let c ← narrow (d1 >>> 26)
  let h1 := d1.toUInt32 &&& 0x3ffffff
  let d2 ← addWide d2 c.toUInt64
  let c ← narrow (d2 >>> 26)
  let h2 := d2.toUInt32 &&& 0x3ffffff
  let d3 ← addWide d3 c.toUInt64
  let c ← narrow (d3 >>> 26)
  let h3 := d3.toUInt32 &&& 0x3ffffff
  let d4 ← addWide d4 c.toUInt64
  let c ← narrow (d4 >>> 26)
  let h4 := d4.toUInt32 &&& 0x3ffffff
  let c5 ← mulWord c 5
  let h0 ← addWord h0 c5
  let c := h0 >>> 26
  let h0 := h0 &&& 0x3ffffff
  let h1 ← addWord h1 c
  pure ⟨h0, h1, h2, h3, h4⟩

def checkedMul (h r : Limbs) : Option Limbs := do
  let s1 ← mulWord r.l1 5
  let s2 ← mulWord r.l2 5
  let s3 ← mulWord r.l3 5
  let s4 ← mulWord r.l4 5
  let d0 ← h.checkedColumn r.l0 s4 s3 s2 s1
  let d1 ← h.checkedColumn r.l1 r.l0 s4 s3 s2
  let d2 ← h.checkedColumn r.l2 r.l1 r.l0 s4 s3
  let d3 ← h.checkedColumn r.l3 r.l2 r.l1 r.l0 s4
  let d4 ← h.checkedColumn r.l4 r.l3 r.l2 r.l1 r.l0
  checkedCarry d0 d1 d2 d3 d4

end Limbs

def Poly1305State.checkedAbsorb (st : Poly1305State) (m : Bytes) (hibit : UInt32) :
    Option Poly1305State := do
  let h ← st.h.checkedAdd (.ofBlock m hibit)
  let h ← h.checkedMul st.r
  pure { st with h := h }

def checkedBlocks (hibit : UInt32) : ℕ → Bytes → Poly1305State → Option Poly1305State
  | 0, _, st => some st
  | n + 1, m, st => do
    let st ← st.checkedAbsorb (m.take 16) hibit
    checkedBlocks hibit n (m.drop 16) st

def checkedWhole (st : Poly1305State) (m : Bytes) : Option Poly1305State := do
  let n := m.length / 16
  let st' ← checkedBlocks hibit n m st
  pure { st' with buffer := st.buffer ++ m.drop (16 * n) }

/-- `poly1305_update`, with the checks. -/
def checkedUpdate (st : Poly1305State) (m : Bytes) : Option Poly1305State :=
  if st.buffer.length ≠ 0 then
    let want := min (16 - st.buffer.length) m.length
    let st := { st with buffer := st.buffer ++ m.take want }
    if st.buffer.length < 16 then some st
    else do
      let st ← st.checkedAbsorb st.buffer hibit
      checkedWhole { st with buffer := [] } (m.drop want)
  else checkedWhole st m

namespace Poly1305

/-- Horner's rule on the whole blocks of a message, from 0. -/
def horner (r : ℕ) (message : Bytes) : ℕ :=
  absorb 16 (fun acc block => (acc + leNat block + 2 ^ 128) * r) (message.length / 16) 0 message

/-! ### No check fails -/

theorem addWord_eq {a b : UInt32} (h : a.toNat + b.toNat < 2 ^ 32) : addWord a b = some (a + b) := if_pos h

theorem mulWord_eq {a b : UInt32} (h : a.toNat * b.toNat < 2 ^ 32) : mulWord a b = some (a * b) := if_pos h

theorem addWide_eq {a b : UInt64} (h : a.toNat + b.toNat < 2 ^ 64) : addWide a b = some (a + b) := if_pos h

theorem mulWide_eq (a b : UInt32) :
    mulWide a.toUInt64 b.toUInt64 = some (a.toUInt64 * b.toUInt64) := by
  apply if_pos
  rw [UInt32.toNat_toUInt64, UInt32.toNat_toUInt64]
  calc a.toNat * b.toNat < 2 ^ 32 * 2 ^ 32 := Nat.mul_lt_mul'' a.toNat_lt b.toNat_lt
    _ = 2 ^ 64 := by norm_num

theorem narrow_eq {d : UInt64} (h : d.toNat < 2 ^ 58) :
    narrow (d >>> 26) = some (d >>> 26).toUInt32 := by
  apply if_pos
  rw [UInt64.toNat_shiftRight, Nat.shiftRight_eq_div_pow]
  simp only [UInt64.reduceToNat, Nat.reduceMod]
  omega

theorem checkedAdd_eq {h m : Limbs} (hh : (digits h).Below (2 ^ 31)) (hm : (digits m).Below (2 ^ 31)) :
    h.checkedAdd m = some (h.add m) := by
  obtain ⟨h0, h1, h2, h3, h4⟩ := hh
  obtain ⟨m0, m1, m2, m3, m4⟩ := hm
  simp only [digits] at h0 h1 h2 h3 h4 m0 m1 m2 m3 m4
  unfold Limbs.checkedAdd
  rw [addWord_eq (by omega), addWord_eq (by omega), addWord_eq (by omega), addWord_eq (by omega),
    addWord_eq (by omega)]
  rfl

theorem checkedColumn_eq {h : Limbs} {x0 x1 x2 x3 x4 : UInt32} (hh : (digits h).Below (2 ^ 28))
    (hx0 : x0.toNat < 2 ^ 29) (hx1 : x1.toNat < 2 ^ 29) (hx2 : x2.toNat < 2 ^ 29)
    (hx3 : x3.toNat < 2 ^ 29) (hx4 : x4.toNat < 2 ^ 29) :
    h.checkedColumn x0 x1 x2 x3 x4 = some (h.l0.toUInt64 * x0.toUInt64 + h.l1.toUInt64 * x1.toUInt64 +
      h.l2.toUInt64 * x2.toUInt64 + h.l3.toUInt64 * x3.toUInt64 + h.l4.toUInt64 * x4.toUInt64) := by
  obtain ⟨h0, h1, h2, h3, h4⟩ := hh
  simp only [digits] at h0 h1 h2 h3 h4
  have t0 := Nat.mul_lt_mul'' h0 hx0
  have t1 := Nat.mul_lt_mul'' h1 hx1
  have t2 := Nat.mul_lt_mul'' h2 hx2
  have t3 := Nat.mul_lt_mul'' h3 hx3
  have t4 := Nat.mul_lt_mul'' h4 hx4
  rw [← toNat_mul] at t0 t1 t2 t3 t4
  unfold Limbs.checkedColumn
  simp only [mulWide_eq, Option.bind_eq_bind, Option.bind_some]
  generalize h.l0.toUInt64 * x0.toUInt64 = p0 at *
  generalize h.l1.toUInt64 * x1.toUInt64 = p1 at *
  generalize h.l2.toUInt64 * x2.toUInt64 = p2 at *
  generalize h.l3.toUInt64 * x3.toUInt64 = p3 at *
  generalize h.l4.toUInt64 * x4.toUInt64 = p4 at *
  rw [addWide_eq (by omega), Option.bind_some,
    addWide_eq (by rw [UInt64.toNat_add]; omega), Option.bind_some,
    addWide_eq (by rw [UInt64.toNat_add, UInt64.toNat_add]; omega), Option.bind_some,
    addWide_eq (by rw [UInt64.toNat_add, UInt64.toNat_add, UInt64.toNat_add]; omega)]

theorem checkedCarry_eq {d0 d1 d2 d3 d4 : UInt64} (h0 : d0.toNat < 7 * 2 ^ 55)
    (h1 : d1.toNat < 7 * 2 ^ 55) (h2 : d2.toNat < 7 * 2 ^ 55) (h3 : d3.toNat < 7 * 2 ^ 55)
    (h4 : d4.toNat < 3 * 2 ^ 54) :
    Limbs.checkedCarry d0 d1 d2 d3 d4 = some (carried d0 d1 d2 d3 d4) := by
  have hadd : ∀ {d e : UInt64}, d.toNat < 2 ^ 58 → e.toNat < 2 ^ 58 →
      addWide e (d >>> 26).toUInt32.toUInt64 = some (e + (d >>> 26).toUInt32.toUInt64) := by
    intro d e hd he
    apply addWide_eq
    rw [UInt32.toNat_toUInt64, toNat_carry hd]
    omega
  unfold Limbs.checkedCarry carried
  simp only [Option.bind_eq_bind]
  -- each carry is into a word that has room for it
  have e1 := toNat_add_carry (d := d0) (e := d1) (by omega) (by omega)
  rw [narrow_eq (by omega), Option.bind_some, hadd (by omega) (by omega), Option.bind_some]
  generalize d1 + (d0 >>> 26).toUInt32.toUInt64 = f1 at e1 ⊢
  have e2 := toNat_add_carry (d := f1) (e := d2) (by omega) (by omega)
  rw [narrow_eq (by omega), Option.bind_some, hadd (by omega) (by omega), Option.bind_some]
  generalize d2 + (f1 >>> 26).toUInt32.toUInt64 = f2 at e2 ⊢
  have e3 := toNat_add_carry (d := f2) (e := d3) (by omega) (by omega)
  rw [narrow_eq (by omega), Option.bind_some, hadd (by omega) (by omega), Option.bind_some]
  generalize d3 + (f2 >>> 26).toUInt32.toUInt64 = f3 at e3 ⊢
  have e4 := toNat_add_carry (d := f3) (e := d4) (by omega) (by omega)
  rw [narrow_eq (by omega), Option.bind_some, hadd (by omega) (by omega), Option.bind_some]
  generalize d4 + (f3 >>> 26).toUInt32.toUInt64 = f4 at e4 ⊢
  -- five times the last one goes in at the bottom
  have hcarry := toNat_carry (d := f4) (by omega)
  have hfive : mulWord (f4 >>> 26).toUInt32 5 = some ((f4 >>> 26).toUInt32 * 5) := by
    apply mulWord_eq
    rw [hcarry]
    simp only [UInt32.reduceToNat]
    omega
  have hlow : addWord (d0.toUInt32 &&& (0x3ffffff : UInt32)) ((f4 >>> 26).toUInt32 * 5) =
      some ((d0.toUInt32 &&& (0x3ffffff : UInt32)) + (f4 >>> 26).toUInt32 * 5) := by
    apply addWord_eq
    have hle := Nat.mod_le (f4.toNat / 2 ^ 26 * 5) (2 ^ 32)
    rw [toNat_low, UInt32.toNat_mul, hcarry]
    simp only [UInt32.reduceToNat]
    omega
  rw [narrow_eq (by omega), Option.bind_some, hfive, Option.bind_some, hlow, Option.bind_some]
  generalize (d0.toUInt32 &&& (0x3ffffff : UInt32)) + (f4 >>> 26).toUInt32 * 5 = low
  have hlast : addWord (f1.toUInt32 &&& (0x3ffffff : UInt32)) (low >>> 26) =
      some ((f1.toUInt32 &&& (0x3ffffff : UInt32)) + low >>> 26) := by
    apply addWord_eq
    have := low.toNat_lt
    rw [toNat_low, UInt32.toNat_shiftRight, Nat.shiftRight_eq_div_pow]
    simp only [UInt32.reduceToNat, Nat.reduceMod]
    omega
  rw [hlast]
  rfl

theorem checkedMul_eq {h r : Limbs} (hh : (digits h).Below (2 ^ 27 + 64)) (hr : (digits r).Below (2 ^ 26)) :
    h.checkedMul r = some (h.mul r) := by
  have hfive : ∀ x : UInt32, x.toNat < 2 ^ 26 →
      mulWord x 5 = some (x * 5) ∧ (x * 5).toNat < 2 ^ 26 * 5 := by
    intro x hx
    constructor
    · apply mulWord_eq
      simp only [UInt32.reduceToNat]
      omega
    · have hle := Nat.mod_le (x.toNat * 5) (2 ^ 32)
      rw [UInt32.toNat_mul]
      simp only [UInt32.reduceToNat]
      omega
  have hsmall : (digits h).Below (2 ^ 28) := by
    obtain ⟨h0, h1, h2, h3, h4⟩ := hh
    exact ⟨by omega, by omega, by omega, by omega, by omega⟩
  obtain ⟨hh0, hh1, hh2, hh3, hh4⟩ := hh
  obtain ⟨hr0, hr1, hr2, hr3, hr4⟩ := hr
  simp only [digits] at hh0 hh1 hh2 hh3 hh4 hr0 hr1 hr2 hr3 hr4
  have hcolumn : ∀ {x0 x1 x2 x3 x4 : UInt32}, x0.toNat < 2 ^ 26 * 5 → x1.toNat < 2 ^ 26 * 5 →
      x2.toNat < 2 ^ 26 * 5 → x3.toNat < 2 ^ 26 * 5 → x4.toNat < 2 ^ 26 * 5 →
      (h.l0.toUInt64 * x0.toUInt64 + h.l1.toUInt64 * x1.toUInt64 + h.l2.toUInt64 * x2.toUInt64 +
        h.l3.toUInt64 * x3.toUInt64 + h.l4.toUInt64 * x4.toUInt64).toNat < 7 * 2 ^ 55 := by
    intro x0 x1 x2 x3 x4 hx0 hx1 hx2 hx3 hx4
    rw [toNat_column hh0 hh1 hh2 hh3 hh4 hx0 hx1 hx2 hx3 hx4 le_rfl]
    exact (column_lt hh0 hh1 hh2 hh3 hh4 hx0 hx1 hx2 hx3 hx4).trans (by decide)
  have htop : (h.l0.toUInt64 * r.l4.toUInt64 + h.l1.toUInt64 * r.l3.toUInt64 +
      h.l2.toUInt64 * r.l2.toUInt64 + h.l3.toUInt64 * r.l1.toUInt64 +
      h.l4.toUInt64 * r.l0.toUInt64).toNat < 3 * 2 ^ 54 := by
    rw [toNat_column hh0 hh1 hh2 hh3 hh4 hr4 hr3 hr2 hr1 hr0 (by decide)]
    exact (column_lt hh0 hh1 hh2 hh3 hh4 hr4 hr3 hr2 hr1 hr0).trans (by decide)
  obtain ⟨e1, s1⟩ := hfive r.l1 hr1
  obtain ⟨e2, s2⟩ := hfive r.l2 hr2
  obtain ⟨e3, s3⟩ := hfive r.l3 hr3
  obtain ⟨e4, s4⟩ := hfive r.l4 hr4
  unfold Limbs.checkedMul
  rw [e1, e2, e3, e4]
  simp only [Option.bind_eq_bind, Option.bind_some]
  rw [checkedColumn_eq hsmall (by omega) (by omega) (by omega) (by omega) (by omega), Option.bind_some,
    checkedColumn_eq hsmall (by omega) (by omega) (by omega) (by omega) (by omega), Option.bind_some,
    checkedColumn_eq hsmall (by omega) (by omega) (by omega) (by omega) (by omega), Option.bind_some,
    checkedColumn_eq hsmall (by omega) (by omega) (by omega) (by omega) (by omega), Option.bind_some,
    checkedColumn_eq hsmall (by omega) (by omega) (by omega) (by omega) (by omega), Option.bind_some,
    checkedCarry_eq (hcolumn (by omega) (by omega) (by omega) (by omega) (by omega))
      (hcolumn (by omega) (by omega) (by omega) (by omega) (by omega))
      (hcolumn (by omega) (by omega) (by omega) (by omega) (by omega))
      (hcolumn (by omega) (by omega) (by omega) (by omega) (by omega)) htop]
  rfl

/-! ### The run -/

section
variable {key : Key} {message : Bytes} {st : Poly1305State}

theorem checkedAbsorb_eq (st : Poly1305State) (hr : st.r = (poly1305Init key).r) (hsmall : Small (digits st.h)) {m : Bytes}
    (hm : m.length = 16) : st.checkedAbsorb m hibit = some (st.absorb m hibit) := by
  have hblock := below_block hm (show hibit.toNat % 2 ^ 24 = 0 by decide) (by decide)
  have hbelow : (digits st.r).Below (2 ^ 26) := by
    rw [hr, digits_init]
    exact below_ofNat (clamp_lt _ key)
  obtain ⟨h0, h1, h2, h3, h4⟩ := hsmall
  obtain ⟨m0, m1, m2, m3, m4⟩ := hblock
  unfold Poly1305State.checkedAbsorb
  rw [checkedAdd_eq ⟨by omega, by omega, by omega, by omega, by omega⟩
    ⟨by omega, by omega, by omega, by omega, by omega⟩]
  simp only [Option.bind_eq_bind, Option.bind_some]
  rw [checkedMul_eq (digits_add ⟨h0, h1, h2, h3, h4⟩ ⟨m0, m1, m2, m3, m4⟩).2 hbelow]
  rfl

theorem checkedBlocks_eq (n : ℕ) (hr : st.r = (poly1305Init key).r) (hsmall : Small (digits st.h))
    {m : Bytes} (hm : 16 * n ≤ m.length) :
    checkedBlocks hibit n m st = some (poly1305Blocks hibit n m st) := by
  induction n generalizing m st with
  | zero => rfl
  | succ n ih =>
    have hblock : (m.take 16).length = 16 := by
      rw [List.length_take]
      omega
    have hrest : 16 * n ≤ (m.drop 16).length := by
      rw [List.length_drop]
      omega
    rw [checkedBlocks, checkedAbsorb_eq st hr hsmall hblock, poly1305Blocks]
    have hr' : (st.absorb (m.take 16) hibit).r = (poly1305Init key).r := hr
    exact ih hr' (small_mul _ _) hrest

theorem checkedWhole_eq (st : Poly1305State) (hr : st.r = (poly1305Init key).r) (hsmall : Small (digits st.h)) (m : Bytes) :
    checkedWhole st m = some (poly1305Whole st m) := by
  unfold checkedWhole
  dsimp only
  rw [checkedBlocks_eq (m.length / 16) hr hsmall (by omega)]
  rfl

theorem checkedUpdate_eq (h : Taken key message st) (m : Bytes) :
    checkedUpdate st m = some (poly1305Update st m) := by
  have hfits := h.absorbed.fits
  unfold checkedUpdate poly1305Update
  split
  · dsimp only
    split
    · rfl
    · rename_i hfull
      have hblock : (st.buffer ++ m.take (min (16 - st.buffer.length) m.length)).length = 16 := by
        rw [List.length_append, List.length_take] at hfull ⊢
        omega
      rw [checkedAbsorb_eq { st with buffer := st.buffer ++ _ } h.r h.small hblock]
      exact checkedWhole_eq { st with h := _, buffer := [] } h.r (small_mul _ _) _
  · exact checkedWhole_eq st h.r h.small m

theorem checkedUpdates_eq (h : Taken key message st) (chunks : List Bytes) :
    chunks.foldlM checkedUpdate st = some (chunks.foldl poly1305Update st) := by
  induction chunks generalizing message st with
  | nil => rfl
  | cons chunk chunks ih =>
    rw [List.foldlM_cons, checkedUpdate_eq h]
    exact ih (taken_update h chunk)

/-! ### Horner's rule -/

theorem value_absorb (r n : ℕ) {d : Digits} {a : ℕ} (h : d.value ≡ a [MOD P]) {data : Bytes}
    (hlength : 16 * n ≤ data.length) : (absorb 16 (Digits.step r) n d data).value ≡
      absorb 16 (fun acc block => (acc + leNat block + 2 ^ 128) * r) n a data [MOD P] := by
  induction n generalizing d a data with
  | zero => exact h
  | succ n ih =>
    have hrest : 16 * n ≤ (data.drop 16).length := by
      rw [List.length_drop]
      omega
    have hblock : leNat (data.take 16 ++ [1]) = leNat (data.take 16) + 2 ^ 128 := by
      rw [leNat_append, List.length_take, Nat.min_eq_left (by omega)]
      rfl
    have hstep := (Digits.value_step r h (data.take 16)).trans (Nat.mod_modEq _ _)
    rw [hblock, ← Nat.add_assoc] at hstep
    exact ih hstep hrest

theorem value_taken (h : Taken key message st) :
    (digits st.h).value ≡ horner (clamp 0xfe key) message [MOD P] ∧
      st.buffer = message.drop (16 * (message.length / 16)) := by
  obtain ⟨whole, hsplit, hlength, hdigits⟩ := h.absorbed.count
  have hprefix : absorb 16 (Digits.step (clamp 0xfe key)) (message.length / 16) ⟨0, 0, 0, 0, 0⟩ message =
      digits st.h := by
    have happend : absorb 16 (Digits.step (clamp 0xfe key)) (message.length / 16 + 0) ⟨0, 0, 0, 0, 0⟩
        (whole ++ st.buffer) = absorb 16 _ 0 (absorb 16 _ (message.length / 16) _ whole) st.buffer :=
      absorb_append 16 _ hlength
    rw [← hsplit, ← hdigits] at happend
    exact happend
  constructor
  · rw [← hprefix]
    exact value_absorb _ _ rfl (Nat.mul_div_le _ _)
  · rw [← hlength]
    conv_rhs => rw [hsplit, List.drop_left]

end

/-- After any calls of `poly1305_update`, however the message is cut into chunks: no sum, product or cast
has overflowed, the accumulator is the Horner value of the whole blocks so far, its limbs are small, and
the rest of the message is in the buffer. -/
theorem accumulator_spec (key : Key) (chunks : List Bytes) :
    let st := chunks.foldl poly1305Update (poly1305Init key)
    let message := chunks.flatten
    chunks.foldlM checkedUpdate (poly1305Init key) = some st ∧
      (digits st.r).value = clamp 0xfe key ∧
      (digits st.h).value ≡ horner (clamp 0xfe key) message [MOD P] ∧
      Small (digits st.h) ∧
      st.buffer = message.drop (16 * (message.length / 16)) := by
  intro st message
  have htaken := taken_chunks (taken_init key) chunks
  rw [List.nil_append] at htaken
  obtain ⟨hvalue, hbuffer⟩ := value_taken htaken
  have hr : (digits st.r).value = clamp 0xfe key := by
    rw [htaken.r, digits_init, Digits.value_ofNat]
  exact ⟨checkedUpdates_eq (taken_init key) chunks, hr, hvalue, htaken.small, hbuffer⟩

end Poly1305

end CampelloNet.Crypto
