import CampelloNet.Crypto.HmacSha256
import CampelloNet.Lib.Blocks
import Mathlib.Data.Nat.Find

/-!
# SHA-256 and HMAC as the standards have them

`Standard` is the hash function as it is specified: the padded message, the message schedule as a
recurrence, the constants as the roots they are taken from. The code computes it, in whatever pieces
the message comes (`final_eq`), and HMAC over it.
-/

namespace CampelloNet.Crypto

open Lib

namespace Sha256

namespace Standard

def rotr (n : ℕ) (x : UInt32) : UInt32 := ⟨x.toBitVec.rotateRight n⟩

def shr (n : ℕ) (x : UInt32) : UInt32 := ⟨x.toBitVec >>> n⟩

def ch (x y z : UInt32) : UInt32 := (x &&& y) ^^^ (~~~x &&& z)

def maj (x y z : UInt32) : UInt32 := (x &&& y) ^^^ (x &&& z) ^^^ (y &&& z)

def bigSigma0 (x : UInt32) : UInt32 := rotr 2 x ^^^ rotr 13 x ^^^ rotr 22 x

def bigSigma1 (x : UInt32) : UInt32 := rotr 6 x ^^^ rotr 11 x ^^^ rotr 25 x

def smallSigma0 (x : UInt32) : UInt32 := rotr 7 x ^^^ rotr 18 x ^^^ shr 3 x

def smallSigma1 (x : UInt32) : UInt32 := rotr 17 x ^^^ rotr 19 x ^^^ shr 10 x

/-- The first 64 prime numbers. -/
def primes : List ℕ :=
  (List.range 312).filter fun p => 2 ≤ p && (List.range' 2 (p - 2)).all (p % · ≠ 0)

/-- The integer part of the `k`-th root. -/
def root (k n : ℕ) : ℕ := Nat.findGreatest (fun r => r ^ k ≤ n) n

/-- The first 32 bits of the fractional part of the `k`-th root of `p`. -/
def rootBits (k p : ℕ) : UInt32 := .ofNat (root k (p * 2 ^ (32 * k)))

def K (t : ℕ) : UInt32 := rootBits 3 (primes.getD t 0)

def initial : Words :=
  ⟨rootBits 2 2, rootBits 2 3, rootBits 2 5, rootBits 2 7, rootBits 2 11, rootBits 2 13,
    rootBits 2 17, rootBits 2 19⟩

/-- Word `t` of a block. -/
def word (block : Bytes) (t : ℕ) : UInt32 :=
  .ofNat ((block.getD (4 * t) 0).toNat * 2 ^ 24 + (block.getD (4 * t + 1) 0).toNat * 2 ^ 16 +
    (block.getD (4 * t + 2) 0).toNat * 2 ^ 8 + (block.getD (4 * t + 3) 0).toNat)

/-- The message schedule. -/
def W (block : Bytes) (t : ℕ) : UInt32 :=
  if t < 16 then word block t
  else smallSigma1 (W block (t - 2)) + W block (t - 7) + smallSigma0 (W block (t - 15)) +
    W block (t - 16)
termination_by t

def round (block : Bytes) (w : Words) (t : ℕ) : Words :=
  let t1 := w.h + bigSigma1 w.e + ch w.e w.f w.g + K t + W block t
  let t2 := bigSigma0 w.a + maj w.a w.b w.c
  ⟨t1 + t2, w.a, w.b, w.c, w.d + t1, w.e, w.f, w.g⟩

def compress (hash : Words) (block : Bytes) : Words :=
  hash.add ((List.range 64).foldl (round block) hash)

/-- A number in eight bytes. -/
def lengthBytes (n : ℕ) : Bytes := (List.range 8).map fun i => .ofNat (n / 256 ^ (7 - i))

/-- The message with a one bit, zeros up to eight bytes before the end of a block, and its length in
bits (64 of them). -/
def pad (message : Bytes) : Bytes :=
  message ++ 0x80 :: (List.replicate ((119 - message.length % 64) % 64) 0 ++
    lengthBytes (8 * message.length))

def wordBytes (w : UInt32) : Bytes := (List.range 4).map fun i => .ofNat (w.toNat / 256 ^ (3 - i))

def digest (message : Bytes) : Bytes :=
  (absorb 64 compress ((pad message).length / 64) initial (pad message)).toList.flatMap wordBytes

/-- HMAC over a hash function with blocks of 64 bytes. -/
def hmac (hash : Bytes → Bytes) (key text : Bytes) : Bytes :=
  let key := if key.length > 64 then hash key else key
  let block := key ++ List.replicate (64 - key.length) 0
  hash (block.map (· ^^^ 0x5c) ++ hash (block.map (· ^^^ 0x36) ++ text))

end Standard

/-! ### Words -/

theorem rotr_eq {n : ℕ} (hpos : 0 < n) (hn : n < 32) (x : UInt32) :
    rotr x (.ofNat n) = Standard.rotr n x := by
  have hmod : (UInt32.ofNat n).toBitVec % 32 = BitVec.ofNat 32 n := by
    apply BitVec.eq_of_toNat_eq
    simp
    omega
  have hsub : (32 - UInt32.ofNat n).toBitVec % 32 = BitVec.ofNat 32 (32 - n) := by
    apply BitVec.eq_of_toNat_eq
    simp
    omega
  have hwide : n < 4294967296 := by omega
  have hrest : 32 - n < 4294967296 := by omega
  apply UInt32.toBitVec_inj.mp
  unfold rotr Standard.rotr
  rw [UInt32.toBitVec_or, UInt32.toBitVec_shiftRight, UInt32.toBitVec_shiftLeft, hmod, hsub,
    BitVec.rotateRight_def]
  simp [Nat.mod_eq_of_lt hn, Nat.mod_eq_of_lt hwide, Nat.mod_eq_of_lt hrest]

theorem ep0_eq (x : UInt32) : ep0 x = Standard.bigSigma0 x := by
  rw [Standard.bigSigma0, ← rotr_eq (by decide) (by decide), ← rotr_eq (by decide) (by decide),
    ← rotr_eq (by decide) (by decide)]
  rfl

theorem ep1_eq (x : UInt32) : ep1 x = Standard.bigSigma1 x := by
  rw [Standard.bigSigma1, ← rotr_eq (by decide) (by decide), ← rotr_eq (by decide) (by decide),
    ← rotr_eq (by decide) (by decide)]
  rfl

theorem sig0_eq (x : UInt32) : sig0 x = Standard.smallSigma0 x := by
  rw [Standard.smallSigma0, ← rotr_eq (by decide) (by decide), ← rotr_eq (by decide) (by decide)]
  rfl

theorem sig1_eq (x : UInt32) : sig1 x = Standard.smallSigma1 x := by
  rw [Standard.smallSigma1, ← rotr_eq (by decide) (by decide), ← rotr_eq (by decide) (by decide)]
  rfl

/-! ### Constants -/

theorem root_eq {k n r : ℕ} (hpos : k ≠ 0) (hle : r ^ k ≤ n) (hlt : n < (r + 1) ^ k) :
    Standard.root k n = r := by
  refine Nat.findGreatest_eq_iff.mpr ⟨?_, fun _ => hle, ?_⟩
  · exact (Nat.le_self_pow hpos r).trans hle
  · intro m hm _ hmn
    have : (r + 1) ^ k ≤ m ^ k := Nat.pow_le_pow_left hm k
    omega

theorem rootBits_eq {k p i : ℕ} {x : UInt32} (hpos : k ≠ 0)
    (hle : (x.toNat + 2 ^ 32 * i) ^ k ≤ p * 2 ^ (32 * k))
    (hlt : p * 2 ^ (32 * k) < (x.toNat + 2 ^ 32 * i + 1) ^ k) : Standard.rootBits k p = x := by
  apply UInt32.toNat_inj.mp
  rw [Standard.rootBits, root_eq hpos hle hlt, UInt32.toNat_ofNat', Nat.add_mul_mod_self_left,
    Nat.mod_eq_of_lt x.toNat_lt]

theorem K_eq : K = (List.range 64).map Standard.K := by
  have hprimes : Standard.primes =
      [2, 3, 5, 7, 11, 13, 17, 19, 23, 29, 31, 37, 41, 43, 47, 53, 59, 61, 67, 71, 73, 79, 83, 89,
        97, 101, 103, 107, 109, 113, 127, 131, 137, 139, 149, 151, 157, 163, 167, 173, 179, 181, 191,
        193, 197, 199, 211, 223, 227, 229, 233, 239, 241, 251, 257, 263, 269, 271, 277, 281, 283,
        293, 307, 311] := by decide +kernel
  have hroots : ∀ t < 64, ∃ i < 7,
      ((K.getD t 0).toNat + 2 ^ 32 * i) ^ 3 ≤ Standard.primes.getD t 0 * 2 ^ (32 * 3) ∧
        Standard.primes.getD t 0 * 2 ^ (32 * 3) < ((K.getD t 0).toNat + 2 ^ 32 * i + 1) ^ 3 := by
    rw [hprimes]
    decide +kernel
  apply List.ext_getElem
  · rw [List.length_map, List.length_range]
    rfl
  · intro t ht _
    obtain ⟨i, -, hle, hlt⟩ := hroots t ht
    rw [List.getElem_map, List.getElem_range, Standard.K, rootBits_eq (by decide) hle hlt,
      List.getD_eq_getElem K 0 ht]

theorem initial_eq : initial = Standard.initial := by
  rw [initial, Standard.initial, Words.mk.injEq]
  refine ⟨.symm ?_, .symm ?_, .symm ?_, .symm ?_, .symm ?_, .symm ?_, .symm ?_, .symm ?_⟩
  · exact rootBits_eq (i := 1) (by decide) (by decide +kernel) (by decide +kernel)
  · exact rootBits_eq (i := 1) (by decide) (by decide +kernel) (by decide +kernel)
  · exact rootBits_eq (i := 2) (by decide) (by decide +kernel) (by decide +kernel)
  · exact rootBits_eq (i := 2) (by decide) (by decide +kernel) (by decide +kernel)
  · exact rootBits_eq (i := 3) (by decide) (by decide +kernel) (by decide +kernel)
  · exact rootBits_eq (i := 3) (by decide) (by decide +kernel) (by decide +kernel)
  · exact rootBits_eq (i := 4) (by decide) (by decide +kernel) (by decide +kernel)
  · exact rootBits_eq (i := 4) (by decide) (by decide +kernel) (by decide +kernel)

/-! ### One block -/

theorem blockWords_eq {n : ℕ} {block : Bytes} (h : block.length = 4 * n) :
    blockWords block = (List.range n).map (Standard.word block) := by
  induction n generalizing block with
  | zero =>
    obtain rfl := List.length_eq_zero_iff.mp h
    rfl
  | succ n ih =>
    match block, h with
    | b0 :: b1 :: b2 :: b3 :: rest, h =>
      have hrest : rest.length = 4 * n := by
        simp only [List.length_cons] at h
        omega
      rw [blockWords, ih hrest, List.range_succ_eq_map, List.map_cons, List.map_map]
      congr 1
      apply UInt32.toNat_inj.mp
      have h0 := b0.toNat_lt
      have h1 := b1.toNat_lt
      have h2 := b2.toNat_lt
      have h3 := b3.toNat_lt
      simp only [Standard.word, Nat.mul_zero, List.getD_cons_zero, List.getD_cons_succ, Nat.zero_add,
        ofBe32_toNat, UInt32.toNat_ofNat']
      omega

theorem schedule_eq (block : Bytes) {k n : ℕ} (h : 16 ≤ k) :
    schedule n ((List.range k).map (Standard.W block)) =
      (List.range (k + n)).map (Standard.W block) := by
  induction n generalizing k with
  | zero => rfl
  | succ n ih =>
    have hget : ∀ i < k, ((List.range k).map (Standard.W block)).getD i 0 = Standard.W block i := by
      intro i hi
      rw [List.getD_eq_getElem _ _ (by simpa using hi), List.getElem_map, List.getElem_range]
    have hword : Standard.W block k =
        sig1 (Standard.W block (k - 2)) + Standard.W block (k - 7) +
          sig0 (Standard.W block (k - 15)) + Standard.W block (k - 16) := by
      rw [Standard.W, if_neg (by omega), sig0_eq, sig1_eq]
    rw [schedule]
    simp only [List.length_map, List.length_range]
    rw [hget _ (by omega), hget _ (by omega), hget _ (by omega), hget _ (by omega), ← hword]
    have := ih (Nat.le_succ_of_le h)
    rw [List.range_succ, List.map_append] at this
    rw [← Nat.add_assoc, Nat.add_right_comm]
    exact this

theorem rounds_eq (block : Bytes) (l : List ℕ) (w : Words) :
    rounds (l.map fun t => (Standard.K t, Standard.W block t)) w = l.foldl (Standard.round block) w := by
  induction l generalizing w with
  | nil => rfl
  | cons t l ih =>
    rw [List.map_cons, rounds, List.foldl_cons, ← ih, ep0_eq, ep1_eq]
    rfl

theorem transform_eq {hash : Words} {block : Bytes} (h : block.length = 64) :
    transform hash block = Standard.compress hash block := by
  have hwords : blockWords block = (List.range 16).map (Standard.W block) := by
    rw [blockWords_eq (n := 16) h]
    apply List.map_congr_left
    intro t ht
    rw [Standard.W, if_pos (List.mem_range.mp ht)]
  rw [transform, hwords, schedule_eq block (le_refl 16), K_eq, List.zip_map', rounds_eq]
  rfl

/-! ### The bytes in pieces -/

/-- The context has taken in the message: whole blocks in the state and the bit count, the rest in
the buffer. -/
structure Taken (message : Bytes) (ctx : State) : Prop where
  absorbed : Absorbed 64 Standard.compress Standard.initial message ctx.state ctx.data
  counted : ctx.bitlen + .ofNat (ctx.data.length * 8) = .ofNat (8 * message.length)

theorem taken_nil : Taken [] {} :=
  ⟨initial_eq ▸ .nil (by decide), rfl⟩

theorem taken_update {message bytes : Bytes} {ctx : State} (h : Taken message ctx) :
    Taken (message ++ bytes) (update bytes ctx) := by
  induction bytes generalizing message ctx with
  | nil =>
    rw [List.append_nil]
    exact h
  | cons byte bytes ih =>
    have hfits := h.absorbed.fits
    have hcount : ctx.bitlen + .ofNat ((ctx.data ++ [byte]).length * 8) =
        .ofNat (8 * (message ++ [byte]).length) := by
      have hnext : 8 * (message ++ [byte]).length = 8 * message.length + 8 := by
        rw [List.length_append, List.length_singleton, Nat.mul_add]
      have hheld : (ctx.data ++ [byte]).length * 8 = ctx.data.length * 8 + 8 := by
        rw [List.length_append, List.length_singleton, Nat.add_mul]
      rw [hnext, hheld, UInt64.ofNat_add, UInt64.ofNat_add, ← h.counted, UInt64.add_assoc]
    rw [List.append_cons]
    simp only [update]
    split
    · rename_i hfull
      apply ih
      rw [hfull] at hcount
      refine ⟨?_, ?_⟩
      · rw [transform_eq hfull]
        apply h.absorbed.fill
        rwa [List.length_append] at hfull
      · rw [← hcount]
        exact UInt64.add_zero _
    · rename_i hpart
      apply ih
      refine ⟨?_, hcount⟩
      apply h.absorbed.keep
      rw [List.length_append, List.length_singleton] at hpart
      rw [List.length_singleton]
      omega

/-! ### The end of the message -/

theorem be64_ofNat (n : ℕ) : be64 (.ofNat n) = Standard.lengthBytes n := by
  simp only [be64, Standard.lengthBytes, List.range, List.range.loop, List.map_cons, List.map_nil,
    List.cons.injEq, ← UInt8.toNat_inj]
  simp [Nat.shiftRight_eq_div_pow]
  omega

theorem be32_eq (w : UInt32) : be32 w = Standard.wordBytes w := by
  simp only [be32, Standard.wordBytes, List.range, List.range.loop, List.map_cons, List.map_nil,
    List.cons.injEq, ← UInt8.toNat_inj]
  simp [Nat.shiftRight_eq_div_pow]

/-- The digest from the state at the last whole block. -/
theorem digest_eq {message buffer tail : Bytes} {hash : Words} {n : ℕ}
    (h : Absorbed 64 Standard.compress Standard.initial message hash buffer)
    (htail : tail = buffer ++ 0x80 :: (List.replicate ((119 - message.length % 64) % 64) 0 ++
      Standard.lengthBytes (8 * message.length)))
    (hlength : tail.length = 64 * n) :
    Standard.digest message =
      (absorb 64 Standard.compress n hash tail).toList.flatMap Standard.wordBytes := by
  obtain ⟨whole, hsplit, hwhole, rfl⟩ := h.count
  have hpad : Standard.pad message = whole ++ tail := by
    rw [htail, Standard.pad, ← List.append_assoc, ← hsplit]
  have hblocks : (Standard.pad message).length / 64 = message.length / 64 + n := by
    rw [hpad, List.length_append, hwhole, hlength]
    omega
  rw [Standard.digest, hblocks, hpad, absorb_append 64 Standard.compress hwhole]

theorem length_buffer {message buffer : Bytes} {hash : Words}
    (h : Absorbed 64 Standard.compress Standard.initial message hash buffer) :
    message.length % 64 = buffer.length := by
  obtain ⟨whole, hsplit, hwhole, -⟩ := h.count
  have hlength := congrArg List.length hsplit
  rw [List.length_append] at hlength
  omega

theorem final_eq {message : Bytes} {ctx : State} (h : Taken message ctx) :
    final ctx = Standard.digest message := by
  have hfits := h.absorbed.fits
  have hrest := length_buffer h.absorbed
  have hcount : be64 (ctx.bitlen + .ofNat (ctx.data.length * 8)) =
      Standard.lengthBytes (8 * message.length) := by
    rw [h.counted, be64_ofNat]
  simp only [final, hcount]
  split
  · rename_i hroom
    -- the length still fits into the block
    have hblock : (ctx.data ++ [(0x80 : UInt8)] ++
        List.replicate (56 - (ctx.data ++ [(0x80 : UInt8)]).length) (0 : UInt8) ++ Standard.lengthBytes (8 * message.length)).length = 64 := by
      simp [Standard.lengthBytes]
      omega
    have hzeros : (119 - message.length % 64) % 64 = 56 - (ctx.data ++ [(0x80 : UInt8)]).length := by
      rw [List.length_append, List.length_singleton]
      omega
    rw [digest_eq (n := 1) h.absorbed _ hblock, absorb_one _ _ hblock, transform_eq hblock]
    · simp only [funext be32_eq]
    · rw [hzeros]
      simp only [List.append_assoc, List.cons_append, List.nil_append]
  · rename_i hfull
    -- the one bit and some zeros fill the block, the length is in a block of its own
    have hfirst : (ctx.data ++ [(0x80 : UInt8)] ++
        List.replicate (64 - (ctx.data ++ [(0x80 : UInt8)]).length) (0 : UInt8)).length = 64 := by
      simp
      omega
    have hsecond : (List.replicate 56 (0 : UInt8) ++
        Standard.lengthBytes (8 * message.length)).length = 64 := by
      simp [Standard.lengthBytes]
    have hzeros : (119 - message.length % 64) % 64 = 64 - (ctx.data ++ [(0x80 : UInt8)]).length + 56 := by
      rw [List.length_append, List.length_singleton]
      omega
    have hboth : (ctx.data ++ [(0x80 : UInt8)] ++
        List.replicate (64 - (ctx.data ++ [(0x80 : UInt8)]).length) (0 : UInt8) ++
        (List.replicate 56 0 ++ Standard.lengthBytes (8 * message.length))).length = 64 * (1 + 1) := by
      rw [List.length_append, hfirst, hsecond]
    rw [digest_eq h.absorbed _ hboth, absorb_append (n := 1) 64 Standard.compress hfirst,
      absorb_one _ _ hfirst, absorb_one _ _ hsecond, transform_eq hfirst, transform_eq hsecond]
    · simp only [funext be32_eq]
    · rw [hzeros, ← List.replicate_append_replicate]
      simp only [List.append_assoc, List.cons_append, List.nil_append]

theorem taken_chunks (chunks : List Bytes) {message : Bytes} {ctx : State} (h : Taken message ctx) :
    Taken (message ++ chunks.flatten) (chunks.foldl (fun ctx chunk => update chunk ctx) ctx) := by
  induction chunks generalizing message ctx with
  | nil =>
    rw [List.flatten_nil, List.append_nil]
    exact h
  | cons chunk chunks ih =>
    rw [List.flatten_cons, ← List.append_assoc]
    exact ih (taken_update h)

theorem final_chunks (chunks : List Bytes) :
    final (chunks.foldl (fun ctx chunk => update chunk ctx) {}) =
      Standard.digest chunks.flatten :=
  final_eq (taken_chunks chunks taken_nil)

end Sha256

open Sha256

theorem sha256_eq (data : Bytes) : sha256 data = Standard.digest data := by
  have := final_chunks [data]
  rwa [List.flatten_singleton] at this

theorem keyPad_eq {key : Bytes} (pad : UInt8) :
    keyPad pad key = (key ++ List.replicate (64 - key.length) 0).map (· ^^^ pad) := by
  have hxor : ∀ byte : UInt8, pad ^^^ byte = byte ^^^ pad := UInt8.xor_comm pad
  rw [keyPad, List.map_append, List.map_replicate, UInt8.zero_xor]
  simp only [hxor]

theorem hmacSha256_eq (key message : Bytes) :
    hmacSha256 key message = Standard.hmac Standard.digest key message := by
  have hpair : ∀ first second : Bytes,
      final (update second (update first {})) = Standard.digest (first ++ second) := by
    intro first second
    have := final_chunks [first, second]
    rwa [List.flatten_cons, List.flatten_singleton] at this
  simp only [hmacSha256, Standard.hmac, hpair, keyPad_eq, sha256_eq]

/-- SHA-256 is the standard's in whatever pieces the data comes, and so is HMAC over it. -/
theorem sha256_standard (chunks : List Bytes) (key message : Bytes) :
    final (chunks.foldl (fun ctx chunk => update chunk ctx) {}) = Standard.digest chunks.flatten ∧
      sha256 message = Standard.digest message ∧
      hmacSha256 key message = Standard.hmac Standard.digest key message :=
  ⟨final_chunks chunks, sha256_eq message, hmacSha256_eq key message⟩

end CampelloNet.Crypto
