import CampelloNet.Lib.Bits
import CampelloNet.Serialization.NetworkOrder
import CampelloNet.Serialization.Serializable

/-!
# What the methods of a bit stream write and read

A stream as the list of its bits: each writing method appends an encoding, which depends on the position
only by the zeros up to a byte boundary, and the reading method that belongs to it, standing in front
of that encoding, returns the value and stops behind it.
-/

namespace CampelloNet.Serialization.BitStream

open Lib

/-- The bits from a position to the next byte boundary. -/
def pad (n : ℕ) : ℕ := (8 - n % 8) % 8

/-- A stream that was only written to ends in zeros up to the byte boundary; a stream that is read
holds whole bytes. -/
def medium : Medium Bool BitStream BitStream where
  written s past :=
    s.writeBitPos = past.length ∧ bytesBits s.buffer = past ++ List.replicate (pad past.length) false
  reading s bits p := s.readBitPos = p ∧ s.writeBitPos = bits.length ∧ bytesBits s.buffer = bits

theorem written_empty : medium.written {} [] := ⟨rfl, rfl⟩

/-- All the bytes of a stream that was only written to are written. -/
theorem span_of_written {s : BitStream} {past : List Bool} (h : medium.written s past) :
    s.span = s.buffer := by
  obtain ⟨hpos, hbits⟩ := h
  have hlen := congrArg List.length hbits
  rw [length_bytesBits, List.length_append, List.length_replicate] at hlen
  unfold span byteCount pad at *
  rw [List.take_of_length_le]
  omega

theorem writes_writeBit (b : Bool) : medium.Writes (fun _ => [b]) (writeBit b) := by
  intro s past ⟨hpos, hbits⟩
  have hlen : 8 * s.buffer.length = past.length + pad past.length := by
    rw [← length_bytesBits, hbits, List.length_append, List.length_replicate]
  have hpad : pad (past.length + 1) = 7 - past.length % 8 := by
    unfold pad
    omega
  -- with room for the bit
  obtain ⟨buffer, hbuffer, hroom, hgrown⟩ : ∃ buffer,
      (if s.writeBitPos / 8 ≥ s.buffer.length then s.buffer ++ [0] else s.buffer) = buffer ∧
        past.length / 8 < buffer.length ∧
          bytesBits buffer = past ++ List.replicate (8 - past.length % 8) false := by
    refine ⟨_, rfl, ?_⟩
    rw [hpos]
    unfold pad at hlen hbits
    by_cases haligned : past.length % 8 = 0
    · rw [if_pos (by omega), bytesBits_append, hbits, haligned]
      refine ⟨by simp; omega, ?_⟩
      rw [List.append_assoc]
      rfl
    · rw [if_neg (by omega), hbits, Nat.mod_eq_of_lt (by omega : 8 - past.length % 8 < 8)]
      exact ⟨by omega, rfl⟩
  unfold writeBit
  dsimp only
  rw [hbuffer, hpos]
  refine ⟨by simp, ?_⟩
  rw [List.length_append, List.length_singleton, hpad, List.append_assoc]
  have hsucc : 8 - past.length % 8 = (7 - past.length % 8) + 1 := by omega
  rw [hsucc, List.replicate_succ] at hgrown
  cases b with
  | false =>
    dsimp only
    rw [if_neg Bool.false_ne_true, hgrown]
    rfl
  | true =>
    dsimp only
    rw [if_pos rfl, bytesBits_modify hroom (Nat.mod_lt _ (by decide)), hgrown, Nat.div_add_mod,
      List.set_append_right _ _ le_rfl, Nat.sub_self]
    rfl

theorem toNat_ofNat64 {n : ℕ} (h : n < 2 ^ 64) : (UInt64.ofNat n).toNat = n := UInt64.toNat_ofNat_of_lt' h

/-- The bit that `write_bits` looks at. -/
theorem shift_and_one (v : UInt64) {n : ℕ} (h : n < 64) :
    decide ((v >>> UInt64.ofNat n) &&& 1 = 1) = v.toNat.testBit n := by
  rw [Nat.testBit_eq_decide_div_mod_eq]
  apply decide_eq_decide.mpr
  rw [← UInt64.toNat_inj, UInt64.toNat_and, UInt64.toNat_shiftRight, toNat_ofNat64 (by omega),
    Nat.mod_eq_of_lt h, Nat.shiftRight_eq_div_pow]
  change _ &&& 1 = 1 ↔ _
  rw [Nat.and_one_is_mod]

theorem writes_writeBits (v : UInt64) {n : ℕ} (h : n ≤ 64) :
    medium.Writes (fun _ => natBits n v.toNat) (writeBits v n) := by
  induction n with
  | zero =>
    intro s past hs
    simpa [natBits, writeBits] using hs
  | succ n ih =>
    intro s past hs
    have hstep := ih (by omega) _ _ (writes_writeBit (v.toNat.testBit n) s past hs)
    rw [List.append_assoc] at hstep
    unfold writeBits
    rw [shift_and_one v (by omega)]
    exact hstep

/-- The bit that `read_bits` looks at. -/
theorem getD_shift_and_one {data : Bytes} {bits : List Bool} {p : ℕ} {b : Bool}
    (hbits : bytesBits data = bits) (h : bits[p]? = some b) :
    (data.getD (p / 8) 0 >>> UInt8.ofNat (7 - p % 8)) &&& 1 = if b then 1 else 0 := by
  have hp : p < 8 * data.length := by
    rw [← length_bytesBits, hbits]
    exact (List.getElem?_eq_some_iff.mp h).1
  rw [← hbits, getElem?_bytesBits hp] at h
  rw [← Option.some.inj h]
  generalize data.getD (p / 8) 0 = byte
  apply UInt8.toNat_inj.mp
  have hshift : (UInt8.ofNat (7 - p % 8)).toNat % 8 = 7 - p % 8 := by
    rw [UInt8.toNat_ofNat_of_lt' (show 7 - p % 8 < 256 by omega)]
    omega
  rw [UInt8.toNat_and, UInt8.toNat_shiftRight, hshift, Nat.shiftRight_eq_div_pow]
  change _ &&& 1 = _
  rw [Nat.and_one_is_mod, Nat.testBit_eq_decide_div_mod_eq]
  rcases Nat.mod_two_eq_zero_or_one (byte.toNat / 2 ^ (7 - p % 8)) with h | h <;> rw [h] <;> rfl

theorem shiftIn (value : UInt64) (b : Bool) :
    ((value <<< 1) ||| (if b then 1 else 0 : UInt8).toUInt64).toNat =
      (2 * value.toNat + b.toNat) % 2 ^ 64 := by
  have hshift : (value <<< 1).toNat = 2 * value.toNat % 2 ^ 64 := by
    rw [UInt64.toNat_shiftLeft, Nat.shiftLeft_eq]
    change value.toNat * 2 ^ 1 % 2 ^ 64 = _
    omega
  have hbit : (if b then 1 else 0 : UInt8).toUInt64.toNat = b.toNat := by cases b <;> rfl
  have hle := b.toNat_le
  rw [UInt64.toNat_or, hshift, hbit, or_eq_add (k := 1) (by omega) (by omega)]
  omega

/-- The loop of `read_bits` shifts the bits in one after the other. -/
theorem readBitsLoop_eq {past bits rest : List Bool} {value : UInt64} {s : BitStream}
    (hbits : bytesBits s.buffer = past ++ (bits ++ rest)) (hpos : s.readBitPos = past.length) :
    readBitsLoop bits.length value s =
      (UInt64.ofNat (value.toNat * 2 ^ bits.length + ofBits bits),
        { s with readBitPos := past.length + bits.length }) := by
  induction bits generalizing past value s with
  | nil =>
    obtain ⟨buffer, writeBitPos, readBitPos⟩ := s
    obtain rfl := hpos
    simp [readBitsLoop]
  | cons b bits ih =>
    have hget : (past ++ (b :: bits ++ rest))[s.readBitPos]? = some b := by
      rw [hpos, List.getElem?_append_right le_rfl, Nat.sub_self]
      rfl
    rw [List.length_cons, readBitsLoop, getD_shift_and_one hbits hget,
      @ih (past ++ [b]) _ { s with readBitPos := s.readBitPos + 1 } (by simpa using hbits)
        (by simp [hpos]), shiftIn]
    refine Prod.ext (UInt64.toNat_inj.mp ?_) ?_
    · have hcons : ofBits (b :: bits) = b.toNat * 2 ^ bits.length + ofBits bits := by
        rw [← List.singleton_append, ofBits_append]
        cases b <;> simp [ofBits]
      rw [UInt64.toNat_ofNat', UInt64.toNat_ofNat', hcons, Nat.pow_succ, Nat.add_mod,
        Nat.mod_mul_mod, ← Nat.add_mod]
      congr 1
      ring
    · simp
      omega

theorem reads_readBits {bits : List Bool} (h : bits.length ≤ 64) :
    medium.Reads (fun _ => bits) (readBits bits.length) (UInt64.ofNat (ofBits bits)) := by
  intro s past rest ⟨hpos, hend, hbits⟩
  refine ⟨{ s with readBitPos := past.length + bits.length }, ?_, rfl, hend, hbits⟩
  unfold readBits
  by_cases hnone : bits.length = 0
  · obtain rfl := List.length_eq_zero_iff.mp hnone
    obtain ⟨buffer, writeBitPos, readBitPos⟩ := s
    obtain rfl := hpos
    rfl
  · rw [if_neg hnone, if_neg (by rw [hpos, hend]; simp), readBitsLoop_eq hbits hpos]
    simp

/-- `write_bits` and `read_bits` of at most 64 bits. -/
theorem codes_bits (v : UInt64) {n : ℕ} (h : n ≤ 64) :
    medium.Codes (fun _ => natBits n v.toNat) (writeBits v n) (readBits n)
      (UInt64.ofNat (v.toNat % 2 ^ n)) := by
  refine ⟨writes_writeBits v h, ?_⟩
  have := @reads_readBits (natBits n v.toNat) (by simpa using h)
  rwa [length_natBits, ofBits_natBits] at this

theorem codes_bool (b : Bool) :
    medium.Codes (fun _ => [b]) (writeBool b) readBool b := by
  have := (codes_bits (if b then 1 else 0) (n := 1) (by omega)).map fun v => decide (v ≠ 0)
  cases b <;> exact this

/-- `write_bits` and `read_bits` of a whole word. -/
theorem codes_word {α : Type} (toWord : α → UInt64) (ofWord : UInt64 → α) (n : ℕ) (h : n ≤ 64) (x : α)
    (hlt : (toWord x).toNat < 2 ^ n) (hof : ofWord (toWord x) = x) :
    medium.Codes (fun _ => natBits n (toWord x).toNat) (writeBits (toWord x) n)
      (ofWord <$> readBits n) x := by
  have := (codes_bits (toWord x) h).map ofWord
  rwa [Nat.mod_eq_of_lt hlt, UInt64.ofNat_toNat, hof] at this

theorem codes_uint8 (v : UInt8) :
    medium.Codes (fun _ => byteBits v) (writeUint8 v) readUint8 v := by
  have := codes_word UInt8.toUInt64 UInt64.toUInt8 8 (by omega) v (by simpa using v.toNat_lt) (by simp)
  rwa [UInt8.toNat_toUInt64] at this

/-- The zeros up to the next byte boundary. -/
def alignment : Encoding Bool := fun n => List.replicate (pad n) false

theorem natBits_zero (n : ℕ) : natBits n 0 = List.replicate n false := by
  induction n with
  | zero => rfl
  | succ n ih => rw [natBits, ih, Nat.zero_testBit, List.replicate_succ]

theorem codes_align : medium.Codes alignment alignToByte alignReadToByte () := by
  constructor
  · intro s past hs
    unfold alignToByte alignment
    rw [hs.1]
    by_cases haligned : past.length % 8 = 0
    · rw [if_neg (not_not.mpr haligned), pad, haligned]
      simpa using hs
    · rw [if_pos haligned, pad, Nat.mod_eq_of_lt (by omega : 8 - past.length % 8 < 8)]
      have := writes_writeBits 0 (n := 8 - past.length % 8) (by omega) s past hs
      rwa [UInt64.toNat_zero, natBits_zero] at this
  · intro s past rest hs
    unfold alignReadToByte alignment at *
    rw [hs.1]
    by_cases haligned : past.length % 8 = 0
    · rw [if_neg (not_not.mpr haligned)]
      refine ⟨s, rfl, ?_⟩
      rw [pad, haligned] at hs ⊢
      exact hs
    · rw [if_pos haligned]
      rw [pad, Nat.mod_eq_of_lt (by omega : 8 - past.length % 8 < 8)] at hs ⊢
      have := ((codes_bits 0 (n := 8 - past.length % 8) (by omega)).reads.map fun _ => ()) s past rest
      rw [UInt64.toNat_zero, natBits_zero] at this
      exact this hs

/-! ### Variable-length integers -/

def varintBytes (value : UInt64) : Bytes :=
  if value > 0x7F then ((value &&& 0x7F) ||| 0x80).toUInt8 :: varintBytes (value >>> 7)
  else [(value &&& 0x7F).toUInt8]
termination_by value.toNat
decreasing_by
  rename_i h
  rw [gt_iff_lt, UInt64.lt_iff_toNat_lt] at h
  rw [UInt64.toNat_shiftRight]
  change 127 < _ at h
  change value.toNat >>> 7 < _
  omega

theorem writes_varintLoop (value : UInt64) :
    medium.Writes (fun _ => bytesBits (varintBytes value)) (writeVarintLoop value) := by
  induction value using varintBytes.induct with
  | case1 value h ih =>
    intro s past hs
    rw [writeVarintLoop, if_pos h, varintBytes, if_pos h, bytesBits_cons]
    have := ih _ _ ((codes_uint8 ((value &&& 0x7F) ||| 0x80).toUInt8).writes s past hs)
    rwa [List.append_assoc] at this
  | case2 value h =>
    intro s past hs
    rw [writeVarintLoop, if_neg h, varintBytes, if_neg h, bytesBits_cons]
    simpa using (codes_uint8 (value &&& 0x7F).toUInt8).writes s past hs

theorem low7 (v : UInt64) : (v &&& 0x7F).toNat = v.toNat % 2 ^ 7 := by
  rw [UInt64.toNat_and]
  exact Nat.and_two_pow_sub_one_eq_mod v.toNat 7

/-- The high bit of a byte and the seven below it. -/
theorem and_0x80 (b : UInt8) : b &&& 0x80 = 0 ↔ b.toNat.testBit 7 = false := by
  rw [← UInt8.toNat_inj, UInt8.toNat_and]
  change b.toNat &&& 2 ^ 7 = 0 ↔ _
  rw [Nat.and_two_pow]
  cases b.toNat.testBit 7 <;> simp

theorem and_0x7F (b : UInt8) : (b &&& 0x7F).toUInt64.toNat = b.toNat % 2 ^ 7 := by
  rw [UInt8.toNat_toUInt64, UInt8.toNat_and]
  exact Nat.and_two_pow_sub_one_eq_mod b.toNat 7

/-- What the loop of `read_varint` makes of the last byte and of the others. -/
theorem varint_last {v : UInt64} (h : ¬v > 0x7F) :
    (v &&& 0x7F).toUInt8 &&& 0x80 = 0 ∧ ((v &&& 0x7F).toUInt8 &&& 0x7F).toUInt64 = v := by
  have hv : v.toNat < 2 ^ 7 := by
    rw [gt_iff_lt, UInt64.lt_iff_toNat_lt] at h
    change ¬127 < _ at h
    omega
  have hbyte : (v &&& 0x7F).toUInt8.toNat = v.toNat := by
    rw [UInt64.toNat_toUInt8, low7]
    omega
  constructor
  · rw [and_0x80, hbyte, Nat.testBit_lt_two_pow hv]
  · apply UInt64.toNat_inj.mp
    rw [and_0x7F, hbyte, Nat.mod_eq_of_lt hv]

theorem varint_more (v : UInt64) :
    ((v &&& 0x7F) ||| 0x80).toUInt8 &&& 0x80 ≠ 0 ∧
      (((v &&& 0x7F) ||| 0x80).toUInt8 &&& 0x7F).toUInt64 = v &&& 0x7F := by
  have hbyte : ((v &&& 0x7F) ||| 0x80).toUInt8.toNat = 2 ^ 7 * 1 + v.toNat % 2 ^ 7 := by
    rw [UInt64.toNat_toUInt8, UInt64.toNat_or, low7, Nat.or_comm,
      Nat.two_pow_add_eq_or_of_lt (Nat.mod_lt _ (by decide))]
    change (2 ^ 7 * 1 ||| v.toNat % 2 ^ 7) % 2 ^ 8 = _
    rw [← Nat.two_pow_add_eq_or_of_lt (Nat.mod_lt _ (by decide))]
    omega
  constructor
  · rw [Ne, and_0x80, hbyte, Nat.testBit_eq_decide_div_mod_eq]
    simp
  · apply UInt64.toNat_inj.mp
    rw [and_0x7F, hbyte, low7]
    omega

/-- The seven bits and the rest of them, each shifted to its place. -/
theorem shift_low7 {v : UInt64} {shift : ℕ} (h : v.toNat * 2 ^ shift < 2 ^ 64)
    (hshift : shift + 7 < 64) :
    ((v &&& 0x7F) <<< UInt64.ofNat shift) ||| ((v >>> 7) <<< UInt64.ofNat (shift + 7)) =
      v <<< UInt64.ofNat shift := by
  have hplace : ∀ (w : UInt64) (k : ℕ), k < 64 → w.toNat * 2 ^ k < 2 ^ 64 →
      (w <<< UInt64.ofNat k).toNat = w.toNat * 2 ^ k := by
    intro w k hk hw
    rw [UInt64.toNat_shiftLeft, toNat_ofNat64 (by omega), Nat.mod_eq_of_lt hk, Nat.shiftLeft_eq,
      Nat.mod_eq_of_lt hw]
  have hrest : (v >>> 7).toNat = v.toNat / 2 ^ 7 := by
    rw [UInt64.toNat_shiftRight, Nat.shiftRight_eq_div_pow]
    rfl
  have hsplit : v.toNat % 2 ^ 7 * 2 ^ shift + v.toNat / 2 ^ 7 * 2 ^ (shift + 7) = v.toNat * 2 ^ shift := by
    conv_rhs => rw [← Nat.mod_add_div v.toNat (2 ^ 7)]
    ring
  apply UInt64.toNat_inj.mp
  rw [UInt64.toNat_or, hplace _ _ (by omega) (by rw [low7]; omega),
    hplace _ _ hshift (by rw [hrest]; omega), hplace v _ (by omega) h, low7, hrest, Nat.or_comm,
    or_eq_add (k := shift + 7) (Nat.mul_mod_left _ _), Nat.add_comm, hsplit]
  rw [Nat.pow_add, Nat.mul_comm (2 ^ shift)]
  exact Nat.mul_lt_mul_of_pos_right (Nat.mod_lt _ (by decide)) (Nat.two_pow_pos shift)

theorem reads_varintLoop (v acc : UInt64) {shift : ℕ} (h : v.toNat * 2 ^ shift < 2 ^ 64) (hshift : shift < 64) :
    medium.Reads (fun _ => bytesBits (varintBytes v)) (readVarintLoop shift acc)
      (acc ||| (v <<< UInt64.ofNat shift)) := by
  induction v using varintBytes.induct generalizing shift acc with
  | case1 v hmore ih =>
    have hnext : shift + 7 < 64 := by
      rw [gt_iff_lt, UInt64.lt_iff_toNat_lt] at hmore
      change 127 < _ at hmore
      by_contra hge
      have : 2 ^ 57 ≤ 2 ^ shift := Nat.pow_le_pow_right (by omega) (by omega)
      have := Nat.mul_le_mul (show 128 ≤ v.toNat by omega) this
      omega
    obtain ⟨hbit, hlow⟩ := varint_more v
    rw [varintBytes, if_pos hmore, readVarintLoop, bytesBits_cons]
    refine (codes_uint8 _).reads.bind (?_ : medium.Reads (fun _ => bytesBits (varintBytes (v >>> 7))) _ _)
    rw [if_neg hbit, if_neg (by omega), hlow, ← shift_low7 h hnext, ← UInt64.or_assoc]
    refine ih _ ?_ hnext
    rw [UInt64.toNat_shiftRight, Nat.shiftRight_eq_div_pow]
    change v.toNat / 2 ^ 7 * 2 ^ (shift + 7) < 2 ^ 64
    refine lt_of_le_of_lt ?_ h
    rw [Nat.pow_add, Nat.mul_comm (2 ^ shift), ← Nat.mul_assoc]
    exact Nat.mul_le_mul_right _ (Nat.div_mul_le_self _ _)
  | case2 v hlast =>
    obtain ⟨hbit, hlow⟩ := varint_last hlast
    rw [varintBytes, if_neg hlast, readVarintLoop, bytesBits_cons]
    refine (codes_uint8 _).reads.bind (?_ : medium.Reads Encoding.nil _ _)
    rw [if_pos hbit, hlow]
    exact Medium.reads_pure _

/-- A variable-length integer, from the next byte boundary. -/
def varintEncoding (value : UInt64) : Encoding Bool :=
  alignment.seq fun _ => bytesBits (varintBytes value)

theorem codes_varint (value : UInt64) :
    medium.Codes (varintEncoding value) (writeVarint value) readVarint value := by
  refine ⟨codes_align.writes.seq (writes_varintLoop value), ?_⟩
  have hloop := @reads_varintLoop value 0 0 (by simpa using value.toNat_lt) (by omega)
  have hzero : (0 : UInt64) ||| (value <<< UInt64.ofNat 0) = value := by simp
  rw [hzero] at hloop
  exact codes_align.reads.bind hloop

/-! ### Bytes and strings -/

/-- Bytes, from the next byte boundary. -/
def bytesEncoding (data : Bytes) : Encoding Bool := alignment.seq fun _ => bytesBits data

theorem add_pad_mod (n : ℕ) : (n + pad n) % 8 = 0 := by
  unfold pad
  omega

theorem pad_of_mod {n : ℕ} (h : n % 8 = 0) : pad n = 0 := by
  unfold pad
  omega

theorem writes_bytes (data : Bytes) : medium.Writes (bytesEncoding data) (writeBytes data) := by
  intro s past hs
  obtain ⟨hpos, hbits⟩ := codes_align.writes s past hs
  have hmod : (past ++ alignment past.length).length % 8 = 0 := by
    rw [List.length_append, alignment, List.length_replicate, add_pad_mod]
  rw [pad_of_mod hmod, List.replicate_zero, List.append_nil] at hbits
  have hlen : s.alignToByte.buffer.length = s.alignToByte.writeBitPos / 8 := by
    have := congrArg List.length hbits
    rw [length_bytesBits] at this
    omega
  have htake : (resize (s.alignToByte.writeBitPos / 8 + data.length) s.alignToByte.buffer).take
      (s.alignToByte.writeBitPos / 8) = s.alignToByte.buffer := by
    unfold resize
    rw [List.take_append_of_le_length (by rw [List.length_take]; omega), List.take_take,
      List.take_of_length_le (by omega)]
  have hwhole : (past ++ alignment past.length ++ bytesBits data).length % 8 = 0 := by
    rw [List.length_append, length_bytesBits]
    omega
  unfold bytesEncoding Encoding.seq
  rw [← List.append_assoc]
  constructor
  · show s.alignToByte.writeBitPos + data.length * 8 = _
    simp only [hpos, List.length_append, length_bytesBits]
    omega
  · show bytesBits ((resize _ s.alignToByte.buffer).take _ ++ data) = _
    rw [htake, bytesBits_append, hbits, pad_of_mod hwhole]
    simp

/-- The bytes of a stream from a byte boundary on. -/
theorem take_drop_of_bits {data bytes : Bytes} {past rest : List Bool} (h : past.length % 8 = 0)
    (hbits : bytesBits data = past ++ (bytesBits bytes ++ rest)) :
    (data.drop (past.length / 8)).take bytes.length = bytes := by
  have hlen := congrArg List.length hbits
  rw [length_bytesBits, List.length_append, List.length_append, length_bytesBits] at hlen
  have hsplit := hbits
  rw [← List.take_append_drop (past.length / 8) data, bytesBits_append,
    ← List.take_append_drop bytes.length (data.drop (past.length / 8)), bytesBits_append] at hsplit
  obtain ⟨-, hrest⟩ := List.append_inj hsplit (by
    rw [length_bytesBits, List.length_take]
    omega)
  obtain ⟨hbytes, -⟩ := List.append_inj hrest (by
    rw [length_bytesBits, length_bytesBits, List.length_take, List.length_drop]
    omega)
  exact bytesBits_injective hbytes

theorem reads_bytes (data : Bytes) : medium.Reads (bytesEncoding data) (readBytes data.length) data := by
  intro s past rest hs
  unfold bytesEncoding Encoding.seq at hs ⊢
  rw [List.append_assoc] at hs
  obtain ⟨s', halign, hpos, hend, hbits⟩ := codes_align.reads s past _ hs
  have hmod : (past ++ alignment past.length).length % 8 = 0 := by
    rw [List.length_append, alignment, List.length_replicate, add_pad_mod]
  rw [← List.append_assoc] at hend hbits
  rw [← List.length_append] at hpos
  refine ⟨{ s' with readBitPos := s'.readBitPos + data.length * 8 }, ?_, ?_, ?_, ?_⟩
  · refine (Medium.run_bind_some halign).trans ?_
    have hroom : ¬s'.readBitPos + data.length * 8 > s'.writeBitPos := by
      rw [hpos, hend]
      simp only [List.length_append, length_bytesBits]
      omega
    unfold copyBytes
    rw [if_neg hroom, hpos, take_drop_of_bits hmod hbits]
  · simp only [hpos, List.length_append, length_bytesBits]
    omega
  · rwa [List.append_assoc, ← List.append_assoc (alignment _)] at hend
  · rwa [List.append_assoc, ← List.append_assoc (alignment _)] at hbits

theorem codes_bytes (data : Bytes) :
    medium.Codes (bytesEncoding data) (writeBytes data) (readBytes data.length) data :=
  ⟨writes_bytes data, reads_bytes data⟩

/-- Behind a variable-length integer nothing is left to align. -/
theorem varintEncoding_seq_alignment (value : UInt64) (e : Encoding Bool) :
    (varintEncoding value).seq (alignment.seq e) = (varintEncoding value).seq e := by
  funext n
  have hmod : (n + (varintEncoding value n).length) % 8 = 0 := by
    unfold varintEncoding Encoding.seq alignment
    rw [List.length_append, List.length_replicate, length_bytesBits, ← Nat.add_assoc]
    have := add_pad_mod n
    omega
  show _ ++ (alignment _ ++ e _) = _ ++ e _
  rw [alignment, pad_of_mod hmod]
  rfl

/-- The length as a variable-length integer, then the bytes. -/
def stringEncoding (str : Bytes) : Encoding Bool :=
  (varintEncoding (UInt64.ofNat str.length)).seq fun _ => bytesBits str

theorem writes_string (str : Bytes) : medium.Writes (stringEncoding str) (writeString str) := by
  have := (codes_varint (UInt64.ofNat str.length)).writes.seq (writes_bytes str)
  rwa [bytesEncoding, varintEncoding_seq_alignment] at this

theorem codes_string {str : Bytes} (h : str.length ≤ 65535) :
    medium.Codes (stringEncoding str) (writeString str) readString str := by
  have hlen : (UInt64.ofNat str.length).toNat = str.length := toNat_ofNat64 (by omega)
  have hvarint := codes_varint (UInt64.ofNat str.length)
  have hshort : ¬UInt64.ofNat str.length > 65535 := by
    rw [gt_iff_lt, UInt64.lt_iff_toNat_lt, hlen]
    exact not_lt.mpr h
  refine ⟨writes_string str, ?_⟩
  unfold readString
  by_cases hempty : str = []
  · subst hempty
    exact hvarint.reads.bind (Medium.reads_pure _)
  · have hpos : UInt64.ofNat str.length > 0 := by
      rw [gt_iff_lt, UInt64.lt_iff_toNat_lt, hlen]
      exact List.length_pos_iff.mpr hempty
    unfold stringEncoding
    rw [← varintEncoding_seq_alignment]
    refine hvarint.reads.bind ?_
    rw [if_neg hshort, if_pos hpos, hlen]
    exact reads_bytes str

/-! ### Numbers, arrays and vectors -/

section
variable (native : Endian)

theorem codes_uint16 (v : UInt16) :
    medium.Codes (fun _ => bytesBits (ordered native (be16 v))) (writeUint16 native v)
      (readUint16 native) v := by
  have := codes_word (fun v => (toNet16 native v).toUInt64) (fun w => toNet16 native w.toUInt16) 16
    (by omega) v (by simpa using (toNet16 native v).toNat_lt) (by simp)
  rwa [UInt16.toNat_toUInt64, natBits_toNet16] at this

theorem codes_uint32 (v : UInt32) :
    medium.Codes (fun _ => bytesBits (ordered native (be32 v))) (writeUint32 native v)
      (readUint32 native) v := by
  have := codes_word (fun v => (toNet32 native v).toUInt64) (fun w => toNet32 native w.toUInt32) 32
    (by omega) v (by simpa using (toNet32 native v).toNat_lt) (by simp)
  rwa [UInt32.toNat_toUInt64, natBits_toNet32] at this

theorem codes_uint64 (v : UInt64) :
    medium.Codes (fun _ => bytesBits (ordered native (be64 v))) (writeUint64 native v)
      (readUint64 native) v := by
  have := codes_word (toNet64 native) (toNet64 native) 64 (by omega) v
    (toNet64 native v).toNat_lt (by simp)
  rwa [natBits_toNet64] at this

/-- The bytes of a number, most significant first. -/
def beBytes : (type : Scalar) → type.Value → Bytes
  | .uint8, v => [v]
  | .uint16, v => be16 v
  | .uint32, v => be32 v
  | .uint64, v => be64 v
  | .int8, v => [v.toUInt8]
  | .int16, v => be16 v.toUInt16
  | .int32, v => be32 v.toUInt32
  | .int64, v => be64 v.toUInt64
  | .float, v => be32 v
  | .double, v => be64 v

/-- What is written before the bytes of a number. -/
def leading : Scalar → Encoding Bool
  | .float | .double => alignment
  | _ => Encoding.nil

def scalarEncoding (type : Scalar) (v : type.Value) : Encoding Bool :=
  (leading type).seq fun _ => bytesBits (ordered native (beBytes type v))

theorem codes_scalar (type : Scalar) (v : type.Value) :
    medium.Codes (scalarEncoding native type v) (serializeScalar native type v)
      (deserializeScalar native type) v := by
  have hbyte : ∀ b : UInt8, bytesBits (ordered native [b]) = byteBits b := by
    intro b
    cases native <;> simp [ordered]
  unfold scalarEncoding
  cases type with
  | uint8 =>
    simp only [beBytes, hbyte]
    exact codes_uint8 v
  | uint16 => exact codes_uint16 native v
  | uint32 => exact codes_uint32 native v
  | uint64 => exact codes_uint64 native v
  | int8 =>
    simp only [beBytes, hbyte]
    have := (codes_uint8 (Int8.toUInt8 v)).map UInt8.toInt8
    rwa [Int8.toInt8_toUInt8] at this
  | int16 =>
    have := (codes_uint16 native (Int16.toUInt16 v)).map UInt16.toInt16
    rwa [Int16.toInt16_toUInt16] at this
  | int32 =>
    have := (codes_uint32 native (Int32.toUInt32 v)).map UInt32.toInt32
    rwa [Int32.toInt32_toUInt32] at this
  | int64 =>
    have := (codes_uint64 native (Int64.toUInt64 v)).map UInt64.toInt64
    rwa [Int64.toInt64_toUInt64] at this
  | float => exact codes_align.bind (codes_uint32 native v)
  | double => exact codes_align.bind (codes_uint64 native v)

def elemEncoding : (type : Elem) → type.Value → Encoding Bool
  | .scalar type, v => scalarEncoding native type v
  | .array _ type, v => Encoding.all (v.toList.map (elemEncoding type))

theorem codes_elem (type : Elem) (v : type.Value) :
    medium.Codes (elemEncoding native type v) (serialize native type v) (deserialize native type) v := by
  induction type with
  | scalar type => exact codes_scalar native type v
  | array n type ih => exact Medium.codes_readEach v fun x _ => ih x

def vectorEncoding (type : Elem) (v : List type.Value) : Encoding Bool :=
  (varintEncoding (UInt64.ofNat v.length)).seq (Encoding.all (v.map (elemEncoding native type)))

theorem codes_elems (type : Elem) (v : List type.Value) :
    medium.Codes (Encoding.all (v.map (elemEncoding native type)))
      (fun stream => v.foldl (fun stream x => serialize native type x stream) stream)
      (List.Vector.toList <$> Medium.readEach (deserialize native type) v.length) v :=
  (Medium.codes_readEach ⟨v, rfl⟩ fun x _ => codes_elem native type x).map List.Vector.toList

theorem writes_vector (type : Elem) (v : List type.Value) :
    medium.Writes (vectorEncoding native type v) (serializeVector native type v) :=
  (codes_varint (UInt64.ofNat v.length)).writes.seq (codes_elems native type v).writes

theorem codes_vector {type : Elem} {v : List type.Value} (h : v.length ≤ 1000000) :
    medium.Codes (vectorEncoding native type v) (serializeVector native type v)
      (deserializeVector native type) v := by
  have hlen : (UInt64.ofNat v.length).toNat = v.length := toNat_ofNat64 (by omega)
  have hshort : ¬UInt64.ofNat v.length > 1000000 := by
    rw [gt_iff_lt, UInt64.lt_iff_toNat_lt, hlen]
    exact not_lt.mpr h
  refine ⟨writes_vector native type v, (codes_varint _).reads.bind ?_⟩
  rw [if_neg hshort, hlen]
  exact (codes_elems native type v).reads

end

end CampelloNet.Serialization.BitStream
