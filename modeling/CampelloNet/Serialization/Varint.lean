import CampelloNet.Lib.Leb128
import CampelloNet.Serialization.Bounds
import CampelloNet.Serialization.Codes

/-!
# Variable-length integers from any bytes

`read_varint` on a stream that no `write_varint` need have written. It reads the bytes up to the first
without the high bit, ten at most, and returns the number they stand for modulo 2⁶⁴
(`readVarint_some`): the tenth byte may carry six bits too many, and nothing looks at them.
-/

namespace CampelloNet.Serialization.BitStream

open Lib

/-- The whole bytes from the next byte boundary on. -/
def upcoming (s : BitStream) : Bytes := (s.buffer.take (s.writeBitPos / 8)).drop (s.alignedPos / 8)

variable {s : BitStream} {i : ℕ}

/-! ### One byte -/

theorem readUint8_at {b : UInt8} (hpos : s.readBitPos = 8 * i) (hget : s.buffer[i]? = some b)
    (hroom : 8 * i + 8 ≤ s.writeBitPos) :
    readUint8 s = (some b, { s with readBitPos := 8 * (i + 1) }) := by
  obtain ⟨hi, rfl⟩ := List.getElem?_eq_some_iff.mp hget
  have hbits : bytesBits s.buffer = bytesBits (s.buffer.take i) ++
      (byteBits s.buffer[i] ++ bytesBits (s.buffer.drop (i + 1))) := by
    rw [← bytesBits_cons, ← List.drop_eq_getElem_cons hi, ← bytesBits_append, List.take_append_drop]
  have hlen : (bytesBits (s.buffer.take i)).length = 8 * i := by
    rw [length_bytesBits, List.length_take, Nat.min_eq_left hi.le]
  have hloop := @readBitsLoop_eq _ _ _ 0 s hbits (hpos.trans hlen.symm)
  have hread : readBits 8 s = (some s.buffer[i].toUInt64, { s with readBitPos := 8 * (i + 1) }) := by
    rw [readBits, if_neg (by decide), if_neg (by omega)]
    rw [length_byteBits, hlen] at hloop
    rw [hloop]
    have hbyte : ofBits (byteBits s.buffer[i]) = s.buffer[i].toNat := by
      rw [byteBits, ofBits_natBits, Nat.mod_eq_of_lt s.buffer[i].toNat_lt]
    have hword : UInt64.ofNat s.buffer[i].toNat = s.buffer[i].toUInt64 := by
      apply UInt64.toNat_inj.mp
      have := s.buffer[i].toNat_lt
      rw [toNat_ofNat64 (by omega), UInt8.toNat_toUInt64]
    rw [hbyte, UInt64.toNat_zero, Nat.zero_mul, Nat.zero_add, hword]
    rfl
  have hbyte : readUint8 s = (some s.buffer[i].toUInt64.toUInt8, { s with readBitPos := 8 * (i + 1) }) :=
    Medium.run_bind_some hread
  rw [hbyte, UInt8.toUInt8_toUInt64]

theorem readUint8_end (hroom : s.writeBitPos < s.readBitPos + 8) : readUint8 s = (none, s) := by
  have hread : readBits 8 s = (none, s) := by
    rw [readBits, if_neg (by decide), if_pos (by omega)]
  exact Medium.run_bind_none hread

/-! ### The loop -/

/-- The seven bits of a byte, shifted over those that were read before. -/
theorem or_low7 {acc : UInt64} {j : ℕ} (hj : j ≤ 9) (hacc : acc.toNat < 2 ^ (7 * j)) (b : UInt8) :
    (acc ||| ((b &&& 0x7F).toUInt64 <<< UInt64.ofNat (7 * j))).toNat =
      (acc.toNat + 2 ^ (7 * j) * (b.toNat % 2 ^ 7)) % 2 ^ 64 := by
  have hshift : ((b &&& 0x7F).toUInt64 <<< UInt64.ofNat (7 * j)).toNat =
      2 ^ (7 * j) * (b.toNat % 2 ^ 7) % 2 ^ 64 := by
    rw [UInt64.toNat_shiftLeft, toNat_ofNat64 (by omega), Nat.mod_eq_of_lt (by omega : 7 * j < 64),
      Nat.shiftLeft_eq, and_0x7F, Nat.mul_comm]
  -- both are multiples of the place value
  have hsplit : 2 ^ 64 = 2 ^ (7 * j) * 2 ^ (64 - 7 * j) := by
    rw [← Nat.pow_add]
    congr 1
    omega
  have hplace : 2 ^ (7 * j) * (b.toNat % 2 ^ 7) % 2 ^ 64 =
      2 ^ (7 * j) * (b.toNat % 2 ^ 7 % 2 ^ (64 - 7 * j)) := by
    rw [hsplit, Nat.mul_mod_mul_left]
  have hdigit : b.toNat % 2 ^ 7 % 2 ^ (64 - 7 * j) < 2 ^ (64 - 7 * j) := Nat.mod_lt _ (Nat.two_pow_pos _)
  have hbelow : acc.toNat + 2 ^ (7 * j) * (b.toNat % 2 ^ 7) % 2 ^ 64 < 2 ^ 64 := by
    have hle : 2 ^ (7 * j) * (b.toNat % 2 ^ 7 % 2 ^ (64 - 7 * j) + 1) ≤ 2 ^ 64 := by
      rw [hsplit]
      exact Nat.mul_le_mul_left _ hdigit
    rw [Nat.mul_add, Nat.mul_one] at hle
    rw [hplace]
    omega
  rw [UInt64.toNat_or, hshift, Nat.or_comm, or_eq_add (k := 7 * j) _ hacc, Nat.add_comm,
    ← Nat.mod_eq_of_lt hbelow, Nat.add_mod_mod]
  · rw [hplace]
    exact Nat.mul_mod_right _ _

theorem readVarintLoop_at {b : UInt8} (hpos : s.readBitPos = 8 * i) (hget : s.buffer[i]? = some b)
    (hroom : 8 * i + 8 ≤ s.writeBitPos) (shift : ℕ) (acc : UInt64) :
    readVarintLoop shift acc s =
      if b &&& 0x80 = 0 then
        (some (acc ||| ((b &&& 0x7F).toUInt64 <<< UInt64.ofNat shift)),
          { s with readBitPos := 8 * (i + 1) })
      else if shift + 7 ≥ 64 then (none, { s with readBitPos := 8 * (i + 1) })
      else readVarintLoop (shift + 7) (acc ||| ((b &&& 0x7F).toUInt64 <<< UInt64.ofNat shift))
        { s with readBitPos := 8 * (i + 1) } := by
  rw [readVarintLoop]
  refine (Medium.run_bind_some (readUint8_at hpos hget hroom)).trans ?_
  split_ifs <;> rfl

/-- What the loop makes of the bytes that are left, after `j` bytes with the number `acc`. -/
theorem readVarintLoop_bytes {bytes : Bytes} (hpos : s.readBitPos = 8 * i)
    (hbuffer : s.writeBitPos ≤ 8 * s.buffer.length)
    (hbytes : (s.buffer.take (s.writeBitPos / 8)).drop i = bytes) (j : ℕ) (hj : j ≤ 9) (acc : UInt64)
    (hacc : acc.toNat < 2 ^ (7 * j)) :
    (∀ first ∈ leb128Prefix bytes, j + first.length ≤ 10 →
      readVarintLoop (7 * j) acc s =
        (some (UInt64.ofNat (acc.toNat + 2 ^ (7 * j) * leb128 first)),
          { s with readBitPos := 8 * (i + first.length) })) ∧
    ((∀ first ∈ leb128Prefix bytes, 10 < j + first.length) → (readVarintLoop (7 * j) acc s).1 = none) := by
  induction bytes generalizing s i j acc with
  | nil =>
    refine ⟨fun _ hfirst => (nomatch hfirst), fun _ => ?_⟩
    have hend : s.writeBitPos / 8 ≤ i := by
      have := List.drop_eq_nil_iff.mp hbytes
      rw [List.length_take] at this
      omega
    rw [readVarintLoop]
    exact congrArg Prod.fst (Medium.run_bind_none (readUint8_end (by omega)))
  | cons b bytes ih =>
    have hhead : (s.buffer.take (s.writeBitPos / 8))[i]? = some b := by
      have := congrArg (fun l : Bytes => l[0]?) hbytes
      rwa [List.getElem?_drop, Nat.add_zero] at this
    have hrest : (s.buffer.take (s.writeBitPos / 8)).drop (i + 1) = bytes := by
      rw [← List.tail_drop, hbytes, List.tail_cons]
    have hroom : 8 * i + 8 ≤ s.writeBitPos := by
      have := (List.getElem?_eq_some_iff.mp hhead).1
      rw [List.length_take] at this
      omega
    have hget : s.buffer[i]? = some b := by
      rwa [List.getElem?_take_of_lt (by omega)] at hhead
    rw [readVarintLoop_at hpos hget hroom, leb128Prefix]
    have hnext := or_low7 hj hacc b
    by_cases hlast : b &&& 0x80 = 0
    · rw [if_pos hlast, if_pos hlast]
      refine ⟨fun first hfirst _ => ?_, fun hlong => ?_⟩
      · cases hfirst
        refine Prod.ext (congrArg some (UInt64.toNat_inj.mp ?_)) rfl
        rw [hnext, leb128_singleton, UInt64.toNat_ofNat']
      · have := hlong [b] rfl
        rw [List.length_singleton] at this
        omega
    · rw [if_neg hlast, if_neg hlast]
      simp only [Option.mem_def, Option.map_eq_some_iff, forall_exists_index, and_imp,
        forall_apply_eq_imp_iff₂, List.length_cons]
      by_cases hten : 7 * j + 7 ≥ 64
      · rw [if_pos hten]
        refine ⟨fun first hfirst hshort => ?_, fun _ => rfl⟩
        -- a tenth byte with the high bit, and one more
        obtain ⟨-, front, last, rfl, -, -⟩ := leb128Prefix_eq_some hfirst
        rw [List.length_append, List.length_singleton] at hshort
        omega
      · rw [if_neg hten]
        have hfits : acc.toNat + 2 ^ (7 * j) * (b.toNat % 2 ^ 7) < 2 ^ (7 * (j + 1)) := by
          have hdigit : b.toNat % 2 ^ 7 < 2 ^ 7 := Nat.mod_lt _ (by decide)
          have hle : 2 ^ (7 * j) * (b.toNat % 2 ^ 7 + 1) ≤ 2 ^ (7 * j) * 2 ^ 7 :=
            Nat.mul_le_mul_left _ hdigit
          rw [Nat.mul_add, Nat.mul_one, ← Nat.pow_add] at hle
          rw [Nat.mul_add, Nat.mul_one]
          omega
        have hword : 2 ^ (7 * (j + 1)) ≤ 2 ^ 64 := Nat.pow_le_pow_right (by decide) (by omega)
        rw [Nat.mod_eq_of_lt (hfits.trans_le hword)] at hnext
        obtain ⟨hread, hfail⟩ := ih (s := { s with readBitPos := 8 * (i + 1) }) rfl hbuffer hrest (j + 1) (by omega) _ (by rw [hnext]; exact hfits)
        refine ⟨fun first hfirst hshort => ?_, fun hlong => ?_⟩
        · have hgo := hread first hfirst (by omega)
          rw [Nat.mul_add, Nat.mul_one] at hgo
          rw [hgo, hnext, leb128_cons, Nat.mul_add, Nat.pow_add]
          refine Prod.ext (congrArg some (congrArg UInt64.ofNat ?_)) ?_
          · ring
          · dsimp only
            congr 1
            omega
        · exact hfail fun first hfirst => by
            have := hlong first hfirst
            omega

/-! ### Reading a number -/

theorem readVarint_eq (hread : s.readBitPos ≤ s.writeBitPos) (hbuffer : s.writeBitPos ≤ 8 * s.buffer.length) :
    (∀ first ∈ leb128Prefix s.upcoming, first.length ≤ 10 →
      readVarint s = (some (UInt64.ofNat (leb128 first)),
        { s with readBitPos := s.alignedPos + 8 * first.length })) ∧
    ((∀ first ∈ leb128Prefix s.upcoming, 10 < first.length) → (readVarint s).1 = none) := by
  have hboundary : s.alignedPos = 8 * (s.alignedPos / 8) := by
    unfold alignedPos
    omega
  have halign := ReadCall.alignReadToByte_eq hread
  by_cases hroom : s.alignedPos ≤ s.writeBitPos
  · rw [if_pos hroom] at halign
    have hskip : readVarint s = readVarintLoop 0 0 { s with readBitPos := s.alignedPos } :=
      Medium.run_bind_some halign
    obtain ⟨hsome, hnone⟩ := readVarintLoop_bytes (s := { s with readBitPos := s.alignedPos }) hboundary
      hbuffer rfl 0 (by omega) 0 (by decide)
    rw [Nat.mul_zero] at hsome hnone
    rw [hskip]
    refine ⟨fun first hfirst hshort => ?_, fun hlong => hnone fun first hfirst => ?_⟩
    · rw [hsome first hfirst (by omega), UInt64.toNat_zero, Nat.zero_add, Nat.pow_zero, Nat.one_mul]
      refine Prod.ext rfl ?_
      dsimp only
      congr 1
      omega
    · have := hlong first hfirst
      omega
  · rw [if_neg hroom] at halign
    have hempty : s.upcoming = [] := by
      rw [upcoming, List.drop_eq_nil_iff, List.length_take]
      omega
    rw [hempty]
    exact ⟨fun _ hfirst => (nomatch hfirst), fun _ => congrArg Prod.fst (Medium.run_bind_none halign)⟩

/-- The bytes that a read went over, from the byte boundary on. -/
def consumed (s s' : BitStream) : Bytes :=
  (s.buffer.drop (s.alignedPos / 8)).take (s'.readBitPos / 8 - s.alignedPos / 8)

/-- What `read_varint` returns is the number that the bytes it went over stand for. -/
def VarintSound (s : BitStream) : Prop :=
  ∀ value s', readVarint s = (some value, s') → value.toNat = leb128 (consumed s s')

/-- A tenth byte that ends the number, with more in it than the one bit there is room for. -/
def Overlong (bytes : Bytes) : Prop :=
  ∃ b ∈ bytes[9]?, 1 < b ∧ b &&& 0x80 = 0 ∧ ∀ c ∈ bytes.take 9, c &&& 0x80 ≠ 0

theorem mod_of_clear {b : UInt8} (h : b &&& 0x80 = 0) : b.toNat % 2 ^ 7 = b.toNat := by
  have hbit := (and_0x80 b).mp h
  rw [Nat.testBit_eq_decide_div_mod_eq, decide_eq_false_iff_not] at hbit
  have := b.toNat_lt
  omega

theorem overlong_iff (bytes : Bytes) :
    Overlong bytes ↔ ∃ first ∈ leb128Prefix bytes, first.length ≤ 10 ∧ ¬leb128 first < 2 ^ 64 := by
  constructor
  · rintro ⟨b, hget, hbig, hclear, hset⟩
    obtain ⟨hlen, rfl⟩ := List.getElem?_eq_some_iff.mp hget
    have hbytes : bytes = bytes.take 9 ++ bytes[9] :: bytes.drop 10 := by
      rw [← List.drop_eq_getElem_cons hlen, List.take_append_drop]
    have hnine : (bytes.take 9).length = 9 := by
      rw [List.length_take]
      omega
    have hfirst := leb128Prefix_append hset hclear (bytes.drop 10)
    rw [← hbytes] at hfirst
    have hten : (bytes.take 9 ++ [bytes[9]]).length ≤ 10 := by
      rw [List.length_append, hnine, List.length_singleton]
    refine ⟨_, hfirst, hten, fun hfits => ?_⟩
    have hlast := (leb128_lt_iff hten).mp hfits bytes[9] (by
      rw [List.getElem?_append_right hnine.le, hnine]
      rfl)
    rw [mod_of_clear hclear] at hlast
    have hbig' := UInt8.lt_iff_toNat_lt.mp hbig
    have : (1 : UInt8).toNat = 1 := rfl
    omega
  · rintro ⟨first, hfirst, hten, hlong⟩
    obtain ⟨⟨rest, rfl⟩, front, last, rfl, hclear, hset⟩ := leb128Prefix_eq_some hfirst
    rw [leb128_lt_iff hten] at hlong
    push Not at hlong
    obtain ⟨b, hget, hbig⟩ := hlong
    have hnine : front.length = 9 := by
      have := (List.getElem?_eq_some_iff.mp hget).1
      rw [List.length_append, List.length_singleton] at hten this
      omega
    have hb : b = last := by
      rw [List.getElem?_append_right hnine.le, hnine] at hget
      exact (Option.some.inj hget).symm
    subst hb
    refine ⟨b, ?_, ?_, hclear, ?_⟩
    · rw [List.append_assoc, List.getElem?_append_right hnine.le, hnine]
      rfl
    · rw [mod_of_clear hclear] at hbig
      exact UInt8.lt_iff_toNat_lt.mpr hbig
    · rw [List.append_assoc, List.take_left' hnine]
      exact hset

/-- The bytes of a number are the first of those to come. -/
theorem consumed_eq {first : Bytes} (hfirst : first <+: s.upcoming) :
    consumed s { s with readBitPos := s.alignedPos + 8 * first.length } = first := by
  have hcount : (s.alignedPos + 8 * first.length) / 8 - s.alignedPos / 8 = first.length := by
    unfold alignedPos
    omega
  have hupcoming : s.upcoming <+: s.buffer.drop (s.alignedPos / 8) := by
    rw [upcoming, List.drop_take]
    exact List.take_prefix _ _
  rw [consumed, hcount]
  exact (List.prefix_iff_eq_take.mp (hfirst.trans hupcoming)).symm

theorem varintSound_iff (hread : s.readBitPos ≤ s.writeBitPos)
    (hbuffer : s.writeBitPos ≤ 8 * s.buffer.length) : VarintSound s ↔ ¬Overlong s.upcoming := by
  obtain ⟨hsome, hnone⟩ := readVarint_eq hread hbuffer
  rw [overlong_iff]
  by_cases hshort : ∃ first ∈ leb128Prefix s.upcoming, first.length ≤ 10
  · obtain ⟨first, hfirst, hten⟩ := hshort
    have hunique : (∃ first' ∈ leb128Prefix s.upcoming, first'.length ≤ 10 ∧ ¬leb128 first' < 2 ^ 64) ↔
        ¬leb128 first < 2 ^ 64 := by
      rw [Option.mem_def.mp hfirst]
      simp [hten]
    have hvalue : VarintSound s ↔ (UInt64.ofNat (leb128 first)).toNat = leb128 first := by
      have hconsumed := consumed_eq (leb128Prefix_eq_some hfirst).1
      constructor
      · intro hsound
        rw [hsound _ _ (hsome first hfirst hten), hconsumed]
      · intro heq value s' hrun
        rw [hsome first hfirst hten] at hrun
        cases hrun
        rw [hconsumed]
        exact heq
    rw [hunique, hvalue, UInt64.toNat_ofNat', not_not]
    exact Nat.mod_eq_iff_lt (by decide)
  · push Not at hshort
    refine iff_of_true (fun value s' hrun => ?_) ?_
    · have hfail := hnone hshort
      rw [hrun] at hfail
      cases hfail
    · rintro ⟨first, hfirst, hten, -⟩
      exact absurd hten (not_le.mpr (hshort first hfirst))

/-- 300 in two bytes. -/
theorem varintSound_ofSpan : VarintSound (ofSpan [0xAC, 0x02]) :=
  (varintSound_iff (Nat.zero_le _) (by decide)).mpr (by
    rintro ⟨b, hb, -⟩
    cases hb)

/-- 2⁶⁴ in ten bytes. -/
def tenBytes : Bytes := List.replicate 9 0x80 ++ [2]

theorem not_varintSound : ¬ ∀ s : BitStream, s.readBitPos ≤ s.writeBitPos →
    s.writeBitPos ≤ 8 * s.buffer.length → VarintSound s := by
  intro h
  have hread : (ofSpan tenBytes).readBitPos ≤ (ofSpan tenBytes).writeBitPos := Nat.zero_le _
  have hbuffer : (ofSpan tenBytes).writeBitPos ≤ 8 * (ofSpan tenBytes).buffer.length := by decide
  have hfirst : leb128Prefix (ofSpan tenBytes).upcoming = some tenBytes := by decide
  have hsound := h _ hread hbuffer _ _ ((readVarint_eq hread hbuffer).1 tenBytes hfirst (by decide))
  rw [consumed_eq (leb128Prefix_eq_some hfirst).1] at hsound
  revert hsound
  decide

end CampelloNet.Serialization.BitStream
