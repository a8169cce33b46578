import CampelloNet.Serialization.Codes

/-!
# Reading where the writing left off

A stream that was written to can be read itself. Its bits need not end at a byte boundary then: the
buffer continues with zeros, which are not to be read. `tape` is the medium of such streams; those that
arrived as bytes are among them.
-/

namespace CampelloNet.Serialization.BitStream

open Lib

/-- `medium`, except that a stream that is read need not hold whole bytes. -/
def tape : Medium Bool BitStream BitStream where
  written := medium.written
  reading s bits p :=
    s.readBitPos = p ∧ s.writeBitPos = bits.length ∧
      bytesBits s.buffer = bits ++ List.replicate (pad bits.length) false

section
variable {s : BitStream} {bits : List Bool} {p : ℕ}

/-- What was written can be read from the same stream. -/
theorem reading_written (h : tape.written s bits) :
    tape.reading { s with readBitPos := p } bits p :=
  ⟨rfl, h.1, h.2⟩

theorem written_unique {bits' : List Bool} (h : tape.written s bits) (h' : tape.written s bits') :
    bits = bits' := by
  have hlen : bits.length = bits'.length := h.1.symm.trans h'.1
  exact List.append_inj_left (h.2.symm.trans h'.2) hlen

end

/-- A write and a read fit each other on one value at most. -/
theorem codes_unique {α : Type} {e e' : Encoding Bool} {write : BitStream → BitStream}
    {read : Reader α} {x x' : α} (h : tape.Codes e write read x) (h' : tape.Codes e' write read x') :
    x = x' := by
  have hwritten := h.writes {} [] written_empty
  have hsame : e 0 = e' 0 := written_unique hwritten (h'.writes {} [] written_empty)
  have hreading := reading_written (p := 0) hwritten
  obtain ⟨s, hread, -⟩ := h.reads { write {} with readBitPos := 0 } [] [] (by simpa using hreading)
  obtain ⟨s', hread', -⟩ :=
    h'.reads { write {} with readBitPos := 0 } [] [] (by simpa [← hsame] using hreading)
  rw [hread] at hread'
  exact Option.some.inj (congrArg Prod.fst hread')

theorem tape_reads_readBits {bits : List Bool} (h : bits.length ≤ 64) :
    tape.Reads (fun _ => bits) (readBits bits.length) (UInt64.ofNat (ofBits bits)) := by
  intro s past rest ⟨hpos, hend, hbits⟩
  refine ⟨{ s with readBitPos := past.length + bits.length }, ?_, rfl, hend, hbits⟩
  rw [List.append_assoc, List.append_assoc] at hbits
  unfold readBits
  by_cases hnone : bits.length = 0
  · obtain rfl := List.length_eq_zero_iff.mp hnone
    obtain ⟨buffer, writeBitPos, readBitPos⟩ := s
    obtain rfl := hpos
    rfl
  · rw [if_neg hnone, if_neg (by rw [hpos, hend]; simp), readBitsLoop_eq hbits hpos]
    simp

theorem tape_codes_bits (v : UInt64) {n : ℕ} (h : n ≤ 64) :
    tape.Codes (fun _ => natBits n v.toNat) (writeBits v n) (readBits n)
      (UInt64.ofNat (v.toNat % 2 ^ n)) := by
  refine ⟨writes_writeBits v h, ?_⟩
  have := @tape_reads_readBits (natBits n v.toNat) (by simpa using h)
  rwa [length_natBits, ofBits_natBits] at this

theorem tape_codes_word {α : Type} (toWord : α → UInt64) (ofWord : UInt64 → α) (n : ℕ) (h : n ≤ 64)
    (x : α) (hlt : (toWord x).toNat < 2 ^ n) (hof : ofWord (toWord x) = x) :
    tape.Codes (fun _ => natBits n (toWord x).toNat) (writeBits (toWord x) n)
      (ofWord <$> readBits n) x := by
  have := (tape_codes_bits (toWord x) h).map ofWord
  rwa [Nat.mod_eq_of_lt hlt, UInt64.ofNat_toNat, hof] at this

theorem tape_codes_bool (b : Bool) : tape.Codes (fun _ => [b]) (writeBool b) readBool b := by
  have := (tape_codes_bits (if b then 1 else 0) (n := 1) (by omega)).map fun v => decide (v ≠ 0)
  cases b <;> exact this

end CampelloNet.Serialization.BitStream
