import CampelloNet.Serialization.RoundTrip

/-!
# The byte order on the wire

`to_net` and the packing of bits each put the most significant byte first, so on a little-endian machine
a stream holds words least significant byte first; `write_u64_be` swaps on every machine, so on a
big-endian one it does. A message is the same on both if and only if every word in it reads the same in
both directions (`byteOrder_iff`).
-/

namespace CampelloNet

open Lib

/-! ### The timestamps and ids of system messages -/

namespace NetworkManager

open Serialization

/-- `__builtin_bswap64` -/
def bswap64 (x : UInt64) : UInt64 :=
  ofLe64 (x >>> 56).toUInt8 (x >>> 48).toUInt8 (x >>> 40).toUInt8 (x >>> 32).toUInt8
    (x >>> 24).toUInt8 (x >>> 16).toUInt8 (x >>> 8).toUInt8 x.toUInt8

/-- What `memcpy` copies of a word. -/
def memory (native : Endian) (x : UInt64) : Bytes :=
  match native with
  | .big => be64 x
  | .little => le64 x

def writeU64Be (native : Endian) (value : UInt64) : Bytes := memory native (bswap64 value)

def writeDoubleBe (native : Endian) (bits : UInt64) : Bytes := writeU64Be native bits

theorem be64_bswap64 (x : UInt64) : be64 (bswap64 x) = (be64 x).reverse := by
  apply bytesBits_injective
  rw [← natBits_be64, bswap64, ofLe64_eq, natBits_ofBe64]
  rfl

theorem writeU64Be_eq (native : Endian) (value : UInt64) :
    writeU64Be native value = match native with
      | .little => be64 value
      | .big => (be64 value).reverse := by
  cases native with
  | little =>
    show (be64 (bswap64 value)).reverse = _
    rw [be64_bswap64, List.reverse_reverse]
  | big => exact be64_bswap64 value

end NetworkManager

namespace Serialization

open BitStream NetworkManager

/-- The bytes are the same from both ends. -/
def Palindromic (data : Bytes) : Prop := data.reverse = data

instance : DecidablePred Palindromic := fun _ => inferInstanceAs (Decidable (_ = _))

theorem ordered_eq_iff {native : Endian} {data : Bytes} :
    ordered native data = data ↔ native = .big ∨ Palindromic data := by
  cases native <;> simp [ordered, Palindromic]

/-! ### One message on two machines -/

/-- Two encodings that are as long as each other, and the same if and only if `P`. -/
structure Alike (e e' : Encoding Bool) (P : Prop) : Prop where
  length : ∀ n, (e n).length = (e' n).length
  eq_iff : ∀ n, e n = e' n ↔ P

theorem Alike.refl (e : Encoding Bool) : Alike e e True := ⟨fun _ => rfl, fun _ => by simp⟩

theorem Alike.congr {e e' : Encoding Bool} {P Q : Prop} (h : Alike e e' P) (hPQ : P ↔ Q) : Alike e e' Q :=
  ⟨h.length, fun n => (h.eq_iff n).trans hPQ⟩

theorem Alike.seq {e₁ e₁' e₂ e₂' : Encoding Bool} {P Q : Prop} (h₁ : Alike e₁ e₁' P)
    (h₂ : Alike e₂ e₂' Q) : Alike (e₁.seq e₂) (e₁'.seq e₂') (P ∧ Q) := by
  constructor
  · intro n
    simp [Encoding.seq, h₁.length, h₂.length]
  · intro n
    unfold Encoding.seq
    constructor
    · intro heq
      obtain ⟨hfirst, hrest⟩ := List.append_inj heq (h₁.length n)
      rw [← h₁.length n] at hrest
      exact ⟨(h₁.eq_iff n).mp hfirst, (h₂.eq_iff _).mp hrest⟩
    · rintro ⟨hP, hQ⟩
      rw [(h₁.eq_iff n).mpr hP, (h₂.eq_iff _).mpr hQ]

theorem Alike.all {α : Type} {e e' : α → Encoding Bool} {P : α → Prop} (xs : List α)
    (h : ∀ x, Alike (e x) (e' x) (P x)) :
    Alike (Encoding.all (xs.map e)) (Encoding.all (xs.map e')) (∀ x ∈ xs, P x) := by
  induction xs with
  | nil => exact (Alike.refl Encoding.nil).congr (by simp)
  | cons x xs ih => exact ((h x).seq ih).congr List.forall_mem_cons.symm

/-- The numbers of an element, each by its bytes. -/
def Elem.numbers : (type : Elem) → type.Value → List Bytes
  | .scalar type, v => [beBytes type v]
  | .array _ type, v => v.toList.flatMap (Elem.numbers type)

/-- The numbers of more than 8 bits, and of 8, that a typed write sends through `to_net`. -/
def Item.numbers : Item → List Bytes
  | ⟨.scalar type, value⟩ => [beBytes type value]
  | ⟨.array n type, value⟩ => Elem.numbers (.array n type) value
  | ⟨.vector type, value⟩ => List.flatMap (Elem.numbers type) value
  | _ => []

theorem alike_scalar (type : Scalar) (v : type.Value) :
    Alike (scalarEncoding .little type v) (scalarEncoding .big type v) (Palindromic (beBytes type v)) := by
  have hbytes : Alike (fun _ => bytesBits (ordered .little (beBytes type v)))
      (fun _ => bytesBits (ordered .big (beBytes type v))) (Palindromic (beBytes type v)) :=
    ⟨fun _ => by simp, fun _ => bytesBits_injective.eq_iff⟩
  exact ((Alike.refl (leading type)).seq hbytes).congr (by simp)

theorem alike_elem (type : Elem) (v : type.Value) :
    Alike (elemEncoding .little type v) (elemEncoding .big type v)
      (∀ data ∈ Elem.numbers type v, Palindromic data) := by
  induction type with
  | scalar type => exact (alike_scalar type v).congr (by simp [Elem.numbers])
  | array n type ih => exact (Alike.all v.toList ih).congr (by simp [Elem.numbers]; tauto)

theorem alike_item (item : Item) :
    Alike (item.encoding .little) (item.encoding .big) (∀ data ∈ item.numbers, Palindromic data) := by
  obtain ⟨kind, value⟩ := item
  cases kind with
  | scalar type => exact (alike_scalar type value).congr (by simp [Item.numbers])
  | array n type => exact alike_elem (.array n type) value
  | vector type =>
    have := (Alike.refl (varintEncoding (UInt64.ofNat (List.length value)))).seq
      (Alike.all value (alike_elem type))
    exact this.congr (by simp [Item.numbers]; tauto)
  | _ => exact (Alike.refl _).congr (by simp [Item.numbers])

/-- A message is the same on both machines if and only if each number in it is the same from both
ends. -/
theorem span_writeAll_eq_iff {items : List Item} (h : ∀ item ∈ items, item.InRange) :
    (writeAll .little items {}).span = (writeAll .big items {}).span ↔
      ∀ item ∈ items, ∀ data ∈ item.numbers, Palindromic data := by
  have hlittle := written_writeAll .little h
  have hbig := written_writeAll .big h
  have halike := Alike.all items alike_item
  rw [span_of_written hlittle, span_of_written hbig, ← bytesBits_injective.eq_iff, hlittle.2, hbig.2,
    halike.length, ← halike.eq_iff 0]
  exact List.append_left_inj _

/-- What a number adds to a stream that ends at a byte boundary. -/
theorem span_serializeScalar (native : Endian) {items : List Item} (h : ∀ item ∈ items, item.InRange)
    (haligned : (writeAll native items {}).writeBitPos % 8 = 0) (type : Scalar) (v : type.Value) :
    (serializeScalar native type v (writeAll native items {})).span =
      (writeAll native items {}).span ++ ordered native (beBytes type v) := by
  have hbefore := written_writeAll native h
  have hafter := (codes_scalar native type v).writes _ _ hbefore
  rw [hbefore.1] at haligned
  have hleading : leading type (Encoding.all (items.map (Item.encoding native)) 0).length = [] := by
    cases type <;> simp [leading, Encoding.nil, alignment, pad_of_mod haligned]
  rw [span_of_written hbefore, span_of_written hafter]
  apply bytesBits_injective
  rw [hafter.2, bytesBits_append, hbefore.2, pad_of_mod haligned]
  unfold scalarEncoding Encoding.seq
  rw [hleading, pad_of_mod (by simp; omega)]
  simp

/-- Numbers are stored big-endian, and messages are the same on both machines, if and only if the machine
is big-endian, or for system messages little-endian, or the bytes are the same from both ends. -/
theorem byteOrder_iff (items : List Item) (h : ∀ item ∈ items, item.InRange) :
    (∀ native, (writeAll native items {}).writeBitPos % 8 = 0 → ∀ (type : Scalar) (v : type.Value),
      (serializeScalar native type v (writeAll native items {})).span =
          (writeAll native items {}).span ++ beBytes type v ↔
        native = .big ∨ Palindromic (beBytes type v)) ∧
    ((writeAll .little items {}).span = (writeAll .big items {}).span ↔
      ∀ item ∈ items, ∀ data ∈ item.numbers, Palindromic data) ∧
    ∀ value, (writeU64Be .little value = writeU64Be .big value ↔ Palindromic (be64 value)) ∧
      (writeDoubleBe .little value = writeDoubleBe .big value ↔ Palindromic (be64 value)) := by
  have hsystem : ∀ value, writeU64Be .little value = writeU64Be .big value ↔
      Palindromic (be64 value) := by
    intro value
    rw [writeU64Be_eq, writeU64Be_eq]
    exact eq_comm
  refine ⟨fun native haligned type v => ?_, span_writeAll_eq_iff h,
    fun value => ⟨hsystem value, hsystem value⟩⟩
  rw [span_serializeScalar native h haligned, List.append_cancel_left_eq]
  exact ordered_eq_iff

/-- A flag, a word that is the same from both ends, and a double word that is not. -/
def flagged : List Item := [⟨.bool, true⟩, ⟨.scalar .uint16, 0x0101⟩, ⟨.scalar .uint32, 0x01020304⟩]

/-- The machines build the same message of the first two, and different ones of all three. -/
theorem byteOrder_iff_flagged :
    (writeAll .little (flagged.take 2) {}).span = (writeAll .big (flagged.take 2) {}).span ∧
      (writeAll .little flagged {}).span ≠ (writeAll .big flagged {}).span ∧
      writeU64Be .little 0x0102030405060708 ≠ writeU64Be .big 0x0102030405060708 := by
  have hrange : ∀ item ∈ flagged, item.InRange := by simp [flagged, Item.InRange]
  obtain ⟨-, hsome, -⟩ := byteOrder_iff (flagged.take 2)
    fun item hitem => hrange item (List.mem_of_mem_take hitem)
  obtain ⟨-, hall, hsystem⟩ := byteOrder_iff flagged hrange
  refine ⟨hsome.mpr ?_, fun hsame => ?_, fun hsame => ?_⟩
  · intro item hitem
    simp only [flagged, List.take_succ_cons, List.take_zero, List.mem_cons, List.not_mem_nil,
      or_false] at hitem
    rcases hitem with rfl | rfl
    · exact nofun
    · intro data hdata
      obtain rfl := List.mem_singleton.mp hdata
      decide
  · have hlast := hall.mp hsame ⟨.scalar .uint32, 0x01020304⟩ (by simp [flagged]) [1, 2, 3, 4]
      (List.mem_singleton.mpr (by decide))
    exact absurd hlast (by decide)
  · exact absurd ((hsystem _).1.mp hsame) (by decide)

/-- A little-endian machine stores 258 least significant byte first, and the two machines build different
messages of it, and different ids of the client 1. -/
theorem word_reversed :
    (serializeScalar .little .uint16 0x0102 {}).span = [2, 1] ∧ beBytes .uint16 0x0102 = [1, 2] ∧
      (writeAll .little [⟨.scalar .uint16, 0x0102⟩] {}).span ≠
        (writeAll .big [⟨.scalar .uint16, 0x0102⟩] {}).span ∧
      writeU64Be .little 1 ≠ writeU64Be .big 1 := by
  decide

end Serialization

end CampelloNet
