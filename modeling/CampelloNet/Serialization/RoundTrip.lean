import CampelloNet.Serialization.Codes

/-!
# Typed writes and reads

A sequence of typed writes is read back by the same sequence of typed reads (`readAll_writeAll`).
-/

namespace CampelloNet.Serialization

open Lib BitStream

namespace Item

/-- A word has 64 bits. -/
def InRange : Item → Prop
  | ⟨.bits n, _⟩ => n ≤ 64
  | _ => True

/-- What the reading methods accept. -/
def Valid : Item → Prop
  | ⟨.bits n, _⟩ => n ≤ 64
  | ⟨.bytes len, value⟩ => value.length = len
  | ⟨.string, value⟩ => value.length ≤ 65535
  | ⟨.vector _, value⟩ => value.length ≤ 1000000
  | _ => True

/-- What is read: of some bits the number that they are, anything else as it was written. -/
def readValue : (item : Item) → item.kind.Value
  | ⟨.bits n, value⟩ => UInt64.ofNat (value.toNat % 2 ^ n)
  | ⟨_, value⟩ => value

def readBack (item : Item) : Item := ⟨item.kind, item.readValue⟩

def encoding (native : Endian) : Item → Encoding Bool
  | ⟨.bool, value⟩ => fun _ => [value]
  | ⟨.bits n, value⟩ => fun _ => natBits n value.toNat
  | ⟨.scalar type, value⟩ => scalarEncoding native type value
  | ⟨.varint, value⟩ => varintEncoding value
  | ⟨.bytes _, value⟩ => bytesEncoding value
  | ⟨.string, value⟩ => stringEncoding value
  | ⟨.array n type, value⟩ => elemEncoding native (.array n type) value
  | ⟨.vector type, value⟩ => vectorEncoding native type value

end Item

section
variable (native : Endian)

theorem codes_kind_scalar (type : Scalar) (v : type.Value) :
    medium.Codes (scalarEncoding native type v) ((Kind.scalar type).write native v)
      ((Kind.scalar type).read native) v := by
  have := codes_scalar native type v
  cases type <;> exact this

theorem writes_item {item : Item} (h : item.InRange) :
    medium.Writes (item.encoding native) (item.kind.write native item.value) := by
  obtain ⟨kind, value⟩ := item
  cases kind with
  | bool => exact (codes_bool value).writes
  | bits n => exact writes_writeBits value h
  | scalar type => exact (codes_kind_scalar native type value).writes
  | varint => exact (codes_varint value).writes
  | bytes len => exact writes_bytes value
  | string => exact writes_string value
  | array n type => exact (codes_elem native (.array n type) value).writes
  | vector type => exact writes_vector native type value

theorem written_writeAll {items : List Item} (h : ∀ item ∈ items, item.InRange) :
    medium.written (writeAll native items {})
      (Encoding.all (items.map (Item.encoding native)) 0) := by
  have hwrites : medium.Writes (Encoding.all (items.map (Item.encoding native)))
      (writeAll native items) := by
    induction items with
    | nil => exact Medium.writes_id
    | cons item items ih =>
      have hrest := ih fun item' hmem => h item' (List.mem_cons_of_mem _ hmem)
      exact (writes_item native (h item List.mem_cons_self)).seq hrest
  exact hwrites {} [] written_empty

theorem codes_item {item : Item} (h : item.Valid) :
    medium.Codes (item.encoding native) (item.kind.write native item.value)
      (item.kind.read native) item.readValue := by
  obtain ⟨kind, value⟩ := item
  cases kind with
  | bool => exact codes_bool value
  | bits n => exact codes_bits value h
  | scalar type => exact codes_kind_scalar native type value
  | varint => exact codes_varint value
  | bytes len =>
    have hcodes := codes_bytes value
    rw [show List.length value = len from h] at hcodes
    exact hcodes
  | string => exact codes_string h
  | array n type => exact codes_elem native (.array n type) value
  | vector type => exact codes_vector native h

theorem codes_all {items : List Item} (h : ∀ item ∈ items, item.Valid) :
    medium.Codes (Encoding.all (items.map (Item.encoding native))) (writeAll native items)
      (readAll native (items.map Item.kind)) (items.map Item.readBack) := by
  induction items with
  | nil => exact ⟨Medium.writes_id, Medium.reads_pure _⟩
  | cons item items ih =>
    have hfirst := codes_item native (h item List.mem_cons_self)
    have hrest := ih fun item' hmem => h item' (List.mem_cons_of_mem _ hmem)
    exact ⟨hfirst.writes.seq hrest.writes, hfirst.reads.bind (hrest.reads.map (item.readBack :: ·))⟩

/-- Typed values that are written to an empty stream are read from its bytes, by the same sequence of
reads, as they were written. -/
theorem readAll_writeAll (items : List Item) (h : ∀ item ∈ items, item.Valid) :
    (readAll native (items.map Item.kind) (ofSpan (writeAll native items {}).span)).1 =
      some (items.map Item.readBack) := by
  have hcodes := codes_all native h
  have hwritten := hcodes.writes {} [] written_empty
  rw [List.nil_append] at hwritten
  rw [span_of_written hwritten]
  obtain ⟨s, hread, -⟩ := hcodes.reads (ofSpan (writeAll native items {}).buffer) [] _
    ⟨rfl, by rw [List.nil_append, ← hwritten.2]; simp [ofSpan, Nat.mul_comm],
      by rw [List.nil_append, ← hwritten.2]; rfl⟩
  rw [hread]

end

/-- A flag, three bits, a string, a varint and a vector. -/
def mixed : List Item :=
  [⟨.bool, true⟩, ⟨.bits 3, 13⟩, ⟨.string, [104, 105]⟩, ⟨.varint, 300⟩,
    ⟨.vector (.array 1 (.scalar .int16)), [⟨[-5], rfl⟩]⟩, ⟨.scalar .uint32, 7⟩]

theorem readAll_writeAll_mixed :
    (readAll .little (mixed.map Item.kind) (ofSpan (writeAll .little mixed {}).span)).1 =
      some (mixed.map Item.readBack) := by
  refine readAll_writeAll .little mixed fun item hmem => ?_
  simp only [mixed, List.mem_cons, List.not_mem_nil, or_false] at hmem
  rcases hmem with rfl | rfl | rfl | rfl | rfl | rfl
  · trivial
  · exact (by decide : 3 ≤ 64)
  · exact (by decide : 2 ≤ 65535)
  · trivial
  · exact (by decide : 1 ≤ 1000000)
  · trivial

end CampelloNet.Serialization
