import CampelloNet.Lib.Bytes

/-!
# Spans into a growing blob

A byte vector at an address, and spans that point into it. Growing past the capacity moves the
vector to wherever the allocator says; a span taken before is then moved along (`Span.rebase`). A
span denotes bytes (`Blob.read`) only as long as it lies inside the vector, an empty one wherever it
points.
-/

namespace CampelloNet.Lib

/-- What the allocator answers to a request: an address, and room beyond what was asked for. -/
structure Region where
  address : ℕ
  spare : ℕ

structure Blob where
  address : ℕ
  bytes : Bytes
  capacity : ℕ
  fits : bytes.length ≤ capacity

/-- An address and a number of bytes. -/
structure Span where
  address : ℕ
  size : ℕ

namespace Blob

def clear (blob : Blob) : Blob := { blob with bytes := [], fits := Nat.zero_le _ }

/-- Bytes appended at the end, in a new region if the old one has no room for them. -/
def insert (region : Region) (new : Bytes) (blob : Blob) : Blob :=
  if h : (blob.bytes ++ new).length ≤ blob.capacity then
    { blob with bytes := blob.bytes ++ new, fits := h }
  else
    { address := region.address
      bytes := blob.bytes ++ new
      capacity := (blob.bytes ++ new).length + region.spare
      fits := Nat.le_add_right _ _ }

/-- Room for so many bytes in all. -/
def reserve (region : Region) (size : ℕ) (blob : Blob) : Blob :=
  if size ≤ blob.capacity then blob
  else
    { address := region.address
      bytes := blob.bytes
      capacity := max size blob.bytes.length + region.spare
      fits := Nat.le_add_right_of_le (Nat.le_max_right _ _) }

/-- The bytes of a span, `none` if it reaches outside of the blob. -/
def read (span : Span) (blob : Blob) : Option Bytes :=
  if span.size = 0 then some []
  else if blob.address ≤ span.address ∧
      span.address + span.size ≤ blob.address + blob.bytes.length then
    some ((blob.bytes.drop (span.address - blob.address)).take span.size)
  else none

end Blob

/-- The span after a move of its blob: the same distance from the new address. -/
def Span.rebase (old new : ℕ) (span : Span) : Span :=
  let rel : ℤ := span.address - old
  { span with address := new + rel.toNat }

/-- The spans after the blob went from the old address to the new one. -/
def Span.fixup (old new : ℕ) (span : Span) : Span :=
  if new = old ∨ span.size = 0 then span else span.rebase old new

namespace Blob

variable {blob : Blob} {span : Span} {region : Region} {new bytes : Bytes}

@[simp] theorem bytes_clear : blob.clear.bytes = [] := rfl

@[simp] theorem bytes_insert : (blob.insert region new).bytes = blob.bytes ++ new := by
  unfold insert
  split <;> rfl

@[simp] theorem bytes_reserve (size : ℕ) : (blob.reserve region size).bytes = blob.bytes := by
  unfold reserve
  split <;> rfl

theorem le_capacity_reserve (size : ℕ) : size ≤ (blob.reserve region size).capacity := by
  unfold reserve
  split
  · assumption
  · exact Nat.le_add_right_of_le (Nat.le_max_left _ _)

/-- As long as there is room the blob stays where it is. -/
theorem insert_of_room (h : (blob.bytes ++ new).length ≤ blob.capacity) :
    (blob.insert region new).address = blob.address ∧
      (blob.insert region new).capacity = blob.capacity := by
  unfold insert
  rw [dif_pos h]
  exact ⟨rfl, rfl⟩

theorem read_of_inside (hlo : blob.address ≤ span.address)
    (hhi : span.address + span.size ≤ blob.address + blob.bytes.length) :
    blob.read span = some ((blob.bytes.drop (span.address - blob.address)).take span.size) := by
  unfold read
  by_cases hempty : span.size = 0
  · rw [if_pos hempty, hempty, List.take_zero]
  · rw [if_neg hempty, if_pos ⟨hlo, hhi⟩]

/-- A span that denotes bytes is empty or lies inside the blob. -/
theorem inside_of_read (h : blob.read span = some bytes) :
    span.size = 0 ∧ bytes = [] ∨
      span.size ≠ 0 ∧ blob.address ≤ span.address ∧
        span.address + span.size ≤ blob.address + blob.bytes.length ∧
        bytes = (blob.bytes.drop (span.address - blob.address)).take span.size := by
  unfold read at h
  split at h
  · next hempty => exact .inl ⟨hempty, (Option.some.inj h).symm⟩
  · next hsize =>
    split at h
    · next hin => exact .inr ⟨hsize, hin.1, hin.2, (Option.some.inj h).symm⟩
    · simp at h

/-- What was read inside a byte string is read inside a longer one. -/
theorem take_drop_append {m n : ℕ} (h : m + n ≤ bytes.length) :
    ((bytes ++ new).drop m).take n = (bytes.drop m).take n := by
  rw [List.drop_append_of_le_length (by omega), List.take_append_of_le_length]
  rw [List.length_drop]
  omega

/-- A span that is moved along denotes what it did before the blob grew. -/
theorem read_fixup (h : blob.read span = some bytes) :
    (blob.insert region new).read (span.fixup blob.address (blob.insert region new).address) =
      some bytes := by
  unfold Span.fixup
  rcases inside_of_read h with ⟨hempty, rfl⟩ | ⟨hsize, hlo, hhi, rfl⟩
  · rw [if_pos (.inr hempty)]
    unfold read
    rw [if_pos hempty]
  · by_cases hsame : (blob.insert region new).address = blob.address
    · rw [if_pos (.inl hsame), read_of_inside (by omega), hsame, bytes_insert, take_drop_append (by omega)]
      rw [hsame, bytes_insert, List.length_append]
      omega
    · rw [if_neg (by tauto)]
      have hrel : ((span.address : ℤ) - blob.address).toNat = span.address - blob.address := by omega
      have haddr : (span.rebase blob.address (blob.insert region new).address).address =
          (blob.insert region new).address + (span.address - blob.address) := by
        dsimp only [Span.rebase]
        rw [hrel]
      have hkeep : (span.rebase blob.address (blob.insert region new).address).size = span.size := rfl
      rw [read_of_inside (by omega), haddr, hkeep, Nat.add_sub_cancel_left, bytes_insert,
        take_drop_append (by omega)]
      rw [haddr, hkeep, bytes_insert, List.length_append]
      omega

/-- As long as there is room the spans stay as they are. -/
theorem read_insert_of_room (hroom : (blob.bytes ++ new).length ≤ blob.capacity)
    (h : blob.read span = some bytes) : (blob.insert region new).read span = some bytes := by
  have hfix : (blob.insert region new).read (span.fixup blob.address (blob.insert region new).address) =
      some bytes := read_fixup h
  rwa [(insert_of_room hroom).1, Span.fixup, if_pos (.inl rfl)] at hfix

/-- The span of what was appended last. -/
theorem read_insert (blob : Blob) (region : Region) (new : Bytes) :
    (blob.insert region new).read
      ⟨(blob.insert region new).address + blob.bytes.length, new.length⟩ = some new := by
  rw [read_of_inside (by dsimp only; omega)]
  · dsimp only
    rw [Nat.add_sub_cancel_left, bytes_insert, List.drop_left, List.take_length]
  · dsimp only
    rw [bytes_insert, List.length_append]
    omega

end Blob

end CampelloNet.Lib
