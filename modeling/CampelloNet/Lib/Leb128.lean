import CampelloNet.Lib.Bytes
import Mathlib.Data.Nat.Digits.Defs

/-!
# Numbers in bytes of seven bits

A number in base 128, least significant digit first, one digit in the low seven bits of a byte; the high
bit tells whether another byte follows.
-/

namespace CampelloNet.Lib

/-- The number that the low seven bits of the bytes stand for. -/
def leb128 (bytes : Bytes) : ℕ := Nat.ofDigits (2 ^ 7) (bytes.map fun b => b.toNat % 2 ^ 7)

/-- The bytes up to the first without the high bit. -/
def leb128Prefix : Bytes → Option Bytes
  | [] => none
  | b :: rest => if b &&& 0x80 = 0 then some [b] else (leb128Prefix rest).map (b :: ·)

@[simp] theorem leb128_nil : leb128 [] = 0 := rfl

theorem leb128_cons (b : UInt8) (bytes : Bytes) :
    leb128 (b :: bytes) = b.toNat % 2 ^ 7 + 2 ^ 7 * leb128 bytes := Nat.ofDigits_cons

theorem leb128_singleton (b : UInt8) : leb128 [b] = b.toNat % 2 ^ 7 := by
  rw [leb128_cons, leb128_nil, Nat.mul_zero, Nat.add_zero]

theorem leb128_append (bytes bytes' : Bytes) :
    leb128 (bytes ++ bytes') = leb128 bytes + 2 ^ (7 * bytes.length) * leb128 bytes' := by
  rw [leb128, List.map_append, Nat.ofDigits_append, List.length_map, ← Nat.pow_mul]
  rfl

theorem leb128_lt (bytes : Bytes) : leb128 bytes < 2 ^ (7 * bytes.length) := by
  have hlt := Nat.ofDigits_lt_base_pow_length (b := 2 ^ 7) (l := bytes.map fun b => b.toNat % 2 ^ 7)
    (by decide) (by
      intro d hd
      obtain ⟨b, -, rfl⟩ := List.mem_map.mp hd
      exact Nat.mod_lt _ (by decide))
  rwa [List.length_map, ← Nat.pow_mul] at hlt

/-- A number of ten bytes takes 64 bits if its last digit is a bit. -/
theorem leb128_lt_iff {bytes : Bytes} (h : bytes.length ≤ 10) :
    leb128 bytes < 2 ^ 64 ↔ ∀ b ∈ bytes[9]?, b.toNat % 2 ^ 7 ≤ 1 := by
  by_cases hshort : bytes.length ≤ 9
  · refine iff_of_true ?_ ?_
    · refine (leb128_lt bytes).trans_le (Nat.pow_le_pow_right (by decide) ?_)
      omega
    · rw [List.getElem?_eq_none hshort]
      exact fun _ hb => nomatch hb
  · obtain ⟨front, last, rfl⟩ : ∃ front last, bytes = front ++ [last] := by
      rcases List.eq_nil_or_concat bytes with rfl | ⟨front, last, rfl⟩
      · exact absurd (Nat.zero_le _) hshort
      · exact ⟨front, last, by rw [List.concat_eq_append]⟩
    have hfront : front.length = 9 := by
      rw [List.length_append, List.length_singleton] at h hshort
      omega
    have hlast : (front ++ [last])[9]? = some last := by
      rw [List.getElem?_append_right hfront.le, hfront]
      rfl
    have hlt := leb128_lt front
    rw [hfront] at hlt
    rw [hlast, leb128_append, hfront, leb128_singleton]
    simp only [Option.mem_some_iff, forall_eq']
    omega

/-! ### The bytes of a number -/

theorem leb128Prefix_eq_some {bytes first : Bytes} (h : leb128Prefix bytes = some first) :
    first <+: bytes ∧ ∃ front last, first = front ++ [last] ∧ last &&& 0x80 = 0 ∧
      ∀ b ∈ front, b &&& 0x80 ≠ 0 := by
  induction bytes generalizing first with
  | nil => cases h
  | cons b rest ih =>
    rw [leb128Prefix] at h
    split_ifs at h with hlast
    · cases h
      exact ⟨⟨rest, rfl⟩, [], b, rfl, hlast, fun _ hb => nomatch hb⟩
    · obtain ⟨first', hfirst, rfl⟩ := Option.map_eq_some_iff.mp h
      obtain ⟨hinit, front, last, rfl, hclear, hset⟩ := ih hfirst
      refine ⟨(List.cons_prefix_cons).mpr ⟨rfl, hinit⟩, b :: front, last, rfl, hclear, ?_⟩
      intro b' hb'
      rcases List.mem_cons.mp hb' with rfl | hmem
      · exact hlast
      · exact hset b' hmem

theorem leb128Prefix_append {front : Bytes} {last : UInt8} (hfront : ∀ b ∈ front, b &&& 0x80 ≠ 0)
    (hlast : last &&& 0x80 = 0) (rest : Bytes) :
    leb128Prefix (front ++ last :: rest) = some (front ++ [last]) := by
  induction front with
  | nil => exact if_pos hlast
  | cons b front ih =>
    have hrest := ih fun b' hb' => hfront b' (List.mem_cons_of_mem _ hb')
    rw [List.cons_append, leb128Prefix, if_neg (hfront b List.mem_cons_self), hrest]
    rfl

end CampelloNet.Lib
