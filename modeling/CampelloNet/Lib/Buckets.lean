import CampelloNet.Lib.Keyed
import Mathlib.Data.Int.Notation
import Mathlib.Logic.Function.Basic

/-!
# Buckets

A map from keys to vectors, in which a value is listed under the key it belongs to. A bucket exists
as long as it lists something. `Indexed` says that the buckets list each value exactly once, under its
key; it is kept when a value is added or removed, and what the buckets of some keys list is then a
matter of the keys alone.
-/

namespace CampelloNet.Lib

variable {κ α : Type*} [DecidableEq κ] [DecidableEq α]

abbrev Buckets (κ α : Type*) := List (κ × List α)

namespace Buckets

/-- What is listed under a key. -/
def bucket (k : κ) (b : Buckets κ α) : List α := ((lookup Prod.fst k b).map Prod.snd).getD []

def insert (k : κ) (a : α) (b : Buckets κ α) : Buckets κ α := upsert Prod.fst (k, bucket k b ++ [a]) b

/-- Erase a value from a bucket, and the bucket if nothing is left in it. -/
def remove (k : κ) (a : α) (b : Buckets κ α) : Buckets κ α :=
  match lookup Prod.fst k b with
  | none => b
  | some (_, as) =>
    if a ∈ as then
      if as.erase a = [] then b.filter fun e => e.1 ≠ k else upsert Prod.fst (k, as.erase a) b
    else b

omit [DecidableEq α] in
theorem bucket_upsert (k k' : κ) (as : List α) (b : Buckets κ α) :
    bucket k' (upsert Prod.fst (k, as) b) = if k' = k then as else bucket k' b := by
  split_ifs with h
  · subst h
    have : lookup Prod.fst k' (upsert Prod.fst (k', as) b) = some (k', as) :=
      lookup_upsert_self (k', as) b
    rw [bucket, this]
    rfl
  · rw [bucket, lookup_upsert_ne _ _ (Ne.symm h), bucket]

omit [DecidableEq α] in
theorem bucket_insert (k k' : κ) (a : α) (b : Buckets κ α) :
    bucket k' (insert k a b) = if k' = k then bucket k b ++ [a] else bucket k' b :=
  bucket_upsert k k' _ b

theorem bucket_remove (k k' : κ) (a : α) (b : Buckets κ α) :
    bucket k' (remove k a b) = if k' = k then (bucket k b).erase a else bucket k' b := by
  rw [remove]
  split
  · rename_i hnone
    split_ifs with h
    · rw [h, bucket, hnone]
      rfl
    · rfl
  · rename_i k₀ as hsome
    have has : bucket k b = as := by
      rw [bucket, hsome]
      rfl
    split
    · split
      · rename_i hempty
        split_ifs with h
        · rw [h, bucket, lookup_erased, has, hempty]
          rfl
        · rw [bucket, lookup_erased_ne h, bucket]
      · rw [bucket_upsert, has]
    · rename_i hmem
      split_ifs with h
      · rw [h, has, List.erase_of_not_mem hmem]
      · rfl

/-- Each value is listed exactly once, under the key it belongs to. -/
structure Indexed (home : α → Option κ) (b : Buckets κ α) : Prop where
  nodup : ∀ k, (bucket k b).Nodup
  mem : ∀ k a, a ∈ bucket k b ↔ home a = some k

namespace Indexed

variable {home : α → Option κ} {b : Buckets κ α}

omit [DecidableEq α] in
theorem nil : Indexed (fun _ => none) ([] : Buckets κ α) :=
  ⟨fun _ => List.nodup_nil, fun _ _ => ⟨fun h => (List.not_mem_nil h).elim, fun h => nomatch h⟩⟩

omit [DecidableEq α] in
theorem congr {home' : α → Option κ} (h : Indexed home b) (heq : home' = home) : Indexed home' b :=
  heq ▸ h

theorem insert (h : Indexed home b) {a : α} (hnew : home a = none) (k : κ) :
    Indexed (Function.update home a (some k)) (insert k a b) := by
  have hout : ∀ k', a ∉ bucket k' b := by
    intro k' hmem
    have := (h.mem k' a).mp hmem
    rw [hnew] at this
    cases this
  refine ⟨fun k' => ?_, fun k' a' => ?_⟩
  · rw [bucket_insert]
    split_ifs
    · rw [List.nodup_append]
      refine ⟨h.nodup k, List.nodup_singleton a, fun x hx y hy hxy => ?_⟩
      rw [List.mem_singleton] at hy
      exact hout k (hy ▸ hxy ▸ hx)
    · exact h.nodup k'
  · rw [bucket_insert, Function.update_apply]
    by_cases ha : a' = a
    · subst ha
      by_cases hk : k' = k
      · simp [hk]
      · simp [hk, hout, Ne.symm hk]
    · by_cases hk : k' = k
      · simp [hk, ha, h.mem]
      · simp [hk, ha, h.mem]

theorem remove (h : Indexed home b) {a : α} {k : κ} (hat : home a = some k) :
    Indexed (Function.update home a none) (remove k a b) := by
  refine ⟨fun k' => ?_, fun k' a' => ?_⟩
  · rw [bucket_remove]
    split_ifs
    · exact (h.nodup k).erase a
    · exact h.nodup k'
  · rw [bucket_remove, Function.update_apply]
    by_cases ha : a' = a
    · subst ha
      by_cases hk : k' = k
      · simp [hk, (h.nodup k).mem_erase_iff]
      · have : k ≠ k' := Ne.symm hk
        simp [hk, h.mem, hat, this]
    · by_cases hk : k' = k
      · simp [hk, ha, h.mem, List.mem_erase_of_ne ha]
      · simp [hk, ha, h.mem]

omit [DecidableEq α] in
theorem mem_flatMap (h : Indexed home b) (p : α → Bool) (keys : List κ) (a : α) :
    a ∈ keys.flatMap (fun k => (bucket k b).filter p) ↔ (∃ k ∈ keys, home a = some k) ∧ p a = true := by
  simp only [List.mem_flatMap, List.mem_filter, h.mem]
  constructor
  · rintro ⟨k, hk, hhome, hp⟩
    exact ⟨⟨k, hk, hhome⟩, hp⟩
  · rintro ⟨⟨k, hk, hhome⟩, hp⟩
    exact ⟨k, hk, hhome, hp⟩

omit [DecidableEq α] in
theorem nodup_flatMap (h : Indexed home b) (p : α → Bool) {keys : List κ} (hkeys : keys.Nodup) :
    (keys.flatMap fun k => (bucket k b).filter p).Nodup := by
  rw [List.nodup_flatMap]
  refine ⟨fun k _ => (h.nodup k).filter p, hkeys.imp fun {k k'} hne => ?_⟩
  intro a ha ha'
  have hk := (h.mem k a).mp (List.mem_of_mem_filter ha)
  have hk' := (h.mem k' a).mp (List.mem_of_mem_filter ha')
  exact hne (Option.some.inj (hk.symm.trans hk'))

end Indexed

end Buckets

/-! ### Counting loops -/

/-- The integers from `lo` to `hi`, in order. -/
def between (lo hi : ℤ) : List ℤ := (List.range (hi + 1 - lo).toNat).map fun i : Nat => lo + i

theorem mem_between {lo hi i : ℤ} : i ∈ between lo hi ↔ lo ≤ i ∧ i ≤ hi := by
  simp only [between, List.mem_map, List.mem_range]
  constructor
  · rintro ⟨n, hn, rfl⟩
    omega
  · rintro ⟨hlo, hhi⟩
    exact ⟨(i - lo).toNat, by omega, by omega⟩

theorem nodup_between (lo hi : ℤ) : (between lo hi).Nodup := by
  refine List.nodup_range.map fun i j h => ?_
  have : lo + (i : ℤ) = lo + (j : ℤ) := h
  omega

end CampelloNet.Lib
