import Mathlib.Data.List.Basic
import Mathlib.Algebra.Order.Group.Nat

/-!
# The latest of what has come

A variable that is overwritten by whatever is newer. Where "newer" is the order of a key, as a
comparison of numbers on a circle is within half of it, the variable ends with the greatest key,
whatever the order in which the values come.
-/

namespace CampelloNet.Lib

variable {α : Type*} (newer : α → α → Bool)

/-- The value held after others have come. -/
def latest (t : α) (xs : List α) : α := xs.foldl (fun t x => if newer x t then x else t) t

/-- On the given values, to be newer is to have the greater key. -/
structure ByKey (newer : α → α → Bool) (key : α → ℕ) (W : α → Prop) : Prop where
  newer_iff : ∀ a b, W a → W b → (newer a b = true ↔ key b < key a)
  injective : ∀ a b, W a → W b → key a = key b → a = b

variable {newer} {key : α → ℕ} {W : α → Prop} {t : α} {xs : List α}

/-- What is not newer leaves the variable as it is. -/
theorem latest_of_forall (h : ∀ x ∈ xs, newer x t = false) : latest newer t xs = t := by
  induction xs with
  | nil => rfl
  | cons x xs ih =>
    rw [latest, List.foldl_cons, h x List.mem_cons_self]
    exact ih fun y hy => h y (List.mem_cons_of_mem _ hy)

theorem latest_mem (t : α) (xs : List α) : latest newer t xs ∈ t :: xs := by
  induction xs generalizing t with
  | nil => exact List.mem_cons_self
  | cons x xs ih =>
    rw [latest, List.foldl_cons]
    split_ifs
    · exact List.mem_cons_of_mem _ (ih x)
    · rcases List.mem_cons.mp (ih t) with heq | hmem
      · exact List.mem_cons.mpr (.inl heq)
      · exact List.mem_cons_of_mem _ (List.mem_cons_of_mem _ hmem)

namespace ByKey

theorem le_latest (h : ByKey newer key W) (ht : W t) (hxs : ∀ x ∈ xs, W x) :
    ∀ x ∈ t :: xs, key x ≤ key (latest newer t xs) := by
  induction xs generalizing t with
  | nil =>
    intro x hx
    rw [List.mem_singleton.mp hx]
    exact Nat.le_refl _
  | cons y xs ih =>
    have hy := hxs y List.mem_cons_self
    have hrest := fun x hx => hxs x (List.mem_cons_of_mem _ hx)
    have hiff := h.newer_iff y t hy ht
    intro x hx
    rw [latest, List.foldl_cons]
    split_ifs with hnewer
    · have hle := ih hy hrest
      rcases List.mem_cons.mp hx with rfl | hx
      · exact (hiff.mp hnewer).le.trans (hle y List.mem_cons_self)
      · exact hle x hx
    · have hle := ih ht hrest
      rcases List.mem_cons.mp hx with rfl | hx
      · exact hle x List.mem_cons_self
      · rcases List.mem_cons.mp hx with rfl | hx
        · exact (not_lt.mp fun hlt => hnewer (hiff.mpr hlt)).trans (hle t List.mem_cons_self)
        · exact hle x (List.mem_cons_of_mem _ hx)

/-- The variable ends with the value that has the greatest key. -/
theorem latest_eq_iff (h : ByKey newer key W) (ht : W t) (hxs : ∀ x ∈ xs, W x) {m : α} (hm : W m)
    (hmax : ∀ x ∈ t :: xs, key x ≤ key m) : latest newer t xs = m ↔ m ∈ t :: xs := by
  have hmem : latest newer t xs ∈ t :: xs := latest_mem t xs
  constructor
  · rintro rfl
    exact hmem
  · intro hin
    have hW : W (latest newer t xs) := by
      rcases List.mem_cons.mp hmem with heq | hmem
      · rw [heq]
        exact ht
      · exact hxs _ hmem
    exact h.injective _ _ hW hm (Nat.le_antisymm (hmax _ hmem) (h.le_latest ht hxs m hin))

end ByKey

end CampelloNet.Lib
