import Mathlib.Data.List.Basic
import Mathlib.Logic.Function.Basic

/-!
# Rings

A ring of `N` slots is written at the slot after its head, which becomes the head. `back` counts the
slots from the head backwards; `Records` says that they are the elements that were written last.
-/

namespace CampelloNet.Lib.Ring

variable {α : Type*} {N head count k : ℕ} {slots : ℕ → α} {log : List α}

/-- The slot that was written `k` writes before the last. -/
def back (N : ℕ) (slots : ℕ → α) (head k : ℕ) : α := slots ((head + N - k) % N)

theorem back_index (hhead : head < N) (hk : k ≤ N) :
    (head + N - k) % N = if k ≤ head then head - k else head + N - k := by
  split_ifs with h
  · rw [show head + N - k = head - k + N by omega, Nat.add_mod_right]
    exact Nat.mod_eq_of_lt (by omega)
  · exact Nat.mod_eq_of_lt (by omega)

theorem next_index (hhead : head < N) : (head + 1) % N = if head + 1 = N then 0 else head + 1 := by
  split_ifs with h
  · rw [h, Nat.mod_self]
  · exact Nat.mod_eq_of_lt (by omega)

theorem back_zero (hhead : head < N) : back N slots head 0 = slots head := by
  unfold back
  rw [back_index hhead (Nat.zero_le N), if_pos (Nat.zero_le head)]
  rfl

theorem back_push_zero (hhead : head < N) (a : α) :
    back N (Function.update slots ((head + 1) % N) a) ((head + 1) % N) 0 = a := by
  rw [back_zero (Nat.mod_lt _ (by omega)), Function.update_self]

theorem back_push_succ (hhead : head < N) (hk : k + 1 < N) (a : α) :
    back N (Function.update slots ((head + 1) % N) a) ((head + 1) % N) (k + 1) =
      back N slots head k := by
  have hnext : (head + 1) % N < N := Nat.mod_lt _ (by omega)
  have hindex : ((head + 1) % N + N - (k + 1)) % N = (head + N - k) % N := by
    rw [back_index hnext (Nat.le_of_lt hk), back_index hhead (by omega), next_index hhead]
    split_ifs <;> omega
  have hne : (head + N - k) % N ≠ (head + 1) % N := by
    rw [back_index hhead (by omega), next_index hhead]
    split_ifs <;> omega
  unfold back
  rw [hindex, Function.update_of_ne hne]

/-- The slots behind the head are the newest elements of the log. -/
structure Records (N : ℕ) (slots : ℕ → α) (head count : ℕ) (log : List α) : Prop where
  head_lt : head < N
  count_le : count ≤ N
  slot : ∀ k < count, log[k]? = some (back N slots head k)

theorem Records.push (h : Records N slots head count log) (a : α) :
    Records N (Function.update slots ((head + 1) % N) a) ((head + 1) % N)
      (if count < N then count + 1 else count) (a :: log) := by
  have hcount := h.count_le
  have hhead := h.head_lt
  refine ⟨Nat.mod_lt _ (by omega), by split_ifs <;> omega, fun k hk => ?_⟩
  rcases k with _ | k
  · rw [back_push_zero hhead]
    rfl
  · have hkN : k + 1 < N := by split_ifs at hk <;> omega
    rw [back_push_succ hhead hkN, List.getElem?_cons_succ]
    exact h.slot k (by split_ifs at hk <;> omega)

end CampelloNet.Lib.Ring
