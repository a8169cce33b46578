import Mathlib.Order.Basic
import Mathlib.Algebra.Order.Group.Nat

/-!
# How recent a value is

A value `v n` changes with the time `n`. The value of the time `m` is at least as recent as that of the
time `n` if `m` is not before `n`, or if nothing has changed from `m` to `n`. If every change is
announced, then for each time there has been an announcement that is recent enough (`exists_recent`).
-/

namespace CampelloNet.Lib

variable {β : Type*} {v v' : ℕ → β} {l m n : ℕ}

def Recent (v : ℕ → β) (m n : ℕ) : Prop := n ≤ m ∨ ∀ k, m ≤ k → k ≤ n → v k = v m

instance [DecidableEq β] : Decidable (Recent v m n) :=
  decidable_of_iff (n ≤ m ∨ ∀ k ≤ n, m ≤ k → v k = v m)
    (or_congr_right ⟨fun h k hm hn => h k hn hm, fun h k hn hm => h k hm hn⟩)

theorem Recent.refl (v : ℕ → β) (n : ℕ) : Recent v n n := .inl (Nat.le_refl n)

theorem Recent.trans (hlm : Recent v l m) (hmn : Recent v m n) : Recent v l n := by
  rcases hlm with hml | hlm
  · rcases hmn with hnm | hmn
    · exact .inl (Nat.le_trans hnm hml)
    · by_cases hnl : n ≤ l
      · exact .inl hnl
      · right
        intro k hlk hkn
        rw [hmn k (Nat.le_trans hml hlk) hkn, hmn l hml (Nat.le_of_not_le hnl)]
  · rcases hmn with hnm | hmn
    · exact .inr fun k hlk hkn => hlm k hlk (Nat.le_trans hkn hnm)
    · by_cases hm : m ≤ l
      · by_cases hnl : n ≤ l
        · exact .inl hnl
        · right
          intro k hlk hkn
          rw [hmn k (Nat.le_trans hm hlk) hkn, hmn l hm (Nat.le_of_not_le hnl)]
      · right
        intro k hlk hkn
        by_cases hkm : k ≤ m
        · exact hlm k hlk hkm
        · rw [hmn k (Nat.le_of_not_le hkm) hkn, hlm m (Nat.le_of_not_le hm) (Nat.le_refl m)]

/-- Only the values up to the later of the two times matter. -/
theorem Recent.congr (h : Recent v m n) (hv : ∀ k ≤ n, v k = v' k) : Recent v' m n := by
  rcases h with hle | hconst
  · exact .inl hle
  · by_cases hmn : m ≤ n
    · right
      intro k hmk hkn
      rw [← hv k hkn, ← hv m hmn, hconst k hmk hkn]
    · exact .inl (Nat.le_of_not_le hmn)

/-- If a value is announced whenever it comes up, it has been announced since. -/
theorem exists_recent (v : ℕ → β) (said : ℕ → Prop) (n : ℕ)
    (h : ∀ k ≤ n, v k = v n → (k = 0 ∨ v (k - 1) ≠ v k) → said k) :
    ∃ m ≤ n, said m ∧ Recent v m n := by
  induction n with
  | zero => exact ⟨0, Nat.le_refl 0, h 0 (Nat.le_refl 0) rfl (.inl rfl), .refl v 0⟩
  | succ n ih =>
    by_cases hsame : v n = v (n + 1)
    · obtain ⟨m, hmn, hsaid, hrecent⟩ := ih fun k hk hv hnew =>
        h k (Nat.le_succ_of_le hk) (hv.trans hsame) hnew
      refine ⟨m, Nat.le_succ_of_le hmn, hsaid, hrecent.trans (.inr fun k hnk hk => ?_)⟩
      rcases Nat.le_succ_iff.mp hk with hk | rfl
      · rw [Nat.le_antisymm hk hnk]
      · exact hsame.symm
    · exact ⟨n + 1, Nat.le_refl _, h _ (Nat.le_refl _) rfl (.inr hsame), .refl v _⟩

end CampelloNet.Lib
