import Mathlib.Data.List.Infix
import Mathlib.Algebra.Order.Group.Nat

/-!
# Numbers that arrive out of order

The numbers from 0 on arrive in some order, any of them more than once. The first that is missing
says how far a stream without gaps reaches. A receiver that takes a number only while it waits for it
(`waitingFor`) has reached the first missing one after every arrival exactly if no number arrives
ahead of a gap (`firstMissing_always_iff`).
-/

namespace CampelloNet.Lib

/-- The number that a receiver waits for after more arrivals, if it takes only that one. -/
def waitingFor : ℕ → List ℕ → ℕ
  | k, [] => k
  | k, i :: is => waitingFor (if i = k then k + 1 else k) is

/-- The first number that is not in the list. -/
structure FirstMissing (l : List ℕ) (k : ℕ) : Prop where
  below : ∀ i < k, i ∈ l
  missing : k ∉ l

/-- Whenever a number arrives, all lower ones have arrived before it. -/
def GapFree (order : List ℕ) : Prop :=
  ∀ before i after, order = before ++ i :: after → ∀ j < i, j ∈ before

variable {l before order : List ℕ} {i k m : ℕ}

theorem waitingFor_append (k : ℕ) (l : List ℕ) (i : ℕ) :
    waitingFor k (l ++ [i]) = if i = waitingFor k l then waitingFor k l + 1 else waitingFor k l := by
  induction l generalizing k with
  | nil => rfl
  | cons j l ih => exact ih _

theorem waitingFor_le_append (k : ℕ) (l : List ℕ) (i : ℕ) :
    waitingFor k (l ++ [i]) ≤ waitingFor k l + 1 := by
  rw [waitingFor_append]
  split_ifs <;> omega

/-- What it has taken has arrived. -/
theorem mem_of_lt_waitingFor (h : i < waitingFor 0 l) : i ∈ l := by
  induction l using List.reverseRecOn with
  | nil => exact absurd h (Nat.not_lt_zero i)
  | append_singleton l j ih =>
    rw [waitingFor_append] at h
    rw [List.mem_append, List.mem_singleton]
    split_ifs at h with hj
    · rcases Nat.lt_succ_iff_lt_or_eq.mp h with hlt | heq
      · exact .inl (ih hlt)
      · exact .inr (heq.trans hj.symm)
    · exact .inl (ih h)

namespace FirstMissing

theorem le (h : FirstMissing l k) (hlow : ∀ j < i, j ∈ l) : i ≤ k := by
  by_contra hlt
  exact h.missing (hlow k (not_le.mp hlt))

end FirstMissing

theorem GapFree.of_append (h : GapFree (before ++ l)) : GapFree before := by
  intro first i after hsplit
  exact h first i (after ++ l) (by rw [hsplit, List.append_assoc, List.cons_append])

theorem GapFree.mem (h : GapFree l) (hk : k ∈ l) : ∀ j < k, j ∈ l := by
  intro j hj
  obtain ⟨first, after, rfl⟩ := List.append_of_mem hk
  exact List.mem_append_left _ (h first k after rfl j hj)

/-- Without gaps the receiver takes all that arrives. -/
theorem GapFree.firstMissing (h : GapFree l) : FirstMissing l (waitingFor 0 l) := by
  refine ⟨fun i => mem_of_lt_waitingFor, ?_⟩
  induction l using List.reverseRecOn with
  | nil => exact List.not_mem_nil
  | append_singleton l i ih =>
    have hmissing := ih h.of_append
    intro hmem
    rw [waitingFor_append, List.mem_append, List.mem_singleton] at hmem
    split_ifs at hmem with hi
    · rcases hmem with hmem | heq
      · exact hmissing (h.of_append.mem hmem _ (Nat.lt_succ_self _))
      · omega
    · rcases hmem with hmem | heq
      · exact hmissing hmem
      · exact hi heq.symm

/-- If the receiver is at the first missing number throughout, then it never reaches a number that
arrived too early. -/
theorem waitingFor_lt_of_early (hi : i ∈ before) (hlt : waitingFor 0 before < i)
    (h : ∀ more, more <+: l → FirstMissing (before ++ more) (waitingFor 0 (before ++ more))) :
    waitingFor 0 (before ++ l) < i := by
  induction l using List.reverseRecOn with
  | nil => rwa [List.append_nil]
  | append_singleton l j ih =>
    have hprev := ih fun more hmore => h more (hmore.trans (List.prefix_append l [j]))
    have hle := waitingFor_le_append 0 (before ++ l) j
    have hmissing := (h _ (List.prefix_refl _)).missing
    rw [← List.append_assoc] at hmissing ⊢
    have hne : waitingFor 0 (before ++ l ++ [j]) ≠ i := by
      intro heq
      rw [heq] at hmissing
      simp [hi] at hmissing
    omega

/-- The receiver has taken all that can be taken, after every arrival, exactly if no number arrives
ahead of a gap. Every gap closes in the end. -/
theorem firstMissing_always_iff (hclosed : ∀ i ∈ order, ∀ j < i, j ∈ order) :
    (∀ before, before <+: order → FirstMissing before (waitingFor 0 before)) ↔ GapFree order := by
  constructor
  · intro h first i after hsplit j hj
    by_contra hnot
    -- `i` arrives when the receiver waits for a lower number
    have hlt : waitingFor 0 first < i := by
      have hfirst := h first (by rw [hsplit]; exact List.prefix_append _ _)
      by_contra hge
      exact hnot (hfirst.below j (by omega))
    have hsplit' : order = (first ++ [i]) ++ after := by
      rw [hsplit, List.append_assoc, List.singleton_append]
    have hstay : waitingFor 0 (first ++ [i]) < i := by
      rw [waitingFor_append, if_neg (by omega)]
      exact hlt
    have hend := waitingFor_lt_of_early (l := after) (by simp) hstay fun more hmore => by
      apply h
      rw [hsplit']
      exact (List.prefix_append_right_inj _).mpr hmore
    rw [← hsplit'] at hend
    have hmem : i ∈ order := by
      rw [hsplit]
      simp
    exact (h order (List.prefix_refl _)).missing (hclosed i hmem _ hend)
  · rintro h before ⟨after, rfl⟩
    exact h.of_append.firstMissing

end CampelloNet.Lib
