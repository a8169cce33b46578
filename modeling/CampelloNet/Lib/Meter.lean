import Mathlib.Algebra.BigOperators.Group.List.Basic
import Mathlib.Algebra.GroupWithZero.Nat
import Mathlib.Algebra.Order.Group.Nat

/-!
# Meters

A log of events with weights, in which some events reset the meter. What is charged for the events
since the last reset is on a counter; as long as no charge takes the counter above a limit, no stretch
of the log without a reset weighs more than the limit.
-/

namespace CampelloNet.Lib

variable {ε : Type*} (isReset : ε → Bool) (weight : ε → ℕ)

/-- The weight since the last reset. -/
def spent (log : List ε) : ℕ := log.foldl (fun n e => if isReset e then 0 else n + weight e) 0

theorem spent_snoc (log : List ε) (e : ε) :
    spent isReset weight (log ++ [e]) =
      if isReset e then 0 else spent isReset weight log + weight e := by
  rw [spent, List.foldl_append]
  rfl

/-- The counter covers what was spent since the last reset, and the limit what was spent at any time. -/
structure Charged (limit counter : ℕ) (log : List ε) : Prop where
  covered : spent isReset weight log ≤ counter
  within : ∀ front, front <+: log → spent isReset weight front ≤ limit

variable {isReset weight} {limit counter counter' : ℕ} {log : List ε} {e : ε}

namespace Charged

theorem nil : Charged isReset weight limit counter [] := by
  refine ⟨Nat.zero_le _, fun front hfront => ?_⟩
  rw [List.prefix_nil.mp hfront]
  exact Nat.zero_le _

theorem snoc (h : Charged isReset weight limit counter log)
    (hcovered : spent isReset weight (log ++ [e]) ≤ counter')
    (hlimit : spent isReset weight (log ++ [e]) ≤ limit) :
    Charged isReset weight limit counter' (log ++ [e]) := by
  refine ⟨hcovered, fun front hfront => ?_⟩
  rcases List.prefix_concat_iff.mp hfront with rfl | hbefore
  · exact hlimit
  · exact h.within front hbefore

theorem reset (h : Charged isReset weight limit counter log) (he : isReset e = true) :
    Charged isReset weight limit counter' (log ++ [e]) := by
  have hzero : spent isReset weight (log ++ [e]) = 0 := by rw [spent_snoc, if_pos he]
  exact h.snoc (hzero ▸ Nat.zero_le _) (hzero ▸ Nat.zero_le _)

/-- An event is charged. -/
theorem charge (h : Charged isReset weight limit counter log) {size : ℕ} (hweight : weight e ≤ size)
    (hroom : counter + size ≤ limit) : Charged isReset weight limit (counter + size) (log ++ [e]) := by
  have hle : spent isReset weight (log ++ [e]) ≤ counter + size := by
    rw [spent_snoc]
    have := h.covered
    split_ifs
    · exact Nat.zero_le _
    · omega
  exact h.snoc hle (hle.trans hroom)

/-- An event without weight. -/
theorem free (h : Charged isReset weight limit counter log) (hweight : weight e = 0) :
    Charged isReset weight limit counter (log ++ [e]) := by
  have hle : spent isReset weight (log ++ [e]) ≤ spent isReset weight log := by
    rw [spent_snoc, hweight]
    split_ifs
    · exact Nat.zero_le _
    · exact Nat.le_refl _
  exact h.snoc (hle.trans h.covered) (hle.trans (h.within log (List.prefix_refl log)))

/-- A stretch without a reset weighs no more than the limit. -/
theorem stretch (h : Charged isReset weight limit counter log) {front mid back : List ε}
    (hlog : log = front ++ mid ++ back) (hmid : ∀ e ∈ mid, isReset e = false) :
    (mid.map weight).sum ≤ limit := by
  have hspent : ∀ (mid : List ε) (n : ℕ), (∀ e ∈ mid, isReset e = false) →
      mid.foldl (fun n e => if isReset e then 0 else n + weight e) n = n + (mid.map weight).sum := by
    intro mid
    induction mid with
    | nil => intro n _; rfl
    | cons e mid ih =>
      intro n hmid
      rw [List.foldl_cons, if_neg (by simp [hmid e List.mem_cons_self]),
        ih _ fun e' he' => hmid e' (List.mem_cons_of_mem _ he'), List.map_cons, List.sum_cons,
        Nat.add_assoc]
  have hfront := h.within (front ++ mid) ⟨back, hlog.symm⟩
  rw [spent, List.foldl_append, hspent mid _ hmid] at hfront
  exact (Nat.le_add_left _ _).trans hfront

end Charged

end CampelloNet.Lib
