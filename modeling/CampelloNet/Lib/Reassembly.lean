import Mathlib.Algebra.Order.BigOperators.Group.List
import Mathlib.Algebra.Order.Group.Nat
import Mathlib.Algebra.Ring.Nat
import Mathlib.Data.List.Perm.Basic
import Mathlib.Data.List.Nodup

/-!
# Reassembling a value from its parts

A value is cut into `n` parts that arrive in some order. A receiver keeps those it has got and asks
after each whether they are `complete`; when they are it puts out what it has got, with nothing in
the place of a part that it lacks, and starts again. It puts out the value, once, exactly if what it
takes for complete is all of the parts and nothing less (`pushes_eq_iff`).
-/

namespace CampelloNet.Lib.Reassembly

variable {α : Type*} (part : ℕ → List α) (n : ℕ)

/-- The places of the parts, those filled of which the numbers are given. -/
def slots (got : List ℕ) : List (List α) := (List.range n).map fun i => if i ∈ got then part i else []

def assembled (got : List ℕ) : List α := (slots part n got).flatten

/-- What the receiver puts out, by the parts it then has: those that it `got` before, and the order
in which the others arrive. -/
def pushes (complete : List ℕ → Prop) [DecidablePred complete] : List ℕ → List ℕ → List (List ℕ)
  | _, [] => []
  | got, i :: is =>
    if complete (got ++ [i]) then (got ++ [i]) :: pushes complete [] is
    else pushes complete (got ++ [i]) is

/-- The parts are complete when the last of them has arrived, and not before. -/
def CompleteLast (complete : List ℕ → Prop) (got order : List ℕ) : Prop :=
  complete (got ++ order) ∧ ∀ p, p <+: order → p ≠ [] → p ≠ order → ¬complete (got ++ p)

@[simp] theorem length_slots (got : List ℕ) : (slots part n got).length = n := by simp [slots]

theorem getElem?_slots {i : ℕ} (got : List ℕ) (hi : i < n) :
    (slots part n got)[i]? = some (if i ∈ got then part i else []) := by
  simp [slots, hi]

theorem slots_nil : slots part n [] = List.replicate n [] := by
  simp [slots, List.map_const']

/-- A part is put in its place. -/
theorem set_slots {i : ℕ} (got : List ℕ) (hi : i < n) :
    (slots part n got).set i (part i) = slots part n (got ++ [i]) := by
  apply List.ext_getElem?
  intro j
  by_cases hj : j < n
  · rw [List.getElem?_set, getElem?_slots part n _ hj, getElem?_slots part n _ hj]
    by_cases hij : i = j
    · subst hij
      simp [hi]
    · rw [if_neg hij]
      simp [Ne.symm hij]
  · rw [List.getElem?_eq_none (by simpa using hj), List.getElem?_eq_none (by simpa using hj)]

theorem slots_congr {got got' : List ℕ} (h : ∀ i < n, i ∈ got ↔ i ∈ got') :
    slots part n got = slots part n got' := by
  unfold slots
  apply List.map_congr_left
  intro i hi
  simp only [h i (List.mem_range.mp hi)]

theorem length_assembled (got : List ℕ) : (assembled part n got).length =
    ((List.range n).map fun i => if i ∈ got then (part i).length else 0).sum := by
  unfold assembled slots
  rw [List.length_flatten, List.map_map]
  congr 1
  apply List.map_congr_left
  intro i _
  show (if i ∈ got then part i else []).length = _
  split_ifs <;> rfl

variable {part n}

/-- Without one of the parts it is not the value. -/
theorem assembled_ne {got : List ℕ} {j : ℕ} (hj : j < n) (hpart : part j ≠ []) (hgot : j ∉ got) :
    assembled part n got ≠ assembled part n (List.range n) := by
  intro h
  have hlen := congrArg List.length h
  rw [length_assembled, length_assembled] at hlen
  refine absurd hlen (ne_of_lt (List.sum_lt_sum _ _ (fun i hi => ?_) ⟨j, List.mem_range.mpr hj, ?_⟩))
  · rw [if_pos hi]
    split_ifs
    · exact le_refl _
    · exact Nat.zero_le _
  · rw [if_pos (List.mem_range.mpr hj), if_neg hgot]
    exact List.length_pos_of_ne_nil hpart

theorem completeLast_cons {complete : List ℕ → Prop} {got is : List ℕ} {i : ℕ} (his : is ≠ []) :
    CompleteLast complete got (i :: is) ↔
      ¬complete (got ++ [i]) ∧ CompleteLast complete (got ++ [i]) is := by
  unfold CompleteLast
  simp only [List.append_assoc, List.singleton_append]
  constructor
  · rintro ⟨hlast, hbefore⟩
    refine ⟨hbefore [i] ⟨is, rfl⟩ (List.cons_ne_nil _ _) (by simpa using his.symm), hlast, ?_⟩
    intro p hp hne hnot
    exact hbefore (i :: p) ((List.prefix_cons_inj i).mpr hp) (List.cons_ne_nil _ _)
      (by simpa using hnot)
  · rintro ⟨hfirst, hlast, hbefore⟩
    refine ⟨hlast, fun p hp hne hnot => ?_⟩
    obtain ⟨rest, hrest⟩ := hp
    rcases p with _ | ⟨j, p⟩
    · exact absurd rfl hne
    · obtain ⟨rfl, htail⟩ := List.cons.inj hrest
      rcases p with _ | ⟨k, p⟩
      · exact hfirst
      · exact hbefore (k :: p) ⟨rest, htail⟩ (List.cons_ne_nil _ _) (by simpa using hnot)

/-- A part that makes no difference to completeness cannot be the last. -/
theorem not_completeLast_of_blind {complete : List ℕ → Prop} {order : List ℕ} {i : ℕ}
    (hblind : ∀ got, complete (got ++ [i]) ↔ complete got) (hne : order ≠ []) :
    ¬CompleteLast complete [] (order ++ [i]) := by
  rintro ⟨hlast, hbefore⟩
  refine hbefore order ⟨[i], rfl⟩ hne (by simp) ?_
  exact (hblind order).mp hlast

/-- The receiver puts out the value, once, exactly if it waits for all of the parts. -/
theorem pushes_eq_iff (complete : List ℕ → Prop) [DecidablePred complete] {got order : List ℕ}
    (hparts : ∀ i < n, part i ≠ [])
    (hperm : (got ++ order).Perm (List.range n)) :
    (pushes complete got order).map (assembled part n) = [assembled part n (List.range n)] ↔
      order ≠ [] ∧ CompleteLast complete got order := by
  induction order generalizing got with
  | nil => exact iff_of_false (List.cons_ne_nil _ _ ∘ Eq.symm) fun h => h.1 rfl
  | cons i is ih =>
    have hperm' : ((got ++ [i]) ++ is).Perm (List.range n) := by
      rwa [List.append_assoc, List.singleton_append]
    rw [pushes]
    by_cases his : is = []
    · -- the last part
      subst his
      have hall : assembled part n (got ++ [i]) = assembled part n (List.range n) := by
        unfold assembled
        rw [slots_congr part n fun j _ => (hperm.mem_iff (a := j))]
      have hlast : CompleteLast complete got [i] ↔ complete (got ++ [i]) := by
        refine ⟨fun h => h.1, fun h => ⟨h, fun p hp hne hnot => ?_⟩⟩
        rcases p with _ | ⟨j, p⟩
        · exact absurd rfl hne
        · obtain ⟨rest, hrest⟩ := hp
          obtain ⟨rfl, htail⟩ := List.cons.inj hrest
          obtain ⟨rfl, -⟩ := List.append_eq_nil_iff.mp htail
          exact absurd rfl hnot
      rw [hlast]
      split_ifs with hcomplete
      · simp [pushes, hall, hcomplete]
      · simp [pushes, hcomplete]
    · rw [completeLast_cons his]
      split_ifs with hcomplete
      · -- a part is missing from what is put out first
        obtain ⟨j, hj⟩ := List.exists_mem_of_ne_nil is his
        have hjn : j < n := List.mem_range.mp (hperm'.subset (List.mem_append_right _ hj))
        have hnodup := (hperm'.nodup_iff).mpr List.nodup_range
        have hgot : j ∉ got ++ [i] := fun h => List.disjoint_of_nodup_append hnodup h hj
        refine iff_of_false (fun h => ?_) fun h => h.2.1 hcomplete
        exact assembled_ne hjn (hparts j hjn) hgot (List.cons.inj h).1
      · rw [ih hperm']
        simp [his, hcomplete]

end CampelloNet.Lib.Reassembly
