import CampelloNet.Lib.Run
import Mathlib.Data.List.Basic

/-!
# Who is there

Keys enter and leave. A log of visits is in order when nobody enters who is there and nobody leaves
who is not: then the visits of each key alternate, and the last one tells whether the key is still
there. Of events that let somebody in and put them out, somebody remains who was in before and was put
out by none of them, or whom one of them let in and no later one put out.
-/

namespace CampelloNet.Lib

inductive Visit (κ : Type*)
  | enter (key : κ)
  | leave (key : κ)
  deriving DecidableEq

variable {κ : Type*} [DecidableEq κ]

namespace Visit

/-- The keys that are there after the visit. -/
def attend (present : List κ) : Visit κ → Option (List κ)
  | enter k => if k ∈ present then none else some (present ++ [k])
  | leave k => if k ∈ present then some (present.filter fun k' => k' ≠ k) else none

/-- Whether a visit of the key enters. -/
def enters (k : κ) : Visit κ → Option Bool
  | enter k' => if k' = k then some true else none
  | leave k' => if k' = k then some false else none

end Visit

/-- The values alternate, and `b` comes first. -/
def Alternating : Bool → List Bool → Prop
  | _, [] => True
  | b, x :: l => x = b ∧ Alternating (!b) l

instance decidableAlternating : ∀ b l, Decidable (Alternating b l)
  | _, [] => isTrue trivial
  | b, x :: l =>
    have := decidableAlternating (!b) l
    inferInstanceAs (Decidable (x = b ∧ Alternating (!b) l))

/-- The visits of a key in a log. -/
def visitsOf (k : κ) (log : List (Visit κ)) : List Bool := log.filterMap (Visit.enters k)

theorem visitsOf_cons_of_ne {k k' : κ} (h : k' ≠ k) (log : List (Visit κ)) :
    visitsOf k (.enter k' :: log) = visitsOf k log ∧
      visitsOf k (.leave k' :: log) = visitsOf k log :=
  ⟨List.filterMap_cons_none (if_neg h), List.filterMap_cons_none (if_neg h)⟩

theorem visitsOf_cons_self (k : κ) (log : List (Visit κ)) :
    visitsOf k (.enter k :: log) = true :: visitsOf k log ∧
      visitsOf k (.leave k :: log) = false :: visitsOf k log :=
  ⟨List.filterMap_cons_some (if_pos rfl), List.filterMap_cons_some (if_pos rfl)⟩

/-- In a log that is in order the visits of a key alternate. -/
theorem alternating_of_attend {log : List (Visit κ)} {present present' : List κ}
    (h : Run.exec Visit.attend present log = some present') (k : κ) :
    Alternating (decide (k ∉ present)) (visitsOf k log) ∧
      (k ∈ present' ↔ (visitsOf k log).getLast?.getD (decide (k ∈ present)) = true) := by
  induction log generalizing present with
  | nil =>
    cases h
    exact ⟨trivial, by simp [visitsOf]⟩
  | cons v log ih =>
    obtain ⟨mid, hmid, h⟩ := Option.bind_eq_some_iff.mp h
    obtain ⟨halt, hlast⟩ := ih h
    cases v with
    | enter k' =>
      have hmid' : (if k' ∈ present then none else some (present ++ [k'])) = some mid := hmid
      split_ifs at hmid' with hin
      cases hmid'
      by_cases hk : k' = k
      · subst hk
        rw [(visitsOf_cons_self k' log).1, List.getLast?_cons, Option.getD_some]
        simp only [List.mem_append, List.mem_singleton, or_true, not_true_eq_false, decide_true,
          decide_false] at halt hlast
        exact ⟨⟨by simp [hin], by simpa [hin] using halt⟩, hlast⟩
      · rw [(visitsOf_cons_of_ne hk log).1]
        have hsame : k ∈ present ++ [k'] ↔ k ∈ present := by simp [Ne.symm hk]
        simp only [hsame] at halt hlast
        exact ⟨halt, hlast⟩
    | leave k' =>
      have hmid' : (if k' ∈ present then some (present.filter fun i => i ≠ k') else none) =
        some mid := hmid
      split_ifs at hmid' with hin
      cases hmid'
      by_cases hk : k' = k
      · subst hk
        have hout : k' ∉ present.filter fun i => i ≠ k' := by simp
        rw [(visitsOf_cons_self k' log).2, List.getLast?_cons, Option.getD_some]
        simp only [hout, not_false_eq_true, decide_true, decide_false] at halt hlast
        exact ⟨⟨by simp [hin], by simpa [hin] using halt⟩, hlast⟩
      · rw [(visitsOf_cons_of_ne hk log).2]
        have hsame : k ∈ (present.filter fun i => i ≠ k') ↔ k ∈ present := by
          simp [Ne.symm hk]
        simp only [hsame] at halt hlast
        exact ⟨halt, hlast⟩

theorem exec_attend_enter {log : List (Visit κ)} {present present' : List κ} {k : κ}
    (h : Run.exec Visit.attend present log = some present') (hk : k ∉ present') :
    Run.exec Visit.attend present (log ++ [.enter k]) = some (present' ++ [k]) := by
  rw [Run.exec_append, h]
  exact congrArg (Option.bind · _) (if_neg hk)

theorem exec_attend_leave {log : List (Visit κ)} {present present' : List κ} {k : κ}
    (h : Run.exec Visit.attend present log = some present') (hk : k ∈ present') :
    Run.exec Visit.attend present (log ++ [.leave k]) =
      some (present'.filter fun i => i ≠ k) := by
  rw [Run.exec_append, h]
  exact congrArg (Option.bind · _) (if_pos hk)

/-! ### Who remains -/

section
variable {α : Type*} {here : Prop} {enters leaves : α → Prop}

/-- Somebody is in after the events; `here` says whether they were in before. -/
def Remains (here : Prop) (enters leaves : α → Prop) (events : List α) : Prop :=
  (here ∧ ∀ x ∈ events, ¬leaves x) ∨
    ∃ before x after, events = before ++ x :: after ∧ enters x ∧ ∀ y ∈ after, ¬leaves y

theorem remains_nil : Remains here enters leaves [] ↔ here := by
  unfold Remains
  simp

/-- One more event: it lets them in, or they were in and it does not put them out. -/
theorem remains_concat {events : List α} {x : α} :
    Remains here enters leaves (events ++ [x]) ↔
      enters x ∨ Remains here enters leaves events ∧ ¬leaves x := by
  constructor
  · rintro (⟨hhere, hstays⟩ | ⟨before, y, after, heq, hy, hstays⟩)
    · obtain ⟨hevents, hx⟩ := List.forall_mem_append.mp hstays
      exact Or.inr ⟨Or.inl ⟨hhere, hevents⟩, hx x (List.mem_singleton_self x)⟩
    · rcases List.eq_nil_or_concat after with rfl | ⟨after, z, rfl⟩
      · obtain ⟨-, hlast⟩ := List.append_inj' heq rfl
        cases hlast
        exact Or.inl hy
      · rw [List.concat_eq_append] at heq hstays
        rw [← List.cons_append, ← List.append_assoc] at heq
        obtain ⟨rfl, hlast⟩ := List.append_inj' heq rfl
        cases hlast
        obtain ⟨hafter, hx⟩ := List.forall_mem_append.mp hstays
        exact Or.inr ⟨Or.inr ⟨before, y, after, rfl, hy, hafter⟩, hx x (List.mem_singleton_self x)⟩
  · rintro (hx | ⟨⟨hhere, hstays⟩ | ⟨before, y, after, rfl, hy, hstays⟩, hx⟩)
    · exact Or.inr ⟨events, x, [], rfl, hx, by simp⟩
    · refine Or.inl ⟨hhere, List.forall_mem_append.mpr ⟨hstays, ?_⟩⟩
      simpa using hx
    · refine Or.inr ⟨before, y, after ++ [x], by simp, hy, List.forall_mem_append.mpr ⟨hstays, ?_⟩⟩
      simpa using hx

end

end CampelloNet.Lib
