import Mathlib.Logic.Function.Basic
import Mathlib.Data.List.Basic

/-!
# A table that follows another

A leader changes its table and tells a follower of each change over a channel that keeps the order.
`Trails R` compares the leader with what the follower will be once it has taken everything that is
on the way. Tables map keys to values; a follower leaves a key that it knows as it is, so a list of
the leader's entries can be sent at any time to bring a follower up to date.
-/

namespace CampelloNet.Lib

/-! ### What is on the way -/

section
variable {α β μ : Type*} {apply : β → μ → β} {R R' : α → β → Prop} {a a' : α} {b : β}
  {queue ms : List μ} {m : μ}

/-- The leader stands in `R` to what the follower is after all that is on the way to it. -/
def Trails (apply : β → μ → β) (R : α → β → Prop) (a : α) (b : β) (queue : List μ) : Prop :=
  R a (queue.foldl apply b)

theorem Trails.send (h : Trails apply R a b queue)
    (hstep : ∀ b, R a b → R' a' (ms.foldl apply b)) : Trails apply R' a' b (queue ++ ms) := by
  unfold Trails
  rw [List.foldl_append]
  exact hstep _ h

theorem Trails.take (h : Trails apply R a b (m :: queue)) : Trails apply R a (apply b m) queue := h

theorem trails_nil : Trails apply R a b [] ↔ R a b := Iff.rfl

end

/-! ### Tables -/

def Table (κ α : Type*) := κ → Option α

inductive Edit (κ α : Type*)
  | enter (key : κ) (value : α)
  | leave (key : κ)

variable {κ α β : Type*}

def Edit.map (f : α → β) : Edit κ α → Edit κ β
  | .enter k a => .enter k (f a)
  | .leave k => .leave k

variable [DecidableEq κ]

namespace Table

def empty : Table κ α := fun _ => none

/-- A key that is there keeps its value. -/
def enter (k : κ) (a : α) (t : Table κ α) : Table κ α :=
  fun k' => if k' = k then some ((t k).getD a) else t k'

def leave (k : κ) (t : Table κ α) : Table κ α := fun k' => if k' = k then none else t k'

def edit (t : Table κ α) : Edit κ α → Table κ α
  | .enter k a => t.enter k a
  | .leave k => t.leave k

def map (f : α → β) (t : Table κ α) : Table κ β := fun k => (t k).map f

/-- Each entry of the follower is one of the leader's. -/
def Within (t follower : Table κ α) : Prop := ∀ k, ∀ a ∈ follower k, t k = some a

variable {t follower : Table κ α} {k k' : κ} {a : α}

theorem enter_of_none (h : t k = none) (k' : κ) :
    t.enter k a k' = if k' = k then some a else t k' := by
  simp [enter, h]

theorem enter_of_some {b : α} (h : t k = some b) : t.enter k a = t := by
  funext k'
  by_cases hk : k' = k
  · simp [enter, hk, h]
  · simp [enter, hk]

omit [DecidableEq κ] in
theorem map_empty (f : α → β) : (empty : Table κ α).map f = empty := rfl

theorem map_edit (f : α → β) (t : Table κ α) (e : Edit κ α) :
    (t.edit e).map f = (t.map f).edit (e.map f) := by
  funext k'
  cases e with
  | enter k a =>
    show ((t.enter k a) k').map f = (t.map f).enter k (f a) k'
    unfold enter map
    split_ifs
    · rcases t k <;> rfl
    · rfl
  | leave k =>
    show ((t.leave k) k').map f = (t.map f).leave k k'
    unfold leave map
    split_ifs <;> rfl

theorem map_foldl_edit (f : α → β) (t : Table κ α) (l : List (Edit κ α)) :
    (l.foldl edit t).map f = l.foldl (fun t e => t.edit (e.map f)) (t.map f) := by
  induction l generalizing t with
  | nil => rfl
  | cons e l ih =>
    rw [List.foldl_cons, List.foldl_cons, ih, map_edit]

omit [DecidableEq κ] in
theorem Within.refl : Within t t := fun _ _ h => h

omit [DecidableEq κ] in
theorem within_empty : Within t empty := by
  intro k a ha
  cases ha

theorem Within.enter (h : Within t follower) (ht : t k = none) :
    Within (t.enter k a) (follower.enter k a) := by
  intro k' b hb
  have hf : follower k = none := by
    rcases hf : follower k with _ | c
    · rfl
    · rw [h k c hf] at ht
      cases ht
  rw [enter_of_none hf] at hb
  rw [enter_of_none ht]
  split_ifs at hb ⊢ with hk
  · exact hb
  · exact h k' b hb

theorem Within.leave (h : Within t follower) : Within (t.leave k) (follower.leave k) := by
  intro k' b hb
  unfold Table.leave at hb ⊢
  split_ifs at hb ⊢ with hk
  · cases hb
  · exact h k' b hb

/-- An entry of the leader's can be told at any time. -/
theorem Within.told (h : Within t follower) (ht : t k = some a) : Within t (follower.enter k a) := by
  intro k' b hb
  by_cases hk : k' = k
  · subst hk
    rw [Table.enter, if_pos rfl] at hb
    rcases hf : follower k' with _ | c
    · rw [hf] at hb
      cases hb
      exact ht
    · rw [hf] at hb
      cases hb
      exact h k' c hf
  · rw [Table.enter, if_neg hk] at hb
    exact h k' b hb

/-- A list of entries of the leader's leaves each of the keys it names entered. -/
theorem Within.told_all {l : List (κ × α)} (h : Within t follower)
    (hl : ∀ e ∈ l, t e.1 = some e.2) :
    Within t ((l.map fun e => Edit.enter e.1 e.2).foldl edit follower) ∧
      ∀ k, (follower k).isSome ∨ (∃ e ∈ l, e.1 = k) →
        (((l.map fun e => Edit.enter e.1 e.2).foldl edit follower) k).isSome := by
  induction l generalizing follower with
  | nil => simpa using h
  | cons e l ih =>
    have htold : Within t (follower.enter e.1 e.2) := h.told (hl e List.mem_cons_self)
    obtain ⟨hwithin, hsome⟩ := ih htold fun e' he' => hl e' (List.mem_cons_of_mem _ he')
    refine ⟨hwithin, fun k hk => hsome k ?_⟩
    by_cases hkey : k = e.1
    · left
      simp [Table.enter, hkey]
    · rcases hk with hk | ⟨e', he', rfl⟩
      · left
        simpa [Table.enter, hkey] using hk
      · right
        rcases List.mem_cons.mp he' with rfl | he'
        · exact absurd rfl hkey
        · exact ⟨e', he', rfl⟩

/-- When all of its entries have been told, in any order, the leader has no more than the
follower. -/
theorem Within.caught_up {l : List (κ × α)} (h : Within t follower)
    (hl : ∀ k a, (k, a) ∈ l ↔ t k = some a) :
    (l.map fun e => Edit.enter e.1 e.2).foldl edit follower = t := by
  obtain ⟨hwithin, hsome⟩ := h.told_all fun e he => (hl e.1 e.2).mp he
  funext k
  rcases ht : t k with _ | a
  · rcases hf : ((l.map fun e => Edit.enter e.1 e.2).foldl edit follower) k with _ | b
    · exact hf
    · rw [hwithin k b hf] at ht
      cases ht
  · have hk := hsome k (.inr ⟨(k, a), (hl k a).mpr ht, rfl⟩)
    obtain ⟨b, hb⟩ := Option.isSome_iff_exists.mp hk
    rw [hb, ← hwithin k b hb, ht]

end Table

end CampelloNet.Lib
