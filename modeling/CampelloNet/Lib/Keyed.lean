import Mathlib.Data.List.Basic
import Mathlib.Data.List.Nodup
import Mathlib.Logic.Function.Basic

/-!
# Vectors searched by key

A `std::vector` whose elements are found by a linear search for a key: `lookup` is the search,
`upsert` writes an element over the first one with its key, or at the end when there is none. Events
that take the next number of their key's counter are distinct, and stay so under a map that separates
them (`nodup_map_numbered`).
-/

namespace CampelloNet.Lib

variable {α κ : Type*} [DecidableEq κ] (key : α → κ)

/-- The first element with the key. -/
def lookup (k : κ) (l : List α) : Option α := l.find? fun a => decide (key a = k)

/-- Write `a` over the first element with its key, or append it. -/
def upsert (a : α) : List α → List α
  | [] => [a]
  | b :: l => if key b = key a then a :: l else b :: upsert a l

variable {key}

@[simp] theorem lookup_nil (k : κ) : lookup key k [] = none := rfl

theorem lookup_cons (k : κ) (a : α) (l : List α) :
    lookup key k (a :: l) = if key a = k then some a else lookup key k l := by
  by_cases h : key a = k <;> simp [lookup, h]

theorem lookup_key {k : κ} {l : List α} {a : α} (h : lookup key k l = some a) : key a = k := by
  simpa using List.find?_some h

theorem lookup_mem {k : κ} {l : List α} {a : α} (h : lookup key k l = some a) : a ∈ l :=
  List.mem_of_find?_eq_some h

@[simp] theorem lookup_upsert_self (a : α) (l : List α) :
    lookup key (key a) (upsert key a l) = some a := by
  induction l with
  | nil => simp [upsert, lookup_cons]
  | cons b l ih =>
    rw [upsert]
    split_ifs with h
    · rw [lookup_cons, if_pos rfl]
    · rw [lookup_cons, if_neg h, ih]

theorem lookup_upsert_ne {k : κ} (a : α) (l : List α) (h : key a ≠ k) :
    lookup key k (upsert key a l) = lookup key k l := by
  induction l with
  | nil => simp [upsert, lookup_cons, h]
  | cons b l ih =>
    rw [upsert]
    split_ifs with hb
    · rw [lookup_cons, lookup_cons, if_neg h, if_neg (hb ▸ h)]
    · rw [lookup_cons, lookup_cons, ih]

/-- Under a new key an element is appended. -/
theorem upsert_of_lookup_none {a : α} {l : List α} (h : lookup key (key a) l = none) :
    upsert key a l = l ++ [a] := by
  induction l with
  | nil => rfl
  | cons b l ih =>
    rw [lookup_cons] at h
    split_ifs at h with hb
    rw [upsert, if_neg hb, ih h, List.cons_append]

/-- Writing the element that is already there changes nothing. -/
theorem upsert_of_lookup {a : α} {l : List α} (h : lookup key (key a) l = some a) :
    upsert key a l = l := by
  induction l with
  | nil => cases h
  | cons b l ih =>
    rw [lookup_cons] at h
    split_ifs at h with hb
    · cases h
      rw [upsert, if_pos rfl]
    · rw [upsert, if_neg hb, ih h]

theorem upsert_eq_self_iff {a : α} {l : List α} :
    upsert key a l = l ↔ lookup key (key a) l = some a := by
  refine ⟨fun h => ?_, upsert_of_lookup⟩
  have hself : lookup key (key a) (upsert key a l) = some a := lookup_upsert_self a l
  rwa [h] at hself

/-- Writing an element under a key that is already there keeps the keys, in order. -/
theorem map_key_upsert (a : α) (l : List α) :
    (upsert key a l).map key = if key a ∈ l.map key then l.map key else l.map key ++ [key a] := by
  induction l with
  | nil => simp [upsert]
  | cons b l ih =>
    rw [upsert]
    split_ifs with hb hm hm
    · simp [hb]
    · simp [hb] at hm
    · rcases List.mem_cons.mp hm with h | h
      · exact absurd h.symm hb
      · rw [List.map_cons, ih, if_pos h, List.map_cons]
    · rw [List.map_cons, ih, if_neg (fun h => hm (List.mem_cons_of_mem _ h)), List.map_cons,
        List.cons_append]

/-- What does not tell the written element from the one found is the same of every element. -/
theorem map_upsert_of_lookup {β : Type*} {f : α → β} {a b : α} {l : List α}
    (h : lookup key (key a) l = some b) (hf : f a = f b) : (upsert key a l).map f = l.map f := by
  induction l with
  | nil => cases h
  | cons c l ih =>
    rw [lookup_cons] at h
    split_ifs at h with hc
    · cases h
      rw [upsert, if_pos hc, List.map_cons, List.map_cons, hf]
    · rw [upsert, if_neg hc, List.map_cons, List.map_cons, ih h]

theorem nodup_map_key_upsert (a : α) {l : List α} (h : (l.map key).Nodup) :
    ((upsert key a l).map key).Nodup := by
  rw [map_key_upsert]
  split_ifs with hm
  · exact h
  · exact List.Nodup.append h (List.nodup_singleton _) (by simpa using hm)

theorem mem_upsert {a b : α} {l : List α} (h : b ∈ upsert key a l) : b = a ∨ b ∈ l := by
  induction l with
  | nil => exact .inl (by simpa [upsert] using h)
  | cons c l ih =>
    rw [upsert] at h
    split_ifs at h
    · rcases List.mem_cons.mp h with h | h
      · exact .inl h
      · exact .inr (List.mem_cons_of_mem _ h)
    · rcases List.mem_cons.mp h with h | h
      · exact .inr (h ▸ List.mem_cons_self)
      · exact (ih h).imp_right (List.mem_cons_of_mem _)

/-- Writing over an element changes nothing but it. -/
theorem mem_upsert_of_ne {a b c : α} {l : List α} (h : lookup key (key a) l = some b) (ha : c ≠ a)
    (hb : c ≠ b) : c ∈ upsert key a l ↔ c ∈ l := by
  induction l with
  | nil => cases h
  | cons d l ih =>
    rw [lookup_cons] at h
    rw [upsert]
    split_ifs at h ⊢ with hd
    · cases h
      simp [ha, hb]
    · simp [ih h]

omit [DecidableEq κ] in
theorem map_key_map {f : α → α} (hf : ∀ a, key (f a) = key a) (l : List α) :
    (l.map f).map key = l.map key := by
  rw [List.map_map]
  exact List.map_congr_left fun a _ => hf a

theorem lookup_map {β : Type*} {key' : β → κ} {f : α → β} (hf : ∀ a, key' (f a) = key a) (k : κ)
    (l : List α) : lookup key' k (l.map f) = (lookup key k l).map f := by
  induction l with
  | nil => rfl
  | cons b l ih =>
    rw [List.map_cons, lookup_cons, lookup_cons, hf]
    split_ifs
    · rfl
    · exact ih

theorem map_upsert {β : Type*} {key' : β → κ} {f : α → β} (hf : ∀ a, key' (f a) = key a) (a : α)
    (l : List α) : (upsert key a l).map f = upsert key' (f a) (l.map f) := by
  induction l with
  | nil => rfl
  | cons b l ih =>
    rw [upsert, List.map_cons, upsert, hf, hf]
    split_ifs
    · rfl
    · rw [List.map_cons, ih]

/-- The search finds the first of the elements with the key. -/
theorem lookup_eq_head? (k : κ) (l : List α) :
    lookup key k l = (l.filter fun a => key a = k).head? := (List.head?_filter ..).symm

/-- Of the elements with the key the first is written over. -/
theorem filter_upsert_self (a : α) (l : List α) :
    (upsert key a l).filter (fun b => key b = key a) =
      a :: (l.filter fun b => key b = key a).tail := by
  induction l with
  | nil => simp [upsert]
  | cons b l ih =>
    rw [upsert]
    split_ifs with hb
    · simp [hb]
    · simp [hb, ih]

theorem filter_upsert_ne {k : κ} (a : α) (l : List α) (h : key a ≠ k) :
    (upsert key a l).filter (fun b => key b = k) = l.filter fun b => key b = k := by
  induction l with
  | nil => simp [upsert, h]
  | cons b l ih =>
    rw [upsert]
    split_ifs with hb
    · rw [← hb] at h
      simp [h, hb ▸ h]
    · rw [List.filter_cons, List.filter_cons, ih]

/-- A write brings the new element in and takes out the one that it writes over. -/
theorem perm_upsert (a : α) (l : List α) :
    ((lookup key (key a) l).toList ++ upsert key a l).Perm (l ++ [a]) := by
  induction l with
  | nil => exact .refl _
  | cons b l ih =>
    rw [lookup_cons, upsert]
    split_ifs
    · exact (List.perm_append_singleton a l).symm.cons b
    · exact List.perm_middle.trans (ih.cons b)

/-- With distinct keys, an element and the others make up the list. -/
theorem perm_cons_filter {l : List α} (hn : (l.map key).Nodup) {a : α} (ha : a ∈ l) :
    (a :: l.filter fun b => key b ≠ key a).Perm l := by
  induction l with
  | nil => cases ha
  | cons b l ih =>
    rw [List.map_cons, List.nodup_cons] at hn
    rw [List.filter_cons]
    rcases List.mem_cons.mp ha with rfl | ha
    · rw [if_neg (by simp)]
      rw [List.filter_eq_self.mpr]
      intro c hc
      exact decide_eq_true fun heq => hn.1 (heq ▸ List.mem_map_of_mem hc)
    · have hne : key b ≠ key a := fun h => hn.1 (h ▸ List.mem_map_of_mem ha)
      rw [if_pos (decide_eq_true hne)]
      exact (List.Perm.swap b a _).trans ((ih hn.2 ha).cons b)

/-- With distinct keys, an element is what the search for its key finds. -/
theorem lookup_of_mem {l : List α} (hn : (l.map key).Nodup) {a : α} (ha : a ∈ l) :
    lookup key (key a) l = some a := by
  induction l with
  | nil => cases ha
  | cons b l ih =>
    rw [List.map_cons, List.nodup_cons] at hn
    rw [lookup_cons]
    rcases List.mem_cons.mp ha with rfl | ha
    · exact if_pos rfl
    · have hne : key b ≠ key a := fun h => hn.1 (h ▸ List.mem_map_of_mem ha)
      rw [if_neg hne, ih hn.2 ha]

/-- The search finds the first element with the key. -/
theorem lookup_of_first {l : List α} {k : κ} {a : α} {n : ℕ} (ha : l[n]? = some a) (hk : key a = k)
    (hfirst : ∀ j < n, ∀ b ∈ l[j]?, key b ≠ k) : lookup key k l = some a := by
  induction l generalizing n with
  | nil => cases ha
  | cons b l ih =>
    rw [lookup_cons]
    rcases n with _ | n
    · cases ha
      exact if_pos hk
    · rw [if_neg (hfirst 0 (Nat.succ_pos n) b rfl)]
      exact ih ha fun j hj c hc => hfirst (j + 1) (Nat.succ_lt_succ hj) c hc

theorem lookup_filter {l : List α} (hn : (l.map key).Nodup) (k : κ) (p : α → Bool) :
    lookup key k (l.filter p) = (lookup key k l).filter p := by
  induction l with
  | nil => rfl
  | cons b l ih =>
    rw [List.map_cons, List.nodup_cons] at hn
    rw [lookup_cons, List.filter_cons]
    by_cases hb : key b = k
    · rw [if_pos hb]
      by_cases hp : p b = true
      · rw [if_pos hp, lookup_cons, if_pos hb, Option.filter_some, if_pos hp]
      · have hnone : lookup key k l = none := by
          refine List.find?_eq_none.mpr fun c hc => ?_
          have : key c ≠ k := fun h => hn.1 (hb ▸ h ▸ List.mem_map_of_mem hc)
          simpa using this
        rw [if_neg hp, ih hn.2, hnone, Option.filter_some, if_neg hp, Option.filter_none]
    · rw [if_neg hb]
      split_ifs with hp
      · rw [lookup_cons, if_neg hb, ih hn.2]
      · exact ih hn.2

/-- What stays does not hide what stood behind it. -/
theorem lookup_filter_of_pos {l : List α} {k : κ} {a : α} {p : α → Bool}
    (h : lookup key k l = some a) (hp : p a = true) : lookup key k (l.filter p) = some a := by
  induction l with
  | nil => cases h
  | cons b l ih =>
    rw [lookup_cons] at h
    split_ifs at h with hb
    · cases h
      rw [List.filter_cons_of_pos hp, lookup_cons, if_pos hb]
    · rw [List.filter_cons]
      split_ifs
      · rw [lookup_cons, if_neg hb, ih h]
      · exact ih h

/-- Filtering by the key alone. -/
theorem lookup_filter_key (p : κ → Bool) (k : κ) (l : List α) :
    lookup key k (l.filter fun a => p (key a)) = if p k then lookup key k l else none := by
  induction l with
  | nil => simp
  | cons a l ih =>
    by_cases hk : key a = k
    · subst hk
      by_cases hp : p (key a) <;> simp [lookup_cons, hp, ih]
    · by_cases hp : p (key a) <;> simp [lookup_cons, hp, hk, ih]

theorem lookup_filter_none {l : List α} {k : κ} {p : α → Bool} (h : lookup key k l = none) :
    lookup key k (l.filter p) = none := by
  refine List.find?_eq_none.mpr fun a ha => ?_
  exact List.find?_eq_none.mp h a (List.mem_of_mem_filter ha)

/-- After the elements with a key are erased, there is none. -/
theorem lookup_erased (k : κ) (l : List α) :
    lookup key k (l.filter fun a => key a ≠ k) = none := by
  refine List.find?_eq_none.mpr fun a ha => ?_
  simpa using (List.mem_filter.mp ha).2

theorem lookup_erased_ne {k k' : κ} (h : k ≠ k') (l : List α) :
    lookup key k (l.filter fun a => key a ≠ k') = lookup key k l := by
  rcases hl : lookup key k l with _ | a
  · exact lookup_filter_none hl
  · exact lookup_filter_of_pos hl (by simpa [lookup_key hl] using h)

/-! ### Tests on the elements of a list -/

section
variable {l : List α} {p : α → Prop} [DecidablePred p]

/-- A property of the elements is tested on the list, also where the type is finite. -/
instance (priority := 2000) decidableForallMem : Decidable (∀ a ∈ l, p a) := List.decidableBAll p l

instance (priority := 2000) decidableExistsMem : Decidable (∃ a ∈ l, p a) := List.decidableBEx p l

end

/-! ### Numbering by per-key counters -/

section
variable {κ : Type*} [DecidableEq κ]

/-- The events of a list with their numbers, from counters that stand at `c`. -/
def numbered (c : κ → ℕ) : List κ → List (κ × ℕ)
  | [] => []
  | k :: ks => (k, c k) :: numbered (Function.update c k (c k + 1)) ks

theorem mem_numbered {c : κ → ℕ} {ks : List κ} {k : κ} {n : ℕ} :
    (k, n) ∈ numbered c ks ↔ c k ≤ n ∧ n < c k + ks.count k := by
  induction ks generalizing c with
  | nil => simp [numbered]
  | cons x ks ih =>
    rw [numbered, List.mem_cons, ih, Prod.mk.injEq]
    by_cases hx : k = x
    · subst hx
      rw [Function.update_self, List.count_cons_self]
      simp only [true_and]
      omega
    · rw [Function.update_of_ne hx, List.count_cons_of_ne (Ne.symm hx)]
      simp only [hx, false_and, false_or]

theorem nodup_numbered (c : κ → ℕ) (ks : List κ) : (numbered c ks).Nodup := by
  induction ks generalizing c with
  | nil => exact List.nodup_nil
  | cons k ks ih =>
    refine List.nodup_cons.mpr ⟨fun h => ?_, ih _⟩
    have := (mem_numbered.mp h).1
    rw [Function.update_self] at this
    omega

/-- Numbered events stay distinct under a map exactly when the map separates them. -/
theorem nodup_map_numbered {β : Type*} {f : κ × ℕ → β} {ks : List κ} :
    ((numbered (fun _ => 0) ks).map f).Nodup ↔
      ∀ k n k' n', n < ks.count k → n' < ks.count k' → f (k, n) = f (k', n') → (k, n) = (k', n') := by
  have hmem : ∀ k n, (k, n) ∈ numbered (fun _ => 0) ks ↔ n < ks.count k := by
    intro k n
    rw [mem_numbered]
    omega
  rw [List.nodup_map_iff_inj_on (nodup_numbered _ ks)]
  constructor
  · intro h k n k' n' hn hn' heq
    exact h _ ((hmem k n).mpr hn) _ ((hmem k' n').mpr hn') heq
  · rintro h ⟨k, n⟩ hn ⟨k', n'⟩ hn' heq
    exact h k n k' n' ((hmem k n).mp hn) ((hmem k' n').mp hn') heq

end

end CampelloNet.Lib
