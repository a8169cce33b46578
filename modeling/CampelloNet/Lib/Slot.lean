import Mathlib.Data.List.Induction

/-!
# Slots

A slot holds one element at most. An operation puts an element into it, whatever was there, or lets
what is there stay if it passes a test. What the slot holds after a list of operations is the element
that was put there last, if it has passed all the tests since (`content_eq_some_iff`).
-/

namespace CampelloNet.Lib

variable {ε ω : Type*}

/-- What an operation does to a slot. -/
inductive SlotAct (ε : Type*)
  | put (e : ε)
  | keep (p : ε → Bool)

namespace SlotAct

def apply : SlotAct ε → Option ε → Option ε
  | put e, _ => some e
  | keep p, held => held.filter p

/-- The operation leaves some element with the property if there was one. -/
def Spares (P : ε → Prop) : SlotAct ε → Prop
  | put e => P e
  | keep p => ∀ e, P e → p e = true

end SlotAct

open SlotAct

/-- What a slot holds after some operations. -/
def content (act : ω → SlotAct ε) (ops : List ω) : Option ε :=
  ops.foldl (fun held op => (act op).apply held) none

@[simp] theorem SlotAct.apply_keep_true (held : Option ε) : (keep fun _ => true).apply held = held := by
  cases held <;> rfl

variable {act : ω → SlotAct ε} {ops : List ω} {op : ω} {e : ε}

@[simp] theorem content_nil : content act [] = none := rfl

@[simp] theorem content_concat (ops : List ω) (op : ω) :
    content act (ops ++ [op]) = (act op).apply (content act ops) := by
  simp [content]

/-- The slot holds what was put there last, if that has passed every test since. -/
theorem content_eq_some_iff : content act ops = some e ↔ ∃ before op after,
    ops = before ++ op :: after ∧ act op = put e ∧ ∀ op' ∈ after, ∃ p, act op' = keep p ∧ p e = true := by
  induction ops using List.reverseRecOn with
  | nil => simp
  | append_singleton ops last ih =>
    rw [content_concat]
    constructor
    · intro h
      rcases hact : act last with e' | p
      · rw [hact] at h
        obtain rfl : e' = e := by simpa [apply] using h
        exact ⟨ops, last, [], rfl, hact, by simp⟩
      · rw [hact] at h
        obtain ⟨hheld, hp⟩ := Option.filter_eq_some_iff.mp h
        obtain ⟨before, op, after, rfl, hop, hafter⟩ := ih.mp hheld
        refine ⟨before, op, after ++ [last], by simp, hop, fun op' hop' => ?_⟩
        rcases List.mem_append.mp hop' with hop' | hop'
        · exact hafter op' hop'
        · rw [List.mem_singleton.mp hop']
          exact ⟨p, hact, hp⟩
    · rintro ⟨before, op, after, hops, hop, hafter⟩
      rcases after.eq_nil_or_concat with rfl | ⟨init, op', rfl⟩
      · obtain ⟨-, rfl⟩ := List.append_singleton_inj.mp hops
        rw [hop]
        rfl
      · have hsplit : ops ++ [last] = (before ++ op :: init) ++ [op'] := by simpa using hops
        obtain ⟨rfl, rfl⟩ := List.append_singleton_inj.mp hsplit
        obtain ⟨p, hact, hp⟩ := hafter last (by simp)
        have hheld := ih.mpr ⟨before, op, init, rfl, hop, fun op' hop' => hafter op' (by simp [hop'])⟩
        rw [hact, hheld]
        exact Option.filter_eq_some_iff.mpr ⟨rfl, hp⟩

/-- What has the property is replaced by nothing else. -/
theorem exists_foldl_of_spares {P : ε → Prop} (ops : List ω) (h : ∀ op ∈ ops, (act op).Spares P)
    (he : P e) : ∃ e', P e' ∧ ops.foldl (fun held op => (act op).apply held) (some e) = some e' := by
  induction ops generalizing e with
  | nil => exact ⟨e, he, rfl⟩
  | cons op ops ih =>
    have hop := h op List.mem_cons_self
    have hrest := fun op' hop' => h op' (List.mem_cons_of_mem _ hop')
    rw [List.foldl_cons]
    rcases hact : act op with e' | p
    · rw [hact] at hop
      exact ih hrest hop
    · rw [hact] at hop
      have hkept : (keep p).apply (some e) = some e := Option.filter_eq_some_iff.mpr ⟨rfl, hop e he⟩
      rw [hkept]
      exact ih hrest he

/-- The slot holds an element with the property if and only if one was put there and every operation
since has spared it, where the tests tell such elements not apart. -/
theorem exists_content_iff (P : ε → Prop)
    (hkeep : ∀ op p, act op = keep p → ∀ e e', P e → P e' → p e = p e') :
    (∃ e, P e ∧ content act ops = some e) ↔ ∃ before op after e, ops = before ++ op :: after ∧
      act op = put e ∧ P e ∧ ∀ op' ∈ after, (act op').Spares P := by
  constructor
  · rintro ⟨e, he, hheld⟩
    obtain ⟨before, op, after, rfl, hop, hafter⟩ := content_eq_some_iff.mp hheld
    refine ⟨before, op, after, e, rfl, hop, he, fun op' hop' => ?_⟩
    obtain ⟨p, hact, hp⟩ := hafter op' hop'
    rw [hact]
    intro e' he'
    rw [hkeep op' p hact e' e he' he, hp]
  · rintro ⟨before, op, after, e, rfl, hop, he, hafter⟩
    unfold content
    rw [List.foldl_append, List.foldl_cons, hop]
    exact exists_foldl_of_spares after hafter he

end CampelloNet.Lib
