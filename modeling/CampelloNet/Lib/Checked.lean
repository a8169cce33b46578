import CampelloNet.Lib.Codec

/-!
# Readers that may be undefined

A reader that looks whether each of its accesses is allowed, and has no result where one is not, next
to the reader that does not look. They agree on the states of an invariant if there the first is
defined, returns what the second does, and the second keeps the invariant. Readers put together from
parts that agree agree.
-/

namespace CampelloNet.Lib

variable {σ α γ : Type}

/-- A reader without a result where it is undefined; a reader that fails has one. -/
abbrev Checked (σ : Type) := OptionT (StateT σ Option)

structure Agrees (I : σ → Prop) (c : Checked σ α) (r : OptionT (StateM σ) α) : Prop where
  defined : ∀ s, I s → c s = some (r s)
  keeps : ∀ s, I s → I (r s).2

namespace Agrees

variable {I : σ → Prop} {c : Checked σ α} {r : OptionT (StateM σ) α}

theorem pure (x : α) : Agrees I (Pure.pure x) (Pure.pure x) := ⟨fun _ _ => rfl, fun _ h => h⟩

theorem failure : Agrees I (Alternative.failure : Checked σ α) Alternative.failure :=
  ⟨fun _ _ => rfl, fun _ h => h⟩

theorem bind {d : α → Checked σ γ} {q : α → OptionT (StateM σ) γ} (h : Agrees I c r)
    (h' : ∀ x, Agrees I (d x) (q x)) : Agrees I (c >>= d) (r >>= q) := by
  have hrun : ∀ s, I s → (c >>= d) s = some ((r >>= q) s) ∧ I ((r >>= q) s).2 := by
    intro s hs
    change (c >>= d).run.run s = some ((r >>= q).run.run s) ∧ I ((r >>= q).run.run s).2
    have hdef : c.run.run s = some (r.run.run s) := h.defined s hs
    have hkeep : I (r.run.run s).2 := h.keeps s hs
    simp only [OptionT.run_bind, Option.elimM, StateT.run_bind]
    rw [hdef]
    generalize r.run.run s = out at hkeep
    obtain ⟨x, t⟩ := out
    cases x with
    | none => exact ⟨rfl, hkeep⟩
    | some x => exact ⟨(h' x).defined t hkeep, (h' x).keeps t hkeep⟩
  exact ⟨fun s hs => (hrun s hs).1, fun s hs => (hrun s hs).2⟩

theorem map (h : Agrees I c r) (f : α → γ) : Agrees I (f <$> c) (f <$> r) := by
  rw [map_eq_pure_bind, map_eq_pure_bind]
  exact h.bind fun x => .pure (f x)

theorem ite {p : Prop} [Decidable p] {c' : Checked σ α} {r' : OptionT (StateM σ) α}
    (h : Agrees I c r) (h' : Agrees I c' r') :
    Agrees I (if p then c else c') (if p then r else r') := by
  split_ifs
  · exact h
  · exact h'

end Agrees

/-- The same read so many times. -/
def Checked.readEach (c : Checked σ α) : (n : ℕ) → Checked σ (List.Vector α n)
  | 0 => pure List.Vector.nil
  | n + 1 => do
    let x ← c
    let xs ← readEach c n
    pure (x ::ᵥ xs)

theorem Agrees.readEach {I : σ → Prop} {c : Checked σ α} {r : OptionT (StateM σ) α}
    (h : Agrees I c r) (n : ℕ) : Agrees I (c.readEach n) (Medium.readEach r n) := by
  induction n with
  | zero => exact .pure _
  | succ n ih => exact h.bind fun x => ih.bind fun xs => .pure (x ::ᵥ xs)

end CampelloNet.Lib
