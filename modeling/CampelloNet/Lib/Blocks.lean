import Mathlib.Data.List.TakeDrop

/-!
# Data absorbed block by block

A state that takes in data by blocks of a fixed size and keeps what does not fill a block in a buffer.
However the data comes in, state and buffer are those of the data as a whole: `Absorbed` is kept by
the ways in which such a component takes in more.
-/

namespace CampelloNet.Lib

variable {β σ : Type*} (size : ℕ) (f : σ → List β → σ)

/-- The state after the first `n` blocks. -/
def absorb : ℕ → σ → List β → σ
  | 0, s, _ => s
  | n + 1, s, data => absorb n (f s (data.take size)) (data.drop size)

theorem absorb_append {n m : ℕ} {s : σ} {data rest : List β} (h : data.length = size * n) :
    absorb size f (n + m) s (data ++ rest) = absorb size f m (absorb size f n s data) rest := by
  induction n generalizing s data with
  | zero =>
    obtain rfl := List.length_eq_zero_iff.mp h
    rw [Nat.zero_add, List.nil_append]
    rfl
  | succ n ih =>
    have hsize : size ≤ data.length := by
      rw [h, Nat.mul_succ]
      exact Nat.le_add_left _ _
    rw [Nat.add_right_comm, absorb, absorb, List.take_append_of_le_length hsize,
      List.drop_append_of_le_length hsize]
    apply ih
    rw [List.length_drop, h, Nat.mul_succ, Nat.add_sub_cancel]

/-- A block taken alone. -/
theorem absorb_one {s : σ} {block : List β} (h : block.length = size) :
    absorb size f 1 s block = f s block := by
  rw [absorb, absorb, List.take_of_length_le (Nat.le_of_eq h)]

/-- The state after all of the data, whose last block may be a short one. -/
def absorbAll (s : σ) (data : List β) : σ :=
  let n := data.length / size
  match data.drop (size * n) with
  | [] => absorb size f n s data
  | rest => f (absorb size f n s data) rest

section Related

variable {τ : Type*} {g : τ → List β → τ} {R : σ → τ → Prop}
  (hstep : ∀ s t block, R s t → R (f s block) (g t block))

include hstep

/-- A relation kept by each block is kept by all of them. -/
theorem absorb_related (n : ℕ) {s : σ} {t : τ} (h : R s t) (data : List β) :
    R (absorb size f n s data) (absorb size g n t data) := by
  induction n generalizing s t data with
  | zero => exact h
  | succ n ih => exact ih (hstep s t _ h) _

theorem absorbAll_related {s : σ} {t : τ} (h : R s t) (data : List β) :
    R (absorbAll size f s data) (absorbAll size g t data) := by
  have hwhole := absorb_related size f hstep (data.length / size) h data
  simp only [absorbAll]
  split
  · exact hwhole
  · exact hstep _ _ _ hwhole

end Related

/-- The state has absorbed the whole blocks of the data, and the rest is in the buffer. -/
structure Absorbed (start : σ) (data : List β) (s : σ) (buffer : List β) : Prop where
  fits : buffer.length < size
  split : ∃ n whole, data = whole ++ buffer ∧ whole.length = size * n ∧ s = absorb size f n start whole

namespace Absorbed

variable {size f} {start s : σ} {data buffer : List β}

theorem nil (h : 0 < size) : Absorbed size f start [] start [] :=
  ⟨h, 0, [], rfl, rfl, rfl⟩

/-- Too little for a block. -/
theorem keep (h : Absorbed size f start data s buffer) {more : List β}
    (hfits : buffer.length + more.length < size) :
    Absorbed size f start (data ++ more) s (buffer ++ more) := by
  obtain ⟨n, whole, rfl, hlength, rfl⟩ := h.split
  refine ⟨by rwa [List.length_append], n, whole, ?_, hlength, rfl⟩
  rw [List.append_assoc]

/-- What fills the buffer. -/
theorem fill (h : Absorbed size f start data s buffer) {more : List β}
    (hfull : buffer.length + more.length = size) :
    Absorbed size f start (data ++ more) (f s (buffer ++ more)) [] := by
  obtain ⟨n, whole, rfl, hlength, rfl⟩ := h.split
  have hblock : (buffer ++ more).length = size := by rwa [List.length_append]
  refine ⟨Nat.zero_lt_of_lt h.fits, n + 1, whole ++ (buffer ++ more), ?_, ?_, ?_⟩
  · rw [List.append_nil, List.append_assoc]
  · rw [List.length_append, hblock, hlength, Nat.mul_succ]
  · rw [absorb_append size f hlength, absorb_one size f hblock]

/-- Whole blocks on an empty buffer. -/
theorem whole (h : Absorbed size f start data s []) {n : ℕ} {more : List β}
    (hlength : more.length = size * n) :
    Absorbed size f start (data ++ more) (absorb size f n s more) [] := by
  obtain ⟨m, whole, rfl, hwhole, rfl⟩ := h.split
  rw [List.append_nil]
  refine ⟨h.fits, m + n, whole ++ more, (List.append_nil _).symm, ?_, (absorb_append size f hwhole).symm⟩
  rw [List.length_append, hwhole, hlength, Nat.mul_add]

/-- How much was absorbed is a matter of the length. -/
theorem count (h : Absorbed size f start data s buffer) :
    ∃ whole, data = whole ++ buffer ∧ whole.length = size * (data.length / size) ∧
      s = absorb size f (data.length / size) start whole := by
  obtain ⟨n, whole, rfl, hlength, rfl⟩ := h.split
  have hdiv : (whole ++ buffer).length / size = n := by
    rw [List.length_append, hlength, Nat.mul_add_div (Nat.zero_lt_of_lt h.fits),
      Nat.div_eq_of_lt h.fits, Nat.add_zero]
  rw [hdiv]
  exact ⟨whole, rfl, hlength, rfl⟩

/-- All of the data, from the state at its last whole block. -/
theorem absorbAll_eq (h : Absorbed size f start data s buffer) :
    absorbAll size f start data = if buffer = [] then s else f s buffer := by
  obtain ⟨whole, hsplit, hwhole, hs⟩ := h.count
  have hrest : data.drop (size * (data.length / size)) = buffer := by
    rw [← hwhole]
    rw [hsplit]
    exact List.drop_left
  have hfirst : absorb size f (data.length / size) start data = s := by
    have : absorb size f (data.length / size + 0) start (whole ++ buffer) =
        absorb size f 0 (absorb size f (data.length / size) start whole) buffer :=
      absorb_append size f hwhole
    rwa [← hsplit, ← hs] at this
  simp only [absorbAll, hrest, hfirst]
  cases buffer with
  | nil => rfl
  | cons b buffer => rfl

end Absorbed

end CampelloNet.Lib
