import CampelloNet.Lib.Run
import Mathlib.Algebra.GroupWithZero.Nat
import Mathlib.Data.List.Perm.Subperm

/-!
# Ledgers of a run

What the calls of a run bring into a store and what they take out of it. If no call leaves more in the
store and takes more out than was there and it brought in, then nothing is taken out of the store in a
whole run that was not brought in, and nothing twice.
-/

namespace CampelloNet.Lib.Run

open List

variable {σ ℓ β : Type*} {step : σ → ℓ → Option σ} {ok : σ → ℓ → Prop}

/-- What `f` finds at each call of a list, in order. -/
def gather (step : σ → ℓ → Option σ) (f : σ → ℓ → List β) : σ → List ℓ → List β
  | _, [] => []
  | s, l :: ls => f s l ++ ((step s l).map fun t => gather step f t ls).getD []

variable {f g : σ → ℓ → List β} {s t : σ} {l : ℓ} {ls : List ℓ}

theorem gather_cons (h : step s l = some t) :
    gather step f s (l :: ls) = f s l ++ gather step f t ls := by
  rw [gather, h]
  rfl

theorem mem_gather {x : β} : x ∈ gather step f s ls ↔
    ∃ pre l post u, ls = pre ++ l :: post ∧ exec step s pre = some u ∧ x ∈ f u l := by
  induction ls generalizing s with
  | nil =>
    refine iff_of_false not_mem_nil ?_
    rintro ⟨pre, l, post, u, hls, -⟩
    simp at hls
  | cons l ls ih =>
    constructor
    · intro hx
      rcases mem_append.mp hx with hx | hx
      · exact ⟨[], l, ls, s, rfl, rfl, hx⟩
      · rcases hstep : step s l with _ | t
        · rw [hstep] at hx
          cases hx
        · rw [hstep, Option.map_some, Option.getD_some] at hx
          obtain ⟨pre, l', post, u, rfl, hu, hx⟩ := ih.mp hx
          refine ⟨l :: pre, l', post, u, rfl, ?_, hx⟩
          rw [exec, hstep]
          exact hu
    · rintro ⟨pre, l', post, u, hls, hu, hx⟩
      rcases pre with _ | ⟨l₀, pre⟩
      · cases hu
        cases hls
        exact mem_append_left _ hx
      · cases hls
        obtain ⟨t, ht, hu⟩ := Option.bind_eq_some_iff.mp hu
        rw [gather_cons ht]
        exact mem_append_right _ (ih.mpr ⟨pre, l', post, u, rfl, hu, hx⟩)

theorem gather_prefix {pre post : List ℓ} :
    gather step f s pre ⊆ gather step f s (pre ++ post) := by
  intro x hx
  obtain ⟨pre', l, post', u, rfl, hu, hx⟩ := mem_gather.mp hx
  exact mem_gather.mpr ⟨pre', l, post' ++ post, u, by rw [append_assoc, cons_append], hu, hx⟩

/-- Two accounts that agree at every admitted call agree over a run of admitted calls. -/
theorem gather_congr (hfg : ∀ s l, ok s l → f s l = g s l) (hok : Admits step ok s ls) :
    gather step f s ls = gather step g s ls := by
  induction ls generalizing s with
  | nil => rfl
  | cons l ls ih =>
    rcases hstep : step s l with _ | t
    · rw [gather, gather, hstep, hfg s l hok.1]
      rfl
    · rw [gather_cons hstep, gather_cons hstep, hfg s l hok.1, ih (hok.2 t hstep)]

/-- What is taken out of a store in a run and what is left in it at the end is no more than what was
there and what was brought in. -/
theorem gather_subperm (store : σ → List β) {taken brought : σ → ℓ → List β}
    (hstep : ∀ s l t, step s l = some t → taken s l ++ store t <+~ store s ++ brought s l)
    (h : exec step s ls = some t) :
    gather step taken s ls ++ store t <+~ store s ++ gather step brought s ls := by
  induction ls generalizing s with
  | nil =>
    cases h
    exact (List.append_nil _).symm ▸ Subperm.refl _
  | cons l ls ih =>
    obtain ⟨u, hu, h⟩ := Option.bind_eq_some_iff.mp h
    rw [gather_cons hu, gather_cons hu, List.append_assoc, ← List.append_assoc (store s)]
    have hrest := (ih h).append (Subperm.refl (taken s l))
    have hhead := (hstep s l u hu).append (Subperm.refl (gather step brought u ls))
    refine (perm_append_comm.subperm.trans hrest).trans (Subperm.trans ?_ hhead)
    rw [List.append_assoc (taken s l)]
    exact perm_append_comm.subperm

/-- A log to which every call appends its account holds the account of the run. -/
theorem log_gather (log : σ → List β) {I : σ → Prop} (hI : ∀ s l t, I s → step s l = some t → I t)
    (hstep : ∀ s l t, I s → step s l = some t → log t = log s ++ f s l) (hs : I s)
    (h : exec step s ls = some t) : log t = log s ++ gather step f s ls := by
  induction ls generalizing s with
  | nil =>
    cases h
    exact (List.append_nil _).symm
  | cons l ls ih =>
    obtain ⟨u, hu, h⟩ := Option.bind_eq_some_iff.mp h
    rw [gather_cons hu, ih (hI s l u hs hu) h, hstep s l u hs hu, List.append_assoc]

theorem gather_map {γ : Type*} (φ : β → γ) (s : σ) (ls : List ℓ) :
    gather step (fun s l => (f s l).map φ) s ls = (gather step f s ls).map φ := by
  induction ls generalizing s with
  | nil => rfl
  | cons l ls ih =>
    rcases hstep : step s l with _ | t
    · simp [gather, hstep]
    · rw [gather_cons hstep, gather_cons hstep, ih, map_append]

/-- If every call takes out of a store and leaves in it exactly what was there and what it brought in,
then so does a whole run. -/
theorem gather_perm (store : σ → List β) {taken brought : σ → ℓ → List β} {I : σ → Prop}
    (hI : ∀ s l t, I s → step s l = some t → I t)
    (hstep : ∀ s l t, I s → step s l = some t → taken s l ++ store t ~ store s ++ brought s l)
    (hs : I s) (h : exec step s ls = some t) :
    gather step taken s ls ++ store t ~ store s ++ gather step brought s ls := by
  induction ls generalizing s with
  | nil =>
    cases h
    exact (List.append_nil _).symm ▸ Perm.refl _
  | cons l ls ih =>
    obtain ⟨u, hu, h⟩ := Option.bind_eq_some_iff.mp h
    rw [gather_cons hu, gather_cons hu, List.append_assoc, ← List.append_assoc (store s)]
    have hrest := (ih (hI s l u hs hu) h).append_left (taken s l)
    have hhead := (hstep s l u hs hu).append_right (gather step brought u ls)
    rw [List.append_assoc (taken s l)] at hhead
    exact hrest.trans hhead

/-- An account that is kept in two books. -/
theorem gather_append (s : σ) (ls : List ℓ) :
    gather step (fun s l => f s l ++ g s l) s ls ~ gather step f s ls ++ gather step g s ls := by
  induction ls generalizing s with
  | nil => exact Perm.refl _
  | cons l ls ih =>
    rcases hstep : step s l with _ | t
    · simp [gather, hstep]
    · rw [gather_cons hstep, gather_cons hstep, gather_cons hstep, append_assoc, append_assoc]
      exact ((ih t).append_left _).trans (perm_append_comm_assoc _ _ _) |>.append_left _

/-- Where at each admitted call one account has something at most `k` times as often as another, so it
does over a run of admitted calls. -/
theorem count_gather_le [DecidableEq β] {x : β} {k : ℕ}
    (hle : ∀ s l, ok s l → (f s l).count x ≤ k * (g s l).count x) (hok : Admits step ok s ls) :
    (gather step f s ls).count x ≤ k * (gather step g s ls).count x := by
  induction ls generalizing s with
  | nil => simp [gather]
  | cons l ls ih =>
    have hhead := hle s l hok.1
    rcases hstep : step s l with _ | t
    · simpa [gather, hstep] using hhead
    · have hrest := ih (hok.2 t hstep)
      rw [gather_cons hstep, gather_cons hstep, count_append, count_append, Nat.mul_add]
      omega

/-- Two accounts of one run, where the first weighs at most what the second does and at the admitted
calls the same: they weigh the same over the run exactly if every call is admitted. -/
theorem weight_gather (weight : β → ℕ)
    (hle : ∀ s l, ((f s l).map weight).sum ≤ ((g s l).map weight).sum)
    (heq : ∀ s l, ((f s l).map weight).sum = ((g s l).map weight).sum ↔ ok s l) (s : σ) (ls : List ℓ) :
    ((gather step f s ls).map weight).sum ≤ ((gather step g s ls).map weight).sum ∧
      (((gather step f s ls).map weight).sum = ((gather step g s ls).map weight).sum ↔
        Admits step ok s ls) := by
  induction ls generalizing s with
  | nil => simp [gather, Admits]
  | cons l ls ih =>
    have hhead := hle s l
    rcases hstep : step s l with _ | t
    · rw [gather, gather, hstep]
      simp only [Option.map_none, Option.getD_none, append_nil]
      refine ⟨hhead, (heq s l).trans (iff_of_eq ?_)⟩
      rw [Admits, hstep]
      simp
    · obtain ⟨hrest, hiff⟩ := ih t
      rw [gather_cons hstep, gather_cons hstep, map_append, map_append, sum_append, sum_append]
      refine ⟨by omega, ?_⟩
      rw [Admits, hstep, ← heq s l]
      simp only [Option.mem_some_iff, forall_eq', ← hiff]
      omega

/-- Calls append to a queue and take from its front. If each call takes out and leaves in the queue what was
there and what it brought in, in this order, then so does a whole run. -/
theorem gather_fifo (store : σ → List β) {taken brought : σ → ℓ → List β} {I : σ → Prop}
    (hI : ∀ s l t, I s → ok s l → step s l = some t → I t)
    (hstep : ∀ s l t, I s → ok s l → step s l = some t → taken s l ++ store t = store s ++ brought s l)
    (hs : I s) (hok : Admits step ok s ls) (h : exec step s ls = some t) :
    gather step taken s ls ++ store t = store s ++ gather step brought s ls := by
  induction ls generalizing s with
  | nil =>
    cases h
    exact (List.append_nil _).symm
  | cons l ls ih =>
    obtain ⟨u, hu, h⟩ := Option.bind_eq_some_iff.mp h
    have hrest := ih (hI s l u hs hok.1 hu) (hok.2 u hu) h
    rw [gather_cons hu, gather_cons hu, List.append_assoc, hrest, ← List.append_assoc,
      hstep s l u hs hok.1 hu, List.append_assoc]

end CampelloNet.Lib.Run
