import Mathlib.Order.Basic

/-!
# Runs of a partial step function

A system is a step function `step : σ → ℓ → Option σ`: a label is one call into the system with
everything the environment decides about it, and `none` means that the call has no defined result.
`Run step ok s t` says that `t` is reached from `s` by calls that `ok` admits. What holds of every
state of a run is proved by the rules below and nowhere by an induction of its own.
-/

namespace CampelloNet.Lib

variable {σ ℓ : Type*} {step : σ → ℓ → Option σ} {ok ok' : σ → ℓ → Prop}

/-- `t` is reached from `s` by admitted steps. -/
inductive Run (step : σ → ℓ → Option σ) (ok : σ → ℓ → Prop) : σ → σ → Prop
  | refl (s : σ) : Run step ok s s
  | snoc {s t u : σ} {l : ℓ} : Run step ok s t → ok t l → step t l = some u → Run step ok s u

namespace Run

theorem single {s t : σ} {l : ℓ} (hok : ok s l) (hs : step s l = some t) : Run step ok s t :=
  .snoc (.refl s) hok hs

theorem trans {s t u : σ} (h₁ : Run step ok s t) (h₂ : Run step ok t u) : Run step ok s u := by
  induction h₂ with
  | refl => exact h₁
  | snoc _ hok hs ih => exact .snoc ih hok hs

/-- The state after a list of calls. -/
def exec (step : σ → ℓ → Option σ) : σ → List ℓ → Option σ
  | s, [] => some s
  | s, l :: ls => (step s l).bind fun t => exec step t ls

/-- Each call of a list is admitted in the state it is made in. -/
def Admits (step : σ → ℓ → Option σ) (ok : σ → ℓ → Prop) : σ → List ℓ → Prop
  | _, [] => True
  | s, l :: ls => ok s l ∧ ∀ t ∈ step s l, Admits step ok t ls

theorem Admits.of_forall {ls : List ℓ} (h : ∀ l ∈ ls, ∀ s, ok s l) (s : σ) :
    Admits step ok s ls := by
  induction ls generalizing s with
  | nil => trivial
  | cons l ls ih =>
    refine ⟨h l List.mem_cons_self s, fun t _ => ih (fun l' hl' => ?_) t⟩
    exact h l' (List.mem_cons_of_mem _ hl')

theorem Admits.mono {ls : List ℓ} {s : σ} (h : Admits step ok s ls)
    (himp : ∀ s l, ok s l → ok' s l) : Admits step ok' s ls := by
  induction ls generalizing s with
  | nil => trivial
  | cons l ls ih => exact ⟨himp s l h.1, fun t ht => ih (h.2 t ht)⟩

theorem admits_and {s : σ} {ls : List ℓ} :
    Admits step (fun s l => ok s l ∧ ok' s l) s ls ↔ Admits step ok s ls ∧ Admits step ok' s ls := by
  induction ls generalizing s with
  | nil => exact iff_of_true trivial ⟨trivial, trivial⟩
  | cons l ls ih =>
    unfold Admits
    simp only [ih, forall₂_and]
    exact and_and_and_comm

instance decidableAdmits [∀ s l, Decidable (ok s l)] :
    ∀ s ls, Decidable (Admits step ok s ls)
  | _, [] => isTrue trivial
  | s, l :: ls =>
    have : DecidablePred fun t => Admits step ok t ls := fun t => decidableAdmits t ls
    inferInstanceAs (Decidable (ok s l ∧ ∀ t ∈ step s l, Admits step ok t ls))

theorem admits_map {ℓ' : Type*} (f : ℓ' → ℓ) (s : σ) (ls : List ℓ') :
    Admits step ok s (ls.map f) ↔
      Admits (fun s l => step s (f l)) (fun s l => ok s (f l)) s ls := by
  induction ls generalizing s with
  | nil => exact Iff.rfl
  | cons l ls ih => exact and_congr_right fun _ => forall₂_congr fun t _ => ih t

/-- In the states of an invariant the same calls are admitted. -/
theorem admits_iff_of_invariant {I : σ → Prop} (hI : ∀ s l t, I s → step s l = some t → I t)
    (hok : ∀ s l, I s → (ok s l ↔ ok' s l)) {s : σ} (ls : List ℓ) (hs : I s) :
    Admits step ok s ls ↔ Admits step ok' s ls := by
  induction ls generalizing s with
  | nil => exact Iff.rfl
  | cons l ls ih => exact and_congr (hok s l hs) (forall₂_congr fun t ht => ih (hI s l t hs ht))

/-- If the same calls are admitted in the states of `P`, and what the first admits keeps `P`, then the same
runs are admitted. -/
theorem admits_iff_of_keeps {P : σ → Prop} {ls : List ℓ}
    (hiff : ∀ s, ∀ l ∈ ls, P s → (ok s l ↔ ok' s l))
    (hP : ∀ s, ∀ l ∈ ls, ∀ t, P s → ok s l → step s l = some t → P t) {s : σ} (hs : P s) :
    Admits step ok s ls ↔ Admits step ok' s ls := by
  induction ls generalizing s with
  | nil => exact Iff.rfl
  | cons l ls ih =>
    have hhead := hiff s l List.mem_cons_self hs
    have hrest : ok s l → ∀ t ∈ step s l, (Admits step ok t ls ↔ Admits step ok' t ls) := by
      intro hok t ht
      apply ih
      · exact fun s' l' hl' => hiff s' l' (List.mem_cons_of_mem _ hl')
      · exact fun s' l' hl' => hP s' l' (List.mem_cons_of_mem _ hl')
      · exact hP s l List.mem_cons_self t hs hok ht
    constructor
    · rintro ⟨hok, h⟩
      exact ⟨hhead.mp hok, fun t ht => (hrest hok t ht).mp (h t ht)⟩
    · rintro ⟨hok, h⟩
      have hok' := hhead.mpr hok
      exact ⟨hok', fun t ht => (hrest hok' t ht).mpr (h t ht)⟩

/-- Where the admitted calls are those with a defined result, so are the admitted runs. -/
theorem isSome_exec_iff {I : σ → Prop} (hI : ∀ s l t, I s → step s l = some t → I t)
    (hok : ∀ s l, I s → ((step s l).isSome ↔ ok s l)) {s : σ} (ls : List ℓ) (hs : I s) :
    (exec step s ls).isSome ↔ Admits step ok s ls := by
  induction ls generalizing s with
  | nil => exact iff_of_true rfl trivial
  | cons l ls ih =>
    rw [exec, Admits, ← hok s l hs]
    rcases hstep : step s l with _ | t
    · simp
    · have hnext := ih (hI s l t hs hstep)
      simpa using hnext

/-- `P` holds of every state that a list of calls goes through. -/
def Always (step : σ → ℓ → Option σ) (P : σ → Prop) : σ → List ℓ → Prop
  | s, [] => P s
  | s, l :: ls => P s ∧ ∀ t ∈ step s l, Always step P t ls

/-- If it is the admitted calls that keep `P`, then `P` holds throughout exactly in the runs of
admitted calls. -/
theorem always_iff_admits {I P : σ → Prop} (hI : ∀ s l t, I s → step s l = some t → I t)
    (hP : ∀ s l t, I s → P s → step s l = some t → (P t ↔ ok s l))
    (hnone : ∀ s l, I s → step s l = none → ok s l) {s : σ} (ls : List ℓ) (hs : I s) (h : P s) :
    Always step P s ls ↔ Admits step ok s ls := by
  induction ls generalizing s with
  | nil => exact iff_of_true h trivial
  | cons l ls ih =>
    unfold Always Admits
    rcases hstep : step s l with _ | t
    · simp [h, hnone s l hs hstep]
    · have hiff := hP s l t hs h hstep
      have hnext := hI s l t hs hstep
      simp only [Option.mem_some_iff, forall_eq', h, true_and]
      constructor
      · intro halways
        have hPt : P t := by
          cases ls with
          | nil => exact halways
          | cons => exact halways.1
        exact ⟨hiff.mp hPt, (ih hnext hPt).mp halways⟩
      · rintro ⟨hok, hadmits⟩
        exact (ih hnext (hiff.mpr hok)).mpr hadmits

theorem exec_append (s : σ) (ls ls' : List ℓ) :
    exec step s (ls ++ ls') = (exec step s ls).bind fun t => exec step t ls' := by
  induction ls generalizing s with
  | nil => rfl
  | cons l ls ih =>
    rw [List.cons_append, exec, exec]
    rcases step s l with _ | t
    · rfl
    · exact ih t

theorem Admits.append {s : σ} {ls ls' : List ℓ} (h : Admits step ok s (ls ++ ls')) :
    Admits step ok s ls ∧ ∀ t ∈ exec step s ls, Admits step ok t ls' := by
  induction ls generalizing s with
  | nil =>
    refine ⟨trivial, fun t ht => ?_⟩
    cases ht
    exact h
  | cons l ls ih =>
    refine ⟨⟨h.1, fun t ht => (ih (h.2 t ht)).1⟩, fun t ht => ?_⟩
    obtain ⟨u, hu, ht⟩ := Option.bind_eq_some_iff.mp ht
    exact (ih (h.2 u hu)).2 t ht

/-- A call in the middle of a list is admitted in the state it is made in. -/
theorem Admits.mid {s t : σ} {ls ls' : List ℓ} {l : ℓ} (h : Admits step ok s (ls ++ l :: ls'))
    (ht : exec step s ls = some t) : ok t l := (h.append.2 t ht).1

/-- Executing admitted calls is a run. -/
theorem of_exec {s t : σ} (ls : List ℓ) (h : exec step s ls = some t)
    (hok : Admits step ok s ls) : Run step ok s t := by
  induction ls generalizing s with
  | nil =>
    cases h
    exact .refl _
  | cons l ls ih =>
    obtain ⟨u, hu, h⟩ := Option.bind_eq_some_iff.mp h
    exact (single hok.1 hu).trans (ih h (hok.2 u hu))

/-- The invariant rule. -/
theorem invariant {I : σ → Prop} {s t : σ} (h : Run step ok s t) (h0 : I s)
    (hstep : ∀ t l u, I t → ok t l → step t l = some u → I u) : I t := by
  induction h with
  | refl => exact h0
  | snoc _ ho hs ih => exact hstep _ _ _ ih ho hs

/-- The invariant rule for an executed list of calls. -/
theorem invariant_exec {I : σ → Prop} {s t : σ} {ls : List ℓ} (h : exec step s ls = some t)
    (h0 : I s) (hstep : ∀ t l u, I t → step t l = some u → I u) : I t := by
  induction ls generalizing s with
  | nil =>
    cases h
    exact h0
  | cons l ls ih =>
    obtain ⟨u, hu, h⟩ := Option.bind_eq_some_iff.mp h
    exact ih h (hstep _ _ _ h0 hu)

/-- The invariant rule for an invariant that needs a growing measure to stay below a bound. -/
theorem invariant_below {β : Type*} [Preorder β] {m : σ → β} {N : β} {I : σ → Prop} {s t : σ}
    (h : Run step ok s t) (h0 : I s) (hm : ∀ t l u, ok t l → step t l = some u → m t ≤ m u)
    (hstep : ∀ t l u, I t → ok t l → step t l = some u → m u < N → I u) (hN : m t < N) : I t := by
  induction h with
  | refl => exact h0
  | snoc _ ho hs ih => exact hstep _ _ _ (ih (lt_of_le_of_lt (hm _ _ _ ho hs) hN)) ho hs hN

end Run

end CampelloNet.Lib
