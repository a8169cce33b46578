import Mathlib.Algebra.Order.Field.Basic
import Mathlib.Tactic.Linarith
import Mathlib.Tactic.Ring

/-!
# Token buckets

A bucket that gains tokens at a constant rate, up to its burst, and from which tokens are spent. What
was spent since some instant and what is left never exceed the burst and what has come in since.
-/

namespace CampelloNet.Lib

structure TokenBucket (K : Type*) where
  rate : K
  burst : K
  /-- what there was at `last` -/
  tokens : K
  last : K

namespace TokenBucket

variable {K : Type*} [Field K] [LinearOrder K] (b : TokenBucket K)

/-- The tokens at time `t`. -/
def level (t : K) : K := min b.burst (b.tokens + b.rate * (t - b.last))

/-- The bucket when an amount has been spent at time `t`. -/
def spend (amount t : K) : TokenBucket K := { b with tokens := b.level t - amount, last := t }

structure Sound : Prop where
  rate : 0 ≤ b.rate
  nonneg : 0 ≤ b.tokens
  le_burst : b.tokens ≤ b.burst

/-- Of a bucket from which so much was spent since `start`, what is left at `t` is still covered. -/
def Covers (spent start t : K) : Prop := spent + b.level t ≤ b.burst + b.rate * (t - start)

variable {b} {amount spent start t t' : K}

theorem level_le_burst : b.level t ≤ b.burst := min_le_left _ _

variable [IsStrictOrderedRing K]

theorem level_nonneg (h : b.Sound) (ht : b.last ≤ t) : 0 ≤ b.level t := by
  have hnonneg := h.nonneg
  have hgain : 0 ≤ b.rate * (t - b.last) := mul_nonneg h.rate (sub_nonneg.mpr ht)
  exact le_min (hnonneg.trans h.le_burst) (by linarith)

/-- Tokens come in at the rate at most. -/
theorem level_later (hrate : 0 ≤ b.rate) (h : t ≤ t') :
    b.level t' ≤ b.level t + b.rate * (t' - t) := by
  have hgain : 0 ≤ b.rate * (t' - t) := mul_nonneg hrate (sub_nonneg.mpr h)
  unfold level
  rcases min_choice b.burst (b.tokens + b.rate * (t - b.last)) with hmin | hmin
  · rw [hmin]
    exact (min_le_left _ _).trans (by linarith)
  · rw [hmin]
    refine (min_le_right _ _).trans (le_of_eq ?_)
    ring

/-- The tokens at a time can be counted from those of any time before. -/
theorem level_eq_min (hrate : 0 ≤ b.rate) (h : t ≤ t') :
    b.level t' = min b.burst (b.level t + b.rate * (t' - t)) := by
  have hgain : 0 ≤ b.rate * (t' - t) := mul_nonneg hrate (sub_nonneg.mpr h)
  have hsum : b.tokens + b.rate * (t' - b.last) = b.tokens + b.rate * (t - b.last) + b.rate * (t' - t) := by
    ring
  unfold level
  rw [hsum]
  rcases le_total b.burst (b.tokens + b.rate * (t - b.last)) with hfull | hroom
  · rw [min_eq_left hfull, min_eq_left (by linarith), min_eq_left (by linarith)]
  · rw [min_eq_right hroom]

theorem level_spend (hamount : 0 ≤ amount) : (b.spend amount t).level t = b.level t - amount := by
  have hle : b.level t - amount ≤ b.burst := by
    have := level_le_burst (b := b) (t := t)
    linarith
  show min b.burst (b.level t - amount + b.rate * (t - t)) = _
  rw [sub_self, mul_zero, add_zero, min_eq_right hle]

theorem Sound.spend (h : b.Sound) (hamount : 0 ≤ amount) (hle : amount ≤ b.level t) :
    (b.spend amount t).Sound := by
  have hburst := level_le_burst (b := b) (t := t)
  exact ⟨h.rate, sub_nonneg.mpr hle, show b.level t - amount ≤ b.burst by linarith⟩

namespace Covers

/-- Nothing has been spent yet. -/
theorem zero (hrate : 0 ≤ b.rate) (h : start ≤ t) : b.Covers 0 start t := by
  have hburst := level_le_burst (b := b) (t := t)
  have hgain : 0 ≤ b.rate * (t - start) := mul_nonneg hrate (sub_nonneg.mpr h)
  unfold Covers
  linarith

theorem later (h : b.Covers spent start t) (hrate : 0 ≤ b.rate) (ht : t ≤ t') :
    b.Covers spent start t' := by
  have hlevel := level_later hrate ht
  unfold Covers at h ⊢
  calc spent + b.level t' ≤ spent + b.level t + b.rate * (t' - t) := by linarith
    _ ≤ b.burst + b.rate * (t - start) + b.rate * (t' - t) := by linarith
    _ = b.burst + b.rate * (t' - start) := by ring

theorem spend (h : b.Covers spent start t) (hamount : 0 ≤ amount) :
    (b.spend amount t).Covers (spent + amount) start t := by
  unfold Covers at h ⊢
  rw [level_spend hamount]
  show spent + amount + (b.level t - amount) ≤ b.burst + b.rate * (t - start)
  linarith

/-- A bucket in which so much too much was left, beside what was taken, covers so much less. -/
theorem settle {b' : TokenBucket K} {excess : K} (h : b.Covers spent start t)
    (hrate : b'.rate = b.rate) (hburst : b'.burst = b.burst) (hlast : b'.last = t)
    (htokens : b'.tokens + amount ≤ b.level t + excess) :
    b'.Covers (spent + amount - excess) start t := by
  have hlevel : b'.level t ≤ b'.tokens := by
    refine (min_le_right _ _).trans (le_of_eq ?_)
    rw [hlast, sub_self, mul_zero, add_zero]
  unfold Covers at h ⊢
  rw [hrate, hburst]
  linarith

/-- What was spent is bounded by the burst and what has come in. -/
theorem bound (h : b.Covers spent start t) (hlevel : 0 ≤ b.level t) :
    spent ≤ b.burst + b.rate * (t - start) := by
  unfold Covers at h
  linarith

end Covers

/-! ### Requests one after the other -/

/-- What a request is granted, and when. -/
structure Grant (K : Type*) where
  amount : K
  time : K

/-- The bucket grants the amounts one after the other, each out of what there is, and becomes the
other. What is granted nothing may leave the bucket as it is. -/
inductive Grants : TokenBucket K → List (Grant K) → TokenBucket K → Prop
  | nil (b : TokenBucket K) : Grants b [] b
  | spend {b b' : TokenBucket K} {g : Grant K} {gs : List (Grant K)} (time : b.last ≤ g.time)
      (nonneg : 0 ≤ g.amount) (covered : g.amount ≤ b.level g.time)
      (rest : Grants (b.spend g.amount g.time) gs b') : Grants b (g :: gs) b'
  | idle {b b' : TokenBucket K} {gs : List (Grant K)} (time : K) (rest : Grants b gs b') :
      Grants b (⟨0, time⟩ :: gs) b'

/-- What is granted from one time to another. -/
def granted (s e : K) (gs : List (Grant K)) : K :=
  (gs.map fun g => if s ≤ g.time ∧ g.time ≤ e then g.amount else 0).sum

variable {s e : K} {gs : List (Grant K)} {b' : TokenBucket K}

omit [IsStrictOrderedRing K] in
@[simp] theorem granted_nil : granted s e [] = 0 := rfl

omit [IsStrictOrderedRing K] in
@[simp] theorem granted_cons (g : Grant K) : granted s e (g :: gs) =
    (if s ≤ g.time ∧ g.time ≤ e then g.amount else 0) + granted s e gs := by
  simp [granted]

theorem Grants.sound (h : Grants b gs b') (hb : b.Sound) : b'.Sound := by
  induction h with
  | nil => exact hb
  | spend _ hnonneg hcovered _ ih => exact ih (hb.spend hnonneg hcovered)
  | idle _ _ ih => exact ih hb

omit [IsStrictOrderedRing K] in
theorem Grants.burst_eq (h : Grants b gs b') : b'.burst = b.burst := by
  induction h with
  | nil => rfl
  | spend _ _ _ _ ih => exact ih
  | idle _ _ ih => exact ih

omit [IsStrictOrderedRing K] in
/-- After the end of an interval nothing is granted in it. -/
theorem Grants.granted_eq_zero (h : Grants b gs b') (hlast : e < b.last) : granted s e gs = 0 := by
  induction h with
  | nil => rfl
  | @spend b b' g gs htime _ _ _ ih =>
    have hlate : e < g.time := lt_of_lt_of_le hlast htime
    rw [granted_cons, if_neg fun hin => absurd hin.2 (not_le.mpr hlate), zero_add]
    exact ih hlate
  | idle _ _ ih => simp [ih hlast]

/-- Within an interval, what has been granted since its start and what is granted in the rest of it
are bounded by the burst and what comes in. -/
theorem Grants.granted_le_inside (h : Grants b gs b') (hb : b.Sound) {spent : K}
    (hcovers : b.Covers spent s b.last) (hend : b.last ≤ e) :
    spent + granted s e gs ≤ b.burst + b.rate * (e - s) := by
  have hbound : ∀ {b : TokenBucket K} {spent : K}, b.Sound → b.Covers spent s b.last → b.last ≤ e →
      spent ≤ b.burst + b.rate * (e - s) := by
    intro b spent hb hcovers hend
    exact (hcovers.later hb.rate hend).bound (level_nonneg hb hend)
  induction h generalizing spent with
  | nil => simpa using hbound hb hcovers hend
  | @spend b b' g gs htime hnonneg hcovered hrest ih =>
    rw [granted_cons]
    by_cases hlate : g.time ≤ e
    · have hnext := ih (hb.spend hnonneg hcovered) ((hcovers.later hb.rate htime).spend hnonneg) hlate
      have hle : (if s ≤ g.time ∧ g.time ≤ e then g.amount else 0) ≤ g.amount := by
        split_ifs
        · exact le_refl _
        · exact hnonneg
      change spent + g.amount + granted s e gs ≤ b.burst + b.rate * (e - s) at hnext
      linarith
    · rw [if_neg fun hin => hlate hin.2, hrest.granted_eq_zero (not_le.mp hlate), add_zero, add_zero]
      exact hbound hb hcovers hend
  | idle _ _ ih => simpa using ih hb hcovers hend

/-- In any interval no more is granted than the burst and what comes in during the interval. -/
theorem Grants.granted_le (h : Grants b gs b') (hb : b.Sound) (hse : s ≤ e) :
    granted s e gs ≤ b.burst + b.rate * (e - s) := by
  induction h with
  | nil b =>
    have hburst : 0 ≤ b.burst := hb.nonneg.trans hb.le_burst
    have hgain : 0 ≤ b.rate * (e - s) := mul_nonneg hb.rate (sub_nonneg.mpr hse)
    rw [granted_nil]
    linarith
  | @spend b b' g gs htime hnonneg hcovered hrest ih =>
    rw [granted_cons]
    by_cases hin : s ≤ g.time ∧ g.time ≤ e
    · have hstart : (b.spend g.amount g.time).Covers (0 + g.amount) s g.time :=
        (Covers.zero hb.rate hin.1).spend hnonneg
      have hrest := hrest.granted_le_inside (hb.spend hnonneg hcovered) hstart hin.2
      rw [if_pos hin]
      rwa [zero_add] at hrest
    · rw [if_neg hin, zero_add]
      exact ih (hb.spend hnonneg hcovered)
  | idle _ _ ih => simpa using ih hb

end TokenBucket

end CampelloNet.Lib
