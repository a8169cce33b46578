import CampelloNet.Lib.Floats
import CampelloNet.Lib.TokenBucket
import Mathlib.Algebra.Order.Field.Rat

/-!
# Rate limiting

The token buckets of `RateLimiter`, in the arithmetic of the machine or in an exact one, and with the
clock as an argument: one reading for each call of a limiter, where the code reads the clock again for
each bucket.
-/

namespace CampelloNet

open Lib

namespace RateLimiter

structure Bucket where
  ratePerSec : ℚ := 0
  burst : ℚ := 0
  tokens : ℚ := 0
  lastUpdate : ℚ := 0

namespace Bucket

variable (ar : Arith)

/-- The rate and the burst are floats. -/
def configure (rate burstSize now : ℚ) : Bucket :=
  let burst := max 0 (ar.single burstSize)
  ⟨max 0 (ar.single rate), burst, burst, now⟩

/-- The tokens at `now`, before anything is taken. -/
def refilled (now : ℚ) (b : Bucket) : ℚ :=
  let elapsed := ar.double (now - b.lastUpdate)
  min b.burst (ar.single (b.tokens + ar.single (ar.double (b.ratePerSec * elapsed))))

def consume (amount now : ℚ) (b : Bucket) : Bucket × Bool :=
  if b.ratePerSec ≤ 0 ∧ b.burst ≤ 0 then (b, true)
  else if amount ≤ b.refilled ar now then
    ({ b with tokens := ar.single (b.refilled ar now - amount), lastUpdate := now }, true)
  else ({ b with tokens := b.refilled ar now, lastUpdate := now }, false)

end Bucket

structure Stats where
  messagesAllowed : ℕ := 0
  messagesDropped : ℕ := 0
  bytesAllowed : ℕ := 0
  bytesDropped : ℕ := 0
  rpcsAllowed : ℕ := 0
  rpcsDropped : ℕ := 0

end RateLimiter

open RateLimiter

structure RateLimiter where
  msgBucket : Bucket := {}
  byteBucket : Bucket := {}
  rpcBucket : Bucket := {}
  stats : Stats := {}

namespace RateLimiter

variable (ar : Arith)

def allowMessage (byteSize : ℕ) (now : ℚ) (limiter : RateLimiter) : RateLimiter × Bool :=
  let (msgBucket, msgOk) := limiter.msgBucket.consume ar 1 now
  let (byteBucket, byteOk) := limiter.byteBucket.consume ar (ar.single byteSize) now
  let s := limiter.stats
  if msgOk && byteOk then
    ({ limiter with
        msgBucket := msgBucket, byteBucket := byteBucket
        stats := { s with
          messagesAllowed := s.messagesAllowed + 1, bytesAllowed := s.bytesAllowed + byteSize } },
      true)
  else
    ({ limiter with
        msgBucket := msgBucket, byteBucket := byteBucket
        stats := { s with
          messagesDropped := s.messagesDropped + 1, bytesDropped := s.bytesDropped + byteSize } },
      false)

def allowRpc (now : ℚ) (limiter : RateLimiter) : RateLimiter × Bool :=
  let (rpcBucket, ok) := limiter.rpcBucket.consume ar 1 now
  let s := limiter.stats
  ({ limiter with
      rpcBucket := rpcBucket
      stats := if ok then { s with rpcsAllowed := s.rpcsAllowed + 1 }
        else { s with rpcsDropped := s.rpcsDropped + 1 } }, ok)

/-- Both buckets are asked, and neither knows of the other. -/
theorem allowMessage_buckets (byteSize : ℕ) (now : ℚ) (limiter : RateLimiter) :
    (limiter.allowMessage ar byteSize now).1.msgBucket = (limiter.msgBucket.consume ar 1 now).1 ∧
    (limiter.allowMessage ar byteSize now).1.byteBucket =
      (limiter.byteBucket.consume ar (ar.single byteSize) now).1 ∧
    (limiter.allowMessage ar byteSize now).1.rpcBucket = limiter.rpcBucket ∧
    (limiter.allowMessage ar byteSize now).2 = ((limiter.msgBucket.consume ar 1 now).2 &&
      (limiter.byteBucket.consume ar (ar.single byteSize) now).2) := by
  unfold allowMessage
  dsimp only
  split_ifs with hok
  · exact ⟨rfl, rfl, rfl, hok.symm⟩
  · exact ⟨rfl, rfl, rfl, (Bool.not_eq_true _ ▸ hok).symm⟩

/-! ### The buckets as token buckets -/

namespace Bucket

def tokenBucket (b : Bucket) : TokenBucket ℚ := ⟨b.ratePerSec, b.burst, b.tokens, b.lastUpdate⟩

/-- The rate and the burst are both 0. -/
def Disabled (b : Bucket) : Prop := b.ratePerSec ≤ 0 ∧ b.burst ≤ 0

instance (b : Bucket) : Decidable b.Disabled := inferInstanceAs (Decidable (_ ∧ _))

section
variable {ar} {b : Bucket}

theorem consume_disabled (h : b.Disabled) (amount now : ℚ) : b.consume ar amount now = (b, true) :=
  if_pos h

theorem consume_enabled (h : ¬b.Disabled) (amount now : ℚ) : b.consume ar amount now =
    if amount ≤ b.refilled ar now then
      ({ b with tokens := ar.single (b.refilled ar now - amount), lastUpdate := now }, true)
    else ({ b with tokens := b.refilled ar now, lastUpdate := now }, false) := if_neg h

theorem consume_snd (h : ¬b.Disabled) (amount now : ℚ) :
    (b.consume ar amount now).2 = decide (amount ≤ b.refilled ar now) := by
  rw [consume_enabled h]
  split_ifs with hle <;> simp [hle]

theorem consume_limits (b : Bucket) (amount now : ℚ) :
    (b.consume ar amount now).1.ratePerSec = b.ratePerSec ∧
      (b.consume ar amount now).1.burst = b.burst := by
  unfold consume
  split_ifs <;> exact ⟨rfl, rfl⟩

theorem sound_configure (ar : Arith) (rate burstSize now : ℚ) :
    (configure ar rate burstSize now).tokenBucket.Sound :=
  ⟨le_max_left _ _, le_max_left _ _, le_refl _⟩

theorem refilled_le_burst (now : ℚ) : b.refilled ar now ≤ b.burst := min_le_left _ _

/-- A bucket with a burst that is a float stays between nothing and the burst. -/
theorem sound_consume {amount now : ℚ} (h : b.tokenBucket.Sound) (hburst : ar.single b.burst = b.burst)
    (hnow : b.lastUpdate ≤ now) (hamount : 0 ≤ amount) :
    (b.consume ar amount now).1.tokenBucket.Sound := by
  have hrefilled : 0 ≤ b.refilled ar now := by
    have hrate : 0 ≤ b.ratePerSec := h.rate
    have htokens : 0 ≤ b.tokens := h.nonneg
    have helapsed := ar.double.nonneg (sub_nonneg.mpr hnow)
    have hgain := ar.single.nonneg (ar.double.nonneg (mul_nonneg hrate helapsed))
    exact le_min (h.nonneg.trans h.le_burst) (ar.single.nonneg (add_nonneg htokens hgain))
  have hfits : b.refilled ar now ≤ b.burst := refilled_le_burst now
  unfold consume
  split_ifs with hoff hle
  · exact h
  · refine ⟨h.rate, ar.single.nonneg (sub_nonneg.mpr hle), ?_⟩
    show ar.single (b.refilled ar now - amount) ≤ b.burst
    rw [← hburst]
    exact ar.single.mono (by linarith)
  · exact ⟨h.rate, hrefilled, hfits⟩

/-- How much more a request leaves in the bucket, with what it is granted, than exact arithmetic
would. -/
def excess (amount now : ℚ) (b : Bucket) : ℚ :=
  let (next, ok) := b.consume .ieee amount now
  max 0 (next.tokens + (if ok then amount else 0) - b.tokenBucket.level now)

theorem excess_nonneg (amount now : ℚ) : 0 ≤ b.excess amount now := le_max_left _ _

/-- What is left, and what is granted, is no more than there was and the excess. -/
theorem tokens_consume_le (amount now : ℚ) :
    (b.consume .ieee amount now).1.tokens + (if (b.consume .ieee amount now).2 then amount else 0) ≤
      b.tokenBucket.level now + b.excess amount now := by
  have h : (b.consume .ieee amount now).1.tokens +
      (if (b.consume .ieee amount now).2 then amount else 0) - b.tokenBucket.level now ≤
        b.excess amount now := le_max_right _ _
  linarith

theorem holds_refilled (h : binary32.Holds b.burst) (now : ℚ) :
    binary32.Holds (b.refilled .ieee now) := by
  unfold refilled
  dsimp only
  rcases min_choice b.burst (Arith.ieee.single (b.tokens +
    Arith.ieee.single (Arith.ieee.double (b.ratePerSec * Arith.ieee.double (now - b.lastUpdate)))))
    with hmin | hmin
  · rwa [hmin]
  · rw [hmin]
    exact FloatFormat.holds_round _

/-- Up to 2^24 tokens a whole amount is taken out exactly, and only the refill is rounded. -/
theorem excess_eq_refill (henabled : ¬b.Disabled) (h : binary32.Holds b.burst)
    (hmax : b.burst ≤ 2 ^ 24) (amount : ℕ) (now : ℚ) :
    b.excess amount now = max 0 (b.refilled .ieee now - b.tokenBucket.level now) := by
  unfold excess
  rw [consume_enabled henabled]
  split_ifs with hle
  · have hfits : b.refilled .ieee now ≤ 2 ^ 24 := (refilled_le_burst now).trans hmax
    have hexact : Arith.ieee.single (b.refilled .ieee now - amount) = b.refilled .ieee now - amount :=
      ((holds_refilled h now).sub_natCast (by decide) hle hfits).round_eq
    simp only [hexact, if_true, sub_add_cancel]
  · simp

-- above 2^24 tokens one is not always missed
example : Arith.ieee.single (33554436 - 1) = 33554436 := by decide +kernel

end

/-! #### Exact arithmetic -/

/-- A bucket with a rate or a burst spends what it lets through, and nothing else. -/
theorem tokenBucket_consume {b : Bucket} (h : ¬(b.ratePerSec ≤ 0 ∧ b.burst ≤ 0)) (amount now : ℚ) :
    (b.consume .exact amount now).1.tokenBucket =
      b.tokenBucket.spend (if (b.consume .exact amount now).2 then amount else 0) now := by
  unfold consume
  rw [if_neg h]
  by_cases hle : amount ≤ b.refilled .exact now
  · rw [if_pos hle]
    rfl
  · rw [if_neg hle]
    show _ = TokenBucket.mk _ _ (b.refilled .exact now - 0) _
    rw [sub_zero]
    rfl

theorem le_level_of_consume {b : Bucket} (h : ¬(b.ratePerSec ≤ 0 ∧ b.burst ≤ 0)) {amount now : ℚ}
    (hok : (b.consume .exact amount now).2) : amount ≤ b.tokenBucket.level now := by
  unfold consume at hok
  rw [if_neg h] at hok
  split_ifs at hok with hle
  exact hle

end Bucket

end RateLimiter

end CampelloNet
