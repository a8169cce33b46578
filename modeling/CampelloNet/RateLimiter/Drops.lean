import CampelloNet.RateLimiter
import Mathlib.Data.Rat.Floor

/-!
# What a dropped message costs

`allow_message` asks two buckets before it decides, and a bucket that has enough is charged even if the
other has not. A dropped message changes nothing for the calls after it exactly if no bucket was
charged (`drop_uncharged_iff`).
-/

namespace CampelloNet

open Lib

namespace RateLimiter

/-! ### Buckets -/

namespace Bucket

/-- A request takes nothing out of the bucket: there is no limit, or nothing is asked for, or there is
too little. -/
def Uncharged (amount now : ℚ) (b : Bucket) : Prop := b.Disabled ∨ amount = 0 ∨ b.refilled .exact now < amount

/-- The bucket is as the calls up to a time can have left it. -/
def Ready (t : ℚ) (b : Bucket) : Prop := b.Disabled ∨ b.tokenBucket.Sound ∧ b.lastUpdate ≤ t

/-- From a time on there is as much in the one bucket as in the other. -/
structure Alike (t : ℚ) (b b' : Bucket) : Prop where
  rate : b'.ratePerSec = b.ratePerSec
  burst : b'.burst = b.burst
  refilled : ¬b.Disabled → ∀ t', t ≤ t' → b'.refilled .exact t' = b.refilled .exact t'

variable {b b' : Bucket} {amount now t t' : ℚ}

theorem Alike.refl (t : ℚ) (b : Bucket) : Alike t b b := ⟨rfl, rfl, fun _ _ _ => rfl⟩

theorem Alike.disabled_iff (h : Alike t b b') : b'.Disabled ↔ b.Disabled := by
  unfold Disabled
  rw [h.rate, h.burst]

theorem Ready.later (h : b.Ready t) (ht : t ≤ t') : b.Ready t' := by
  rcases h with hdisabled | ⟨hsound, hlast⟩
  · exact .inl hdisabled
  · exact .inr ⟨hsound, hlast.trans ht⟩

theorem ready_configure (rate burst now : ℚ) : (configure .exact rate burst now).Ready now :=
  .inr ⟨sound_configure .exact rate burst now, le_refl now⟩

theorem Ready.consume (h : b.Ready t) (ht : t ≤ now) (hamount : 0 ≤ amount) :
    (b.consume .exact amount now).1.Ready now := by
  rcases h with hdisabled | ⟨hsound, hlast⟩
  · rw [consume_disabled hdisabled]
    exact .inl hdisabled
  · by_cases hdisabled : b.Disabled
    · rw [consume_disabled hdisabled]
      exact .inl hdisabled
    · have hspent := tokenBucket_consume hdisabled amount now
      have hlevel := TokenBucket.level_nonneg hsound (hlast.trans ht)
      refine .inr ⟨?_, le_of_eq (congrArg TokenBucket.last hspent)⟩
      rw [hspent]
      split_ifs with hok
      · exact hsound.spend hamount (le_level_of_consume hdisabled hok)
      · exact hsound.spend (le_refl 0) hlevel

theorem refilled_consume (h : ¬b.Disabled) (hamount : 0 ≤ amount) (hle : amount ≤ b.refilled .exact now) :
    (b.consume .exact amount now).1.refilled .exact now = b.refilled .exact now - amount := by
  have hspent := tokenBucket_consume h amount now
  have hok : (b.consume .exact amount now).2 = true := by rw [consume_enabled h, if_pos hle]
  rw [hok, if_pos rfl] at hspent
  have hlevel := TokenBucket.level_spend (b := b.tokenBucket) (t := now) hamount
  rw [← hspent] at hlevel
  exact hlevel

theorem disabled_consume_iff : (b.consume .exact amount now).1.Disabled ↔ b.Disabled := by
  unfold Disabled consume
  split_ifs <;> exact Iff.rfl

/-- Of buckets that are alike a request takes the same. -/
theorem Alike.consume (h : Alike t b b') (ht : t ≤ now) (amount : ℚ) :
    Alike now (b.consume .exact amount now).1 (b'.consume .exact amount now).1 ∧
      (b'.consume .exact amount now).2 = (b.consume .exact amount now).2 := by
  by_cases hdisabled : b.Disabled
  · rw [consume_disabled hdisabled, consume_disabled (h.disabled_iff.mpr hdisabled)]
    exact ⟨⟨h.rate, h.burst, fun hno => absurd hdisabled hno⟩, rfl⟩
  · have hsame : (b'.consume .exact amount now) = b.consume .exact amount now := by
      rw [consume_enabled hdisabled, consume_enabled fun hno => hdisabled (h.disabled_iff.mp hno),
        h.refilled hdisabled now ht]
      simp only [h.rate, h.burst]
    rw [hsame]
    exact ⟨.refl now _, rfl⟩

/-- After a request there is still as much in the bucket if and only if nothing was taken. -/
theorem alike_consume_iff (h : b.Ready now) (hamount : 0 ≤ amount) :
    Alike now b (b.consume .exact amount now).1 ↔ b.Uncharged amount now := by
  by_cases hdisabled : b.Disabled
  · rw [consume_disabled hdisabled]
    exact iff_of_true (.refl now b) (.inl hdisabled)
  · obtain ⟨hsound, -⟩ := h.resolve_left hdisabled
    have hrefill : ∀ t', now ≤ t' →
        min b.burst (b.refilled .exact now + b.ratePerSec * (t' - now)) = b.refilled .exact t' := by
      intro t' ht'
      exact (TokenBucket.level_eq_min hsound.rate ht').symm
    rw [consume_enabled hdisabled]
    split_ifs with hle
    · constructor
      · intro halike
        have hnow := halike.refilled hdisabled now (le_refl now)
        have hroom : b.refilled .exact now ≤ b.burst := min_le_left _ _
        have hleft : min b.burst (b.refilled .exact now - amount + b.ratePerSec * (now - now)) =
            b.refilled .exact now - amount := by
          rw [sub_self, mul_zero, add_zero]
          exact min_eq_right (by linarith)
        change min b.burst (b.refilled .exact now - amount + b.ratePerSec * (now - now)) =
          b.refilled .exact now at hnow
        exact .inr (.inl (by linarith))
      · rintro (hno | rfl | hlt)
        · exact absurd hno hdisabled
        · refine ⟨rfl, rfl, fun _ t' ht' => ?_⟩
          rw [sub_zero]
          exact hrefill t' ht'
        · exact absurd hle (not_le.mpr hlt)
    · exact iff_of_true ⟨rfl, rfl, fun _ t' ht' => hrefill t' ht'⟩ (.inr (.inr (not_le.mp hle)))

end Bucket

/-! ### Calls of a limiter -/

inductive Call
  | configureMessages (rate burst : ℚ)
  | configureBytes (rate burst : ℚ)
  | configureRpcs (rate burst : ℚ)
  | allowMessage (byteSize : ℕ)
  | allowRpc
  | resetStats

/-- A call at a time, and what it returns if it returns something. -/
def call (now : ℚ) (limiter : RateLimiter) : Call → RateLimiter × Option Bool
  | .configureMessages rate burst => ({ limiter with msgBucket := .configure .exact rate burst now }, none)
  | .configureBytes rate burst => ({ limiter with byteBucket := .configure .exact rate burst now }, none)
  | .configureRpcs rate burst => ({ limiter with rpcBucket := .configure .exact rate burst now }, none)
  | .allowMessage byteSize => (limiter.allowMessage .exact byteSize now).map id some
  | .allowRpc => (limiter.allowRpc .exact now).map id some
  | .resetStats => ({ limiter with stats := {} }, none)

def after (calls : List (ℚ × Call)) (limiter : RateLimiter) : RateLimiter :=
  calls.foldl (fun limiter c => (limiter.call c.1 c.2).1) limiter

/-- What the calls return. -/
def results : List (ℚ × Call) → RateLimiter → List (Option Bool)
  | [], _ => []
  | (now, c) :: calls, limiter => (limiter.call now c).2 :: results calls (limiter.call now c).1

/-- The calls come in the order of their times, none before the given one. -/
def InOrder : ℚ → List (ℚ × Call) → Prop
  | _, [] => True
  | t, (now, _) :: calls => t ≤ now ∧ InOrder now calls

structure Ready (t : ℚ) (limiter : RateLimiter) : Prop where
  msg : limiter.msgBucket.Ready t
  byte : limiter.byteBucket.Ready t
  rpc : limiter.rpcBucket.Ready t

structure Alike (t : ℚ) (limiter limiter' : RateLimiter) : Prop where
  msg : limiter.msgBucket.Alike t limiter'.msgBucket
  byte : limiter.byteBucket.Alike t limiter'.byteBucket
  rpc : limiter.rpcBucket.Alike t limiter'.rpcBucket

variable {limiter limiter' : RateLimiter} {t now : ℚ} {byteSize : ℕ}

theorem allowMessage_spec (byteSize : ℕ) (now : ℚ) (limiter : RateLimiter) :
    (limiter.allowMessage .exact byteSize now).1.msgBucket = (limiter.msgBucket.consume .exact 1 now).1 ∧
    (limiter.allowMessage .exact byteSize now).1.byteBucket =
      (limiter.byteBucket.consume .exact byteSize now).1 ∧
    (limiter.allowMessage .exact byteSize now).1.rpcBucket = limiter.rpcBucket ∧
    (limiter.allowMessage .exact byteSize now).2 = ((limiter.msgBucket.consume .exact 1 now).2 &&
      (limiter.byteBucket.consume .exact byteSize now).2) :=
  allowMessage_buckets .exact byteSize now limiter

theorem Ready.later {t' : ℚ} (h : limiter.Ready t) (ht : t ≤ t') : limiter.Ready t' :=
  ⟨h.msg.later ht, h.byte.later ht, h.rpc.later ht⟩

theorem Ready.call (h : limiter.Ready t) (ht : t ≤ now) (c : Call) :
    (limiter.call now c).1.Ready now := by
  have hnow := h.later ht
  cases c with
  | configureMessages rate burst => exact ⟨Bucket.ready_configure rate burst now, hnow.byte, hnow.rpc⟩
  | configureBytes rate burst => exact ⟨hnow.msg, Bucket.ready_configure rate burst now, hnow.rpc⟩
  | configureRpcs rate burst => exact ⟨hnow.msg, hnow.byte, Bucket.ready_configure rate burst now⟩
  | allowMessage byteSize =>
    obtain ⟨hmsg, hbyte, hrpc, -⟩ := allowMessage_spec byteSize now limiter
    show ((limiter.allowMessage .exact byteSize now).1).Ready now
    constructor
    · rw [hmsg]
      exact h.msg.consume ht zero_le_one
    · rw [hbyte]
      exact h.byte.consume ht (Nat.cast_nonneg byteSize)
    · rw [hrpc]
      exact hnow.rpc
  | allowRpc => exact ⟨hnow.msg, hnow.byte, h.rpc.consume ht zero_le_one⟩
  | resetStats => exact ⟨hnow.msg, hnow.byte, hnow.rpc⟩

/-- A call finds the limiter as the calls before it have left it. -/
theorem Ready.after {calls : List (ℚ × Call)} {c : Call} (h : limiter.Ready t)
    (horder : InOrder t (calls ++ [(now, c)])) : (limiter.after calls).Ready now := by
  induction calls generalizing limiter t with
  | nil => exact h.later horder.1
  | cons c' calls ih =>
    obtain ⟨htime, hrest⟩ := horder
    exact ih (h.call htime c'.2) hrest

/-- Limiters that are alike answer alike, and stay so. -/
theorem Alike.call (h : limiter.Alike t limiter') (ht : t ≤ now) (c : Call) :
    (limiter.call now c).1.Alike now (limiter'.call now c).1 ∧
      (limiter'.call now c).2 = (limiter.call now c).2 := by
  have hlater : ∀ {b b' : Bucket}, b.Alike t b' → b.Alike now b' := fun hb =>
    ⟨hb.rate, hb.burst, fun hno t' ht' => hb.refilled hno t' (ht.trans ht')⟩
  have hmsg := hlater h.msg
  have hbyte := hlater h.byte
  have hrpc := hlater h.rpc
  cases c with
  | configureMessages rate burst => exact ⟨⟨.refl now _, hbyte, hrpc⟩, rfl⟩
  | configureBytes rate burst => exact ⟨⟨hmsg, .refl now _, hrpc⟩, rfl⟩
  | configureRpcs rate burst => exact ⟨⟨hmsg, hbyte, .refl now _⟩, rfl⟩
  | allowMessage byteSize =>
    obtain ⟨hm, hb, hr, hok⟩ := allowMessage_spec byteSize now limiter
    obtain ⟨hm', hb', hr', hok'⟩ := allowMessage_spec byteSize now limiter'
    obtain ⟨hmsgs, hmsgOk⟩ := h.msg.consume ht 1
    obtain ⟨hbytes, hbyteOk⟩ := h.byte.consume ht byteSize
    show (limiter.allowMessage .exact byteSize now).1.Alike now (limiter'.allowMessage .exact byteSize now).1 ∧
      some (limiter'.allowMessage .exact byteSize now).2 = some (limiter.allowMessage .exact byteSize now).2
    refine ⟨⟨?_, ?_, ?_⟩, ?_⟩
    · rwa [hm, hm']
    · rwa [hb, hb']
    · rwa [hr, hr']
    · rw [hok, hok', hmsgOk, hbyteOk]
  | allowRpc =>
    obtain ⟨hrpcs, hrpcOk⟩ := h.rpc.consume ht 1
    exact ⟨⟨hmsg, hbyte, hrpcs⟩, congrArg some hrpcOk⟩
  | resetStats => exact ⟨⟨hmsg, hbyte, hrpc⟩, rfl⟩

theorem Alike.results (calls : List (ℚ × Call)) (h : limiter.Alike t limiter')
    (horder : InOrder t calls) : results calls limiter' = results calls limiter := by
  induction calls generalizing limiter limiter' t with
  | nil => rfl
  | cons c calls ih =>
    obtain ⟨htime, hrest⟩ := horder
    obtain ⟨hnext, hsame⟩ := h.call htime c.2
    show _ :: _ = _ :: _
    rw [hsame, ih hnext hrest]

/-- What a message takes, dropped or not, leaves the limiter alike if no bucket is charged. -/
theorem alike_allowMessage (h : limiter.Ready now) (hmsg : limiter.msgBucket.Uncharged 1 now)
    (hbyte : limiter.byteBucket.Uncharged byteSize now) :
    limiter.Alike now (limiter.allowMessage .exact byteSize now).1 := by
  obtain ⟨hm, hb, hr, -⟩ := allowMessage_spec byteSize now limiter
  constructor
  · rw [hm]
    exact (Bucket.alike_consume_iff h.msg zero_le_one).mpr hmsg
  · rw [hb]
    exact (Bucket.alike_consume_iff h.byte (Nat.cast_nonneg byteSize)).mpr hbyte
  · rw [hr]
    exact .refl now _

/-! ### Calls that tell the difference -/

/-- One message after the other at the same time is let through until the bucket is empty. -/
theorem results_replicate (limiter : RateLimiter) (hbyte : limiter.byteBucket.Disabled)
    (hmsg : ¬limiter.msgBucket.Disabled) (hlevel : 0 ≤ limiter.msgBucket.refilled .exact now) (k : ℕ) :
    results (List.replicate k (now, .allowMessage 0)) limiter = List.replicate k (some true) ↔
      (k : ℚ) ≤ limiter.msgBucket.refilled .exact now := by
  induction k generalizing limiter with
  | zero => simpa [results] using hlevel
  | succ k ih =>
    obtain ⟨hm, hb, -, hok⟩ := allowMessage_spec 0 now limiter
    have hfirst : (limiter.allowMessage .exact 0 now).2 =
        decide (1 ≤ limiter.msgBucket.refilled .exact now) := by
      rw [hok, Bucket.consume_snd hmsg, Bucket.consume_disabled hbyte, Bool.and_true]
    rw [List.replicate_succ, List.replicate_succ]
    show some (limiter.allowMessage .exact 0 now).2 ::
      results (List.replicate k (now, .allowMessage 0)) (limiter.allowMessage .exact 0 now).1 = _ ↔ _
    rw [List.cons.injEq, Option.some.injEq, hfirst, decide_eq_true_eq, Nat.cast_add, Nat.cast_one]
    constructor
    · rintro ⟨hone, hrest⟩
      have hleft := Bucket.refilled_consume hmsg zero_le_one hone
      rw [ih _ (by rwa [hb, Bucket.disabled_consume_iff]) (by rwa [hm, Bucket.disabled_consume_iff])
        (by rw [hm, hleft]; linarith), hm, hleft] at hrest
      linarith
    · intro hk
      have hknonneg : (0 : ℚ) ≤ k := Nat.cast_nonneg k
      have hone : 1 ≤ limiter.msgBucket.refilled .exact now := by linarith
      have hleft := Bucket.refilled_consume hmsg zero_le_one hone
      refine ⟨hone, ?_⟩
      rw [ih _ (by rwa [hb, Bucket.disabled_consume_iff]) (by rwa [hm, Bucket.disabled_consume_iff])
        (by rw [hm, hleft]; linarith), hm, hleft]
      linarith

theorem inOrder_replicate (now : ℚ) (c : Call) (k : ℕ) :
    InOrder now (List.replicate k (now, c)) := by
  induction k with
  | zero => trivial
  | succ k ih => exact ⟨le_refl now, ih⟩

/-- Once there is no limit on bytes, the messages that are let through show that one was charged. -/
theorem msg_uncharged (hmsg : limiter'.msgBucket = (limiter.msgBucket.consume .exact 1 now).1)
    (hsame : ∀ later, InOrder now later → results later limiter' = results later limiter) :
    limiter.msgBucket.Uncharged 1 now := by
  by_contra hcharged
  obtain ⟨hdisabled, hrest⟩ := not_or.mp hcharged
  have hone : 1 ≤ limiter.msgBucket.refilled .exact now := not_lt.mp (not_or.mp hrest).2
  let k := ⌊limiter.msgBucket.refilled .exact now⌋₊
  let later : List (ℚ × Call) :=
    (now, .configureBytes 0 0) :: List.replicate k (now, .allowMessage 0)
  have hlater := hsame later ⟨le_refl now, inOrder_replicate now _ k⟩
  have hunlimited : (Bucket.configure .exact 0 0 now).Disabled := by
    simp [Bucket.Disabled, Bucket.configure]
  have hleft := Bucket.refilled_consume hdisabled zero_le_one hone
  have hdrained : results (List.replicate k (now, .allowMessage 0))
      { limiter with byteBucket := .configure .exact 0 0 now } = List.replicate k (some true) ↔
      (k : ℚ) ≤ limiter.msgBucket.refilled .exact now :=
    results_replicate { limiter with byteBucket := .configure .exact 0 0 now } hunlimited hdisabled
      (by linarith) k
  have hdrained' : results (List.replicate k (now, .allowMessage 0))
      { limiter' with byteBucket := .configure .exact 0 0 now } = List.replicate k (some true) ↔
      (k : ℚ) ≤ limiter'.msgBucket.refilled .exact now :=
    results_replicate { limiter' with byteBucket := .configure .exact 0 0 now } hunlimited
      (by rwa [hmsg, Bucket.disabled_consume_iff]) (by rw [hmsg, hleft]; linarith) k
  have hfloor : (k : ℚ) ≤ limiter.msgBucket.refilled .exact now := Nat.floor_le (by linarith)
  have hmore : limiter.msgBucket.refilled .exact now < k + 1 := Nat.lt_floor_add_one _
  have hall := hdrained.mpr hfloor
  have htail : results (List.replicate k (now, .allowMessage 0))
      { limiter' with byteBucket := .configure .exact 0 0 now } =
      results (List.replicate k (now, .allowMessage 0))
        { limiter with byteBucket := .configure .exact 0 0 now } := (List.cons.inj hlater).2
  have hfew := hdrained'.mp (htail.trans hall)
  rw [hmsg, hleft] at hfew
  linarith

/-- Once there is no limit on messages, the largest one that is let through shows that bytes were
charged. -/
theorem byte_uncharged (hbyte : limiter'.byteBucket = (limiter.byteBucket.consume .exact byteSize now).1)
    (hsame : ∀ later, InOrder now later → results later limiter' = results later limiter) :
    limiter.byteBucket.Uncharged byteSize now := by
  by_contra hcharged
  obtain ⟨hdisabled, hrest⟩ := not_or.mp hcharged
  obtain ⟨hsize, hle⟩ := not_or.mp hrest
  have hle : (byteSize : ℚ) ≤ limiter.byteBucket.refilled .exact now := not_lt.mp hle
  have hpos : (1 : ℚ) ≤ byteSize := by
    rw [Nat.one_le_cast, Nat.one_le_iff_ne_zero]
    exact fun hzero => hsize (by rw [hzero, Nat.cast_zero])
  let size := ⌊limiter.byteBucket.refilled .exact now⌋₊
  have hlater := hsame [(now, .configureMessages 0 0), (now, .allowMessage size)]
    ⟨le_refl now, le_refl now, trivial⟩
  have hunlimited : (Bucket.configure .exact 0 0 now).Disabled := by
    simp [Bucket.Disabled, Bucket.configure]
  have hanswer : ∀ {l : RateLimiter}, ¬l.byteBucket.Disabled →
      (({ l with msgBucket := .configure .exact 0 0 now } : RateLimiter).allowMessage .exact size now).2 =
        decide ((size : ℚ) ≤ l.byteBucket.refilled .exact now) := by
    intro l hl
    rw [(allowMessage_spec size now _).2.2.2, Bucket.consume_disabled hunlimited, Bool.true_and,
      Bucket.consume_snd hl]
  have hfloor : (size : ℚ) ≤ limiter.byteBucket.refilled .exact now := Nat.floor_le (by linarith)
  have hmore : limiter.byteBucket.refilled .exact now < size + 1 := Nat.lt_floor_add_one _
  have hanswers :
      (({ limiter' with msgBucket := .configure .exact 0 0 now } : RateLimiter).allowMessage
        .exact size now).2 =
      (({ limiter with msgBucket := .configure .exact 0 0 now } : RateLimiter).allowMessage
        .exact size now).2 := Option.some.inj (List.cons.inj (List.cons.inj hlater).2).1
  rw [hanswer hdisabled, hanswer (by rwa [hbyte, Bucket.disabled_consume_iff]), hbyte,
    Bucket.refilled_consume hdisabled (by linarith) hle, decide_eq_decide] at hanswers
  have hfew := hanswers.mpr hfloor
  linarith

/-- Whatever was called before, all calls after a message return what they would have returned without
it, if and only if each of the two buckets has no limit, or was asked for nothing, or has had too
little. -/
theorem drop_uncharged_iff (start now : ℚ) (past : List (ℚ × Call)) (byteSize : ℕ)
    (horder : InOrder start (past ++ [(now, .allowMessage byteSize)])) :
    (∀ later, InOrder now later →
      results later ((after past {}).allowMessage .exact byteSize now).1 = results later (after past {})) ↔
      (after past {}).msgBucket.Uncharged 1 now ∧ (after past {}).byteBucket.Uncharged byteSize now := by
  have hempty : Ready start {} :=
    ⟨.inl ⟨le_refl 0, le_refl 0⟩, .inl ⟨le_refl 0, le_refl 0⟩, .inl ⟨le_refl 0, le_refl 0⟩⟩
  have hready := hempty.after horder
  obtain ⟨hmsg, hbyte, -, -⟩ := allowMessage_spec byteSize now (after past {})
  constructor
  · intro hsame
    exact ⟨msg_uncharged hmsg hsame, byte_uncharged hbyte hsame⟩
  · rintro ⟨huncharged, huncharged'⟩ later hlater
    exact (alike_allowMessage hready huncharged huncharged').results later hlater

/-- A limiter with one message a second, and a thousand bytes. -/
def oneMessage : List (ℚ × Call) := [(0, .configureMessages 1 1), (0, .configureBytes 1000 1000)]

/-- Where the messages themselves are too many, a dropped one costs nothing. -/
theorem drop_uncharged_second : ∃ past, ((after past {}).allowMessage .exact 5000 0).2 = false ∧
    ∀ later, InOrder 0 later →
      results later ((after past {}).allowMessage .exact 5000 0).1 = results later (after past {}) := by
  refine ⟨oneMessage ++ [(0, .allowMessage 10)], by decide +kernel, ?_⟩
  have hmsg : (after (oneMessage ++ [(0, .allowMessage 10)]) {}).msgBucket.Uncharged 1 0 :=
    .inr (.inr (by decide +kernel))
  have hbyte : (after (oneMessage ++ [(0, .allowMessage 10)]) {}).byteBucket.Uncharged
      ((5000 : ℕ) : ℚ) 0 := .inr (.inr (by decide +kernel))
  exact (drop_uncharged_iff 0 0 _ 5000 (by norm_num [oneMessage, InOrder])).mpr ⟨hmsg, hbyte⟩

/-- A message of 5000 bytes is dropped, and with it the one of 10 bytes that follows. -/
theorem dropped_message_charged :
    ((after oneMessage {}).allowMessage .exact 5000 0).2 = false ∧
      results [(0, .allowMessage 10)] ((after oneMessage {}).allowMessage .exact 5000 0).1 = [some false] ∧
      results [(0, .allowMessage 10)] (after oneMessage {}) = [some true] := by
  decide +kernel

end RateLimiter

end CampelloNet
