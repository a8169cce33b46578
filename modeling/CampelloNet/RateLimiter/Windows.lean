import CampelloNet.RateLimiter
import CampelloNet.Rpc

/-!
# What a rate limit lets through

The buckets of `RateLimiter` and those of `RpcManager` are written separately. Both are token buckets:
what they let through in any interval is bounded by the burst and what comes in during the interval, and
what they hold stays between nothing and the burst (`tokens_bounded`).
-/

namespace CampelloNet

open Lib TokenBucket

/-! ### The buckets of a limiter -/

namespace RateLimiter

/-- A call of `consume`. -/
structure Request where
  amount : ℚ
  time : ℚ

/-- The requests come in the order of their times, none before the given one, and none is negative. -/
def Timely : ℚ → List Request → Prop
  | _, [] => True
  | t, r :: rs => t ≤ r.time ∧ 0 ≤ r.amount ∧ Timely r.time rs

namespace Bucket

def after (rs : List Request) (b : Bucket) : Bucket :=
  rs.foldl (fun b r => (b.consume .exact r.amount r.time).1) b

/-- What each of the requests is granted. -/
def grants : List Request → Bucket → List (Grant ℚ)
  | [], _ => []
  | r :: rs, b =>
    ⟨if (b.consume .exact r.amount r.time).2 then r.amount else 0, r.time⟩ ::
      grants rs (b.consume .exact r.amount r.time).1

theorem granted_covered {b : Bucket} (h : ¬(b.ratePerSec ≤ 0 ∧ b.burst ≤ 0)) (hb : b.tokenBucket.Sound)
    (amount : ℚ) {now : ℚ} (hnow : b.lastUpdate ≤ now) :
    (if (b.consume .exact amount now).2 then amount else 0) ≤ b.tokenBucket.level now := by
  split_ifs with hok
  · exact le_level_of_consume h hok
  · exact level_nonneg hb hnow

/-- A bucket that is not disabled is a token bucket. -/
theorem grants_spec {b : Bucket} (rs : List Request) (h : ¬(b.ratePerSec ≤ 0 ∧ b.burst ≤ 0))
    (hb : b.tokenBucket.Sound) (hrs : Timely b.lastUpdate rs) :
    Grants b.tokenBucket (b.grants rs) (b.after rs).tokenBucket := by
  induction rs generalizing b with
  | nil => exact .nil _
  | cons r rs ih =>
    obtain ⟨htime, hamount, hrest⟩ := hrs
    have hcovered := granted_covered h hb r.amount htime
    have hnonneg : 0 ≤ if (b.consume .exact r.amount r.time).2 then r.amount else 0 := by
      split_ifs
      · exact hamount
      · exact le_refl 0
    have hspent := tokenBucket_consume h r.amount r.time
    obtain ⟨hrate, hburst⟩ := consume_limits b r.amount r.time
    have hlast : (b.consume .exact r.amount r.time).1.lastUpdate = r.time := congrArg TokenBucket.last hspent
    refine .spend htime hnonneg hcovered ?_
    rw [← hspent]
    apply ih
    · rwa [hrate, hburst]
    · rw [hspent]
      exact hb.spend hnonneg hcovered
    · rwa [hlast]

end Bucket

end RateLimiter

/-! ### The buckets of the RPCs -/

namespace Rpc.TokenBucket

def tokenBucket (b : Rpc.TokenBucket) : Lib.TokenBucket ℚ :=
  ⟨b.ratePerSec, b.burst, b.tokens, b.lastUpdate⟩

theorem tokenBucket_take {b : Rpc.TokenBucket} (h : 0 < b.ratePerSec) (now : ℚ) :
    (b.take now).1.tokenBucket = b.tokenBucket.spend (if (b.take now).2 then 1 else 0) now ∧
      ((b.take now).2 = true → 1 ≤ b.tokenBucket.level now) := by
  unfold take
  rw [if_pos h]
  by_cases hfew : min b.burst (b.tokens + b.ratePerSec * (now - b.lastUpdate)) < 1
  · rw [if_pos hfew]
    refine ⟨?_, fun hno => absurd hno Bool.false_ne_true⟩
    show _ = Lib.TokenBucket.mk _ _ (b.tokenBucket.level now - 0) now
    rw [sub_zero]
    rfl
  · rw [if_neg hfew]
    exact ⟨rfl, fun _ => not_lt.mp hfew⟩

end Rpc.TokenBucket

namespace RpcManager

inductive Call
  | receive (env : ReceiveEnv) (sender : ClientId) (data : Bytes)
  | registerHandler (rpcId : UInt16) (authority : RpcAuthority)
  | unregisterHandler (rpcId : UInt16)
  | setRpcRateLimit (rpcId : UInt16) (maxPerSec burst now : ℚ)
  | setMaxPayloadSize (max : ℕ)
  | setNetworkManager (set : Bool)
  | setEntityManager (set : Bool)

def call (rpc : RpcManager) : Call → RpcManager
  | .receive env sender data => (rpc.onReceive env sender data).1
  | .registerHandler rpcId authority => rpc.registerHandler rpcId authority
  | .unregisterHandler rpcId => rpc.unregisterHandler rpcId
  | .setRpcRateLimit rpcId maxPerSec burst now => rpc.setRpcRateLimit rpcId maxPerSec burst now
  | .setMaxPayloadSize max => { rpc with maxPayloadSize := max }
  | .setNetworkManager set => { rpc with hasNet := set }
  | .setEntityManager set => { rpc with hasEntityMgr := set }

def after (calls : List Call) (rpc : RpcManager) : RpcManager := calls.foldl call rpc

/-- How often the handler of the RPC is called. -/
def invocations (rpcId : UInt16) (calls : List AppCall) : ℕ :=
  calls.countP fun
    | .rpc id _ _ => id = rpcId
    | _ => false

/-- What each of the packets is granted. -/
def grants (rpcId : UInt16) : List Call → RpcManager → List (Grant ℚ)
  | [], _ => []
  | .receive env sender data :: calls, rpc =>
    ⟨invocations rpcId (rpc.onReceive env sender data).2, env.now⟩ ::
      grants rpcId calls (rpc.onReceive env sender data).1
  | c :: calls, rpc => grants rpcId calls (rpc.call c)

/-- The packets come in the order of their times, none before the given one. -/
def Timely : ℚ → List Call → Prop
  | _, [] => True
  | t, .receive env _ _ :: calls => t ≤ env.now ∧ Timely env.now calls
  | t, _ :: calls => Timely t calls

variable {rpcId : UInt16} {rpc : RpcManager} {b : Rpc.TokenBucket}

/-- The bucket of the RPC. -/
def Limited (rpcId : UInt16) (b : Rpc.TokenBucket) (rpc : RpcManager) : Prop :=
  lookup Prod.fst rpcId rpc.rpcRateBuckets = some (rpcId, b)

theorem limited_upsert (b : Rpc.TokenBucket) (rpc : RpcManager) :
    Limited rpcId b { rpc with rpcRateBuckets := upsert Prod.fst (rpcId, b) rpc.rpcRateBuckets } :=
  lookup_upsert_self (rpcId, b) rpc.rpcRateBuckets

theorem limited_upsert_ne {id : UInt16} (h : id ≠ rpcId) (hb : rpc.Limited rpcId b)
    (b' : Rpc.TokenBucket) :
    Limited rpcId b { rpc with rpcRateBuckets := upsert Prod.fst (id, b') rpc.rpcRateBuckets } :=
  (lookup_upsert_ne (id, b') rpc.rpcRateBuckets h).trans hb

/-- A packet is none for the RPC, or one that its bucket decides about. -/
theorem onReceive_limited (hb : rpc.Limited rpcId b) (env : ReceiveEnv) (sender : ClientId)
    (data : Bytes) :
    ((rpc.onReceive env sender data).1.Limited rpcId b ∧
      invocations rpcId (rpc.onReceive env sender data).2 = 0) ∨
    ((rpc.onReceive env sender data).1.Limited rpcId (b.take env.now).1 ∧
      invocations rpcId (rpc.onReceive env sender data).2 = if (b.take env.now).2 then 1 else 0) := by
  generalize hgrant : (if (b.take env.now).2 then 1 else 0) = n
  unfold onReceive
  split_ifs
  · exact .inl ⟨hb, rfl⟩
  · exact .inl ⟨hb, rfl⟩
  · dsimp only
    rcases lookup Prod.fst (readBe16 data) rpc.handlers with _ | ⟨id, authority⟩
    · exact .inl ⟨hb, rfl⟩
    · dsimp only
      split_ifs
      · exact .inl ⟨hb, rfl⟩
      · by_cases hid : readBe16 data = rpcId
        · rw [hid, show lookup Prod.fst rpcId rpc.rpcRateBuckets = some (rpcId, b) from hb]
          refine .inr ⟨limited_upsert _ rpc, ?_⟩
          dsimp only
          rw [← hgrant]
          split_ifs <;> simp [invocations]
        · have hnone : ∀ params args, invocations rpcId [.rpc (readBe16 data) params args] = 0 := by
            simp [invocations, hid]
          rcases lookup Prod.fst (readBe16 data) rpc.rpcRateBuckets with _ | ⟨id', b'⟩
          · exact .inl ⟨hb, hnone _ _⟩
          · refine .inl ⟨limited_upsert_ne hid hb _, ?_⟩
            dsimp only
            split_ifs
            · exact hnone _ _
            · rfl

/-- Other calls than the one that sets its limit leave the bucket alone. -/
theorem call_limited (hb : rpc.Limited rpcId b) {c : Call} (hreceive : ∀ env sender data,
    c ≠ .receive env sender data) (hset : ∀ r burst now, c ≠ .setRpcRateLimit rpcId r burst now) :
    (rpc.call c).Limited rpcId b := by
  cases c with
  | receive env sender data => exact absurd rfl (hreceive env sender data)
  | setRpcRateLimit id r burst now =>
    refine limited_upsert_ne (fun hid => ?_) hb _
    subst hid
    exact hset r burst now rfl
  | _ => exact hb

/-- The bucket of an RPC that has a rate is a token bucket, as long as its limit is not set again. -/
theorem grants_spec (calls : List Call) {t : ℚ} (hb : rpc.Limited rpcId b) (hrate : 0 < b.ratePerSec)
    (hsound : b.tokenBucket.Sound) (hlast : b.lastUpdate ≤ t) (hcalls : Timely t calls)
    (hset : ∀ r burst now, Call.setRpcRateLimit rpcId r burst now ∉ calls) :
    ∃ b', (rpc.after calls).Limited rpcId b' ∧
      Grants b.tokenBucket (rpc.grants rpcId calls) b'.tokenBucket := by
  induction calls generalizing rpc b t with
  | nil => exact ⟨b, hb, .nil _⟩
  | cons c calls ih =>
    have hset' : ∀ r burst now, Call.setRpcRateLimit rpcId r burst now ∉ calls :=
      fun r burst now hmem => hset r burst now (List.mem_cons_of_mem _ hmem)
    have hother : (∀ env sender data, c ≠ .receive env sender data) → Timely t calls →
        ∃ b', (rpc.after (c :: calls)).Limited rpcId b' ∧
          Grants b.tokenBucket (grants rpcId calls (rpc.call c)) b'.tokenBucket := by
      intro hreceive htimely
      exact ih (call_limited hb hreceive fun r burst now heq => hset r burst now
        (heq ▸ List.mem_cons_self)) hrate hsound hlast htimely hset'
    cases c with
    | receive env sender data =>
      obtain ⟨hnow, hrest⟩ := hcalls
      rcases onReceive_limited hb env sender data with ⟨hnext, hnone⟩ | ⟨hnext, hcount⟩
      · obtain ⟨b', hb', hgrants⟩ := ih hnext hrate hsound (hlast.trans hnow) hrest hset'
        refine ⟨b', hb', ?_⟩
        rw [grants, hnone, Nat.cast_zero]
        exact .idle env.now hgrants
      · obtain ⟨hspent, hok⟩ := Rpc.TokenBucket.tokenBucket_take hrate env.now
        have hlevel : (0 : ℚ) ≤ b.tokenBucket.level env.now := level_nonneg hsound (hlast.trans hnow)
        have hgranted : ((invocations rpcId (rpc.onReceive env sender data).2 : ℕ) : ℚ) =
            if (b.take env.now).2 then 1 else 0 := by
          rw [hcount]
          split_ifs <;> norm_num
        have hnonneg : (0 : ℚ) ≤ if (b.take env.now).2 then 1 else 0 := by
          split_ifs <;> norm_num
        have hcovered : (if (b.take env.now).2 then (1 : ℚ) else 0) ≤ b.tokenBucket.level env.now := by
          split_ifs with htaken
          · exact hok htaken
          · exact hlevel
        have hrate' : (b.take env.now).1.ratePerSec = b.ratePerSec := congrArg Lib.TokenBucket.rate hspent
        have hlast' : (b.take env.now).1.lastUpdate = env.now := congrArg Lib.TokenBucket.last hspent
        obtain ⟨b', hb', hgrants⟩ := ih hnext (hrate'.symm ▸ hrate)
          (hspent.symm ▸ hsound.spend hnonneg hcovered) (le_of_eq hlast') hrest hset'
        refine ⟨b', hb', ?_⟩
        rw [hspent] at hgrants
        rw [grants, hgranted]
        exact .spend (hlast.trans hnow) hnonneg hcovered hgrants
    | registerHandler | unregisterHandler | setRpcRateLimit | setMaxPayloadSize | setNetworkManager
    | setEntityManager => exact hother (fun _ _ _ => nofun) hcalls

end RpcManager

/-- In any interval a bucket with a rate or a burst, and the bucket of an RPC that has a rate, let
through no more than the burst and what comes in during the interval, and what they hold stays between
nothing and the burst. -/
theorem tokens_bounded :
    (∀ (rate burst start : ℚ) (requests : List RateLimiter.Request), ¬(rate ≤ 0 ∧ burst ≤ 0) →
      RateLimiter.Timely start requests →
      (0 ≤ ((RateLimiter.Bucket.configure .exact rate burst start).after requests).tokens ∧
        ((RateLimiter.Bucket.configure .exact rate burst start).after requests).tokens ≤ max 0 burst) ∧
      ∀ s e, s ≤ e →
        granted s e ((RateLimiter.Bucket.configure .exact rate burst start).grants requests) ≤
          max 0 burst + max 0 rate * (e - s)) ∧
    ∀ (rpc : RpcManager) (rpcId : UInt16) (rate burst start : ℚ) (calls : List RpcManager.Call),
      0 < rate → RpcManager.Timely start calls →
      (∀ r b now, RpcManager.Call.setRpcRateLimit rpcId r b now ∉ calls) →
      (∃ bucket, ((rpc.setRpcRateLimit rpcId rate burst start).after calls).Limited rpcId bucket ∧
        0 ≤ bucket.tokens ∧ bucket.tokens ≤ max 0 burst) ∧
      ∀ s e, s ≤ e →
        granted s e ((rpc.setRpcRateLimit rpcId rate burst start).grants rpcId calls) ≤
          max 0 burst + rate * (e - s) := by
  constructor
  · intro rate burst start requests hlimit htimely
    have hsound := RateLimiter.Bucket.sound_configure .exact rate burst start
    have henabled : ¬((RateLimiter.Bucket.configure .exact rate burst start).ratePerSec ≤ 0 ∧
        (RateLimiter.Bucket.configure .exact rate burst start).burst ≤ 0) :=
      fun h => hlimit ⟨(le_max_right 0 rate).trans h.1, (le_max_right 0 burst).trans h.2⟩
    have hgrants := RateLimiter.Bucket.grants_spec requests henabled hsound htimely
    have hafter := hgrants.sound hsound
    refine ⟨⟨hafter.nonneg, hafter.le_burst.trans (le_of_eq hgrants.burst_eq)⟩, fun s e hse => ?_⟩
    exact hgrants.granted_le hsound hse
  · intro rpc rpcId rate burst start calls hrate htimely hset
    let bucket : Rpc.TokenBucket := ⟨max 0 rate, max 0 burst, max 0 burst, start⟩
    have hlimited : (rpc.setRpcRateLimit rpcId rate burst start).Limited rpcId bucket :=
      RpcManager.limited_upsert bucket rpc
    have hsound : bucket.tokenBucket.Sound := ⟨le_max_left 0 rate, le_max_left 0 burst, le_refl _⟩
    have hrate' : max 0 rate = rate := max_eq_right (le_of_lt hrate)
    obtain ⟨b', hb', hgrants⟩ := RpcManager.grants_spec calls hlimited
      (show 0 < max 0 rate by rwa [hrate']) hsound (le_refl start) htimely hset
    have hafter := hgrants.sound hsound
    refine ⟨⟨b', hb', hafter.nonneg, hafter.le_burst.trans (le_of_eq hgrants.burst_eq)⟩,
      fun s e hse => ?_⟩
    have hle := hgrants.granted_le hsound hse
    change _ ≤ max 0 burst + max 0 rate * (e - s) at hle
    rwa [hrate'] at hle

/-- Four messages within a second, of which the third is dropped. -/
def fourMessages : List RateLimiter.Request := [⟨1, 0⟩, ⟨1, 0⟩, ⟨1, 1 / 2⟩, ⟨1, 1⟩]

theorem tokens_bounded_fourMessages :
    ((RateLimiter.Bucket.configure .exact 1 2 0).grants fourMessages).map Grant.amount = [1, 1, 0, 1] ∧
      granted 0 1 ((RateLimiter.Bucket.configure .exact 1 2 0).grants fourMessages) ≤
        max 0 2 + max 0 1 * (1 - 0) :=
  ⟨by decide +kernel,
    (tokens_bounded.1 1 2 0 fourMessages (by norm_num)
      (by norm_num [RateLimiter.Timely, fourMessages])).2 0 1 (by norm_num)⟩

end CampelloNet
