import CampelloNet.Manager.Metering

/-!
# The rate limits of a peer

A server counts the messages and the RPCs of a peer in the limiter of the peer's entry. As long as the
entry is the same one, no more of them are accepted within any time than its burst and its rate allow and
than the rounding of its tokens adds. The entry goes with a `DisconnectNotify`, and the next
`ConnectRequest` is given a full bucket.
-/

namespace CampelloNet.NetworkManager

open Lib Transport RateLimiter

variable {σ : Type}

/-! ### Limits -/

/-- The limits that count packets. -/
inductive Limit
  | messages
  | rpcs
  deriving DecidableEq

namespace Limit

def rate (config : Config) : Limit → ℚ
  | messages => config.maxMessagesPerSec
  | rpcs => config.maxRpcsPerSec

def bucket (limiter : RateLimiter) : Limit → Bucket
  | messages => limiter.msgBucket
  | rpcs => limiter.rpcBucket

/-- The packet asks the bucket of its sender, if it has one. -/
def Asks (p : Handled σ) : Limit → Prop
  | messages => p.net.AsksMessage p.buffer
  | rpcs => p.net.AsksRpc p.buffer

instance (p : Handled σ) (limit : Limit) : Decidable (limit.Asks p) := by
  cases limit <;> unfold Asks <;> infer_instance

/-- A user message is accepted into the message queue, an RPC by handing it to the RPC manager. -/
def accepts (T : ℕ → ITransport σ) (p : Handled σ) : Limit → Bool
  | messages => (p.after T).messageQueue ≠ p.net.messageQueue
  | rpcs =>
    p.buffer.length ≤ p.net.config.maxPacketSize && isSystem p.buffer &&
      p.buffer.getD 2 0 == SysType.rpc && p.net.rpcManager.isSome &&
      (p.net.findClientByAddress p.sender).isSome && (p.net.allowRpc p.env p.sender).2

end Limit

/-- An address and a time within which the packets are counted that a limit is about. -/
structure Watch where
  limit : Limit
  addr : Address
  start : ℚ
  stop : ℚ

namespace Watch

/-- The server accepts the packet from the address within the time. -/
def counts (T : ℕ → ITransport σ) (w : Watch) (p : Handled σ) : Bool :=
  p.net.serving && p.sender = w.addr && w.start ≤ p.env.now && p.env.now ≤ w.stop &&
    w.limit.accepts T p

def accepted (T : ℕ → ITransport σ) (w : Watch) (packets : List (Handled σ)) : ℕ :=
  packets.countP (w.counts T)

/-- The packet asks the bucket of the address within the time. -/
def Asked (w : Watch) (p : Handled σ) : Prop :=
  w.limit.Asks p ∧ p.sender = w.addr ∧ w.start ≤ p.env.now ∧ p.env.now ≤ w.stop

instance (w : Watch) (p : Handled σ) : Decidable (w.Asked p) :=
  inferInstanceAs (Decidable (_ ∧ _ ∧ _ ∧ _))

/-- How much more the rounding leaves in the bucket, after the packet, than exact arithmetic would. -/
def excess (w : Watch) (p : Handled σ) : ℚ :=
  if w.Asked p then
    ((p.net.findClientByAddress p.sender).map fun entry =>
      (w.limit.bucket entry.rateLimiter).excess 1 p.env.now).getD 0
  else 0

def excesses (w : Watch) (packets : List (Handled σ)) : ℚ := (packets.map w.excess).sum

end Watch

section
variable {T : ℕ → ITransport σ}

/-! ### The entry of an address -/

/-- The first of the limiters of an address is that of the entry that a search finds. -/
theorem metersAt_of_find {net : NetworkManager σ} {addr : Address} {entry : ClientEntry}
    (h : net.findClientByAddress addr = some entry) : ∃ ms, net.metersAt addr = entry.meter :: ms := by
  have hlookup : lookup Meter.address addr net.meters = some entry.meter := by
    have hkey : ∀ c : ClientEntry, c.meter.address = c.address := fun _ => rfl
    unfold meters
    rw [lookup_map hkey]
    exact congrArg (Option.map ClientEntry.meter) h
  rw [lookup_eq_head?] at hlookup
  exact ⟨_, List.eq_cons_of_mem_head? hlookup⟩

theorem find_of_metersAt_nil {net : NetworkManager σ} {addr : Address}
    (h : net.findClientByAddress addr = none) : net.metersAt addr = [] := by
  refine List.filter_eq_nil_iff.mpr fun m hm => ?_
  obtain ⟨entry, hentry, rfl⟩ := List.mem_map.mp hm
  exact List.find?_eq_none.mp h entry hentry

/-- What is left of an address when the limiter of a sender has been written. -/
theorem metersAt_charge {net next : NetworkManager σ} {sender : Address} {entry : ClientEntry}
    {limiter : RateLimiter} (hfind : net.findClientByAddress sender = some entry)
    (h : next.meters = upsert Meter.address ⟨sender, entry.approved, limiter⟩ net.meters) :
    ∃ ms, net.metersAt sender = entry.meter :: ms ∧
      next.metersAt sender = ⟨sender, entry.approved, limiter⟩ :: ms := by
  obtain ⟨ms, hms⟩ := metersAt_of_find hfind
  refine ⟨ms, hms, ?_⟩
  unfold metersAt
  rw [h]
  have hself := @filter_upsert_self Meter Address _ Meter.address
    ⟨sender, entry.approved, limiter⟩ net.meters
  exact hself.trans (congrArg (_ :: List.tail ·) hms)

section
variable {p : Handled σ} {entry : ClientEntry}

theorem onUser_of_asks (h : p.net.AsksMessage p.buffer) :
    p.after T = (p.before T).onUser p.env p.buffer p.sender := by
  have hfits : ¬p.buffer.length > (p.before T).config.maxPacketSize := not_lt.mpr h.fits
  unfold Handled.after handlePacket
  rw [if_neg h.nonempty, if_neg hfits, if_neg (by simp [h.user])]

/-- A user message of a client is charged to its limiter. -/
theorem meters_message (h : p.net.AsksMessage p.buffer)
    (hfind : p.net.findClientByAddress p.sender = some entry) :
    (p.after T).meters = upsert Meter.address ⟨p.sender, entry.approved,
      (entry.rateLimiter.allowMessage .ieee p.buffer.length p.env.now).1⟩ p.net.meters := by
  have hserving : (p.before T).serving := h.serving
  rw [onUser_of_asks h]
  exact meters_onUser hserving hfind

theorem meters_message_none (h : p.net.AsksMessage p.buffer)
    (hfind : p.net.findClientByAddress p.sender = none) : (p.after T).meters = p.net.meters := by
  have hserving : (p.before T).serving := h.serving
  have hfind' : (p.before T).findClientByAddress p.sender = none := hfind
  rw [onUser_of_asks h]
  unfold onUser
  rw [if_pos hserving, hfind']
  rfl

theorem onSystem_of_asks (h : p.net.AsksRpc p.buffer) :
    p.after T = (p.before T).onSystem T p.env p.transport p.buffer p.sender := by
  have hne : p.buffer ≠ [] := by
    intro hnil
    have hsys := h.system
    rw [hnil] at hsys
    cases hsys
  have hfits : ¬p.buffer.length > (p.before T).config.maxPacketSize := not_lt.mpr h.fits
  unfold Handled.after handlePacket
  rw [if_neg hne, if_neg hfits, if_pos h.system]

/-- An RPC of a client is charged to its limiter. -/
theorem meters_rpc (h : p.net.AsksRpc p.buffer)
    (hfind : p.net.findClientByAddress p.sender = some entry) :
    (p.after T).meters = upsert Meter.address ⟨p.sender, entry.approved,
      (entry.rateLimiter.allowRpc .ieee p.env.now).1⟩ p.net.meters := by
  have hserving : (p.before T).serving := h.serving
  have hattached : (p.before T).rpcManager.isSome := h.attached
  have hfind' : (p.before T).findClientByAddress p.sender = some entry := hfind
  have hafter : p.after T = (p.before T).onRpc T p.env entry.id p.sender (p.buffer.drop 3) := by
    rw [onSystem_of_asks h]
    unfold onSystem
    dsimp only
    rw [if_pos hserving, hfind', h.rpc]
    rfl
  rw [hafter, meters_onRpc hattached]
  exact meters_allowRpc hserving hfind'

theorem meters_rpc_none (h : p.net.AsksRpc p.buffer)
    (hfind : p.net.findClientByAddress p.sender = none) : (p.after T).meters = p.net.meters := by
  have hserving : (p.before T).serving := h.serving
  have hfind' : (p.before T).findClientByAddress p.sender = none := hfind
  rw [onSystem_of_asks h]
  unfold onSystem
  dsimp only
  rw [if_pos hserving, hfind', h.rpc]
  rfl

end

/-- From `net` to `next` the limiter of an address has been charged for a packet that it let through. -/
def Charged (limit : Limit) (addr : Address) (now : ℚ) (net next : NetworkManager σ) : Prop :=
  ∃ entry limiter, net.findClientByAddress addr = some entry ∧
    next.meters = upsert Meter.address ⟨addr, entry.approved, limiter⟩ net.meters ∧
    limit.bucket limiter = ((limit.bucket entry.rateLimiter).consume .ieee 1 now).1 ∧
    ((limit.bucket entry.rateLimiter).consume .ieee 1 now).2

theorem charged_of_message {p : Handled σ} (hserving : p.net.serving)
    (h : Limit.messages.accepts T p) : Charged .messages p.sender p.env.now p.net (p.after T) := by
  have hgrown : (p.after T).messageQueue ≠ p.net.messageQueue := of_decide_eq_true h
  have hacc : (p.before T).Accepted p.env p.buffer p.sender := by
    by_contra hno
    exact hgrown (undelivered_of_not_accepted p.transport hno).1
  have hs : (p.before T).serving := hserving
  have hattributed := hacc.attributed
  have hrate := hacc.rate
  unfold attributed at hattributed
  unfold withinRate at hrate
  rw [if_pos hs, Option.isSome_map] at hattributed
  obtain ⟨entry, hfind⟩ := Option.isSome_iff_exists.mp hattributed
  have hok : (entry.rateLimiter.allowMessage .ieee p.buffer.length p.env.now).2 = true := by
    simpa [hs, hfind] using hrate
  have hasks : p.net.AsksMessage p.buffer := ⟨hserving, hacc.nonempty, hacc.fits, hacc.user⟩
  obtain ⟨hmsg, -, -, hboth⟩ := allowMessage_buckets .ieee p.buffer.length p.env.now entry.rateLimiter
  rw [hboth] at hok
  exact ⟨entry, _, hfind, meters_message hasks hfind, hmsg, (Bool.and_eq_true_iff.mp hok).1⟩

theorem charged_of_rpc {p : Handled σ} (hserving : p.net.serving) (h : Limit.rpcs.accepts T p) :
    Charged .rpcs p.sender p.env.now p.net (p.after T) := by
  unfold Limit.accepts at h
  simp only [Bool.and_eq_true, decide_eq_true_eq, beq_iff_eq] at h
  obtain ⟨⟨⟨⟨⟨hfits, hsys⟩, htype⟩, hrpc⟩, hknown⟩, hallow⟩ := h
  obtain ⟨entry, hfind⟩ := Option.isSome_iff_exists.mp hknown
  have hasks : p.net.AsksRpc p.buffer := ⟨hserving, hfits, hsys, htype, hrpc⟩
  refine ⟨entry, (entry.rateLimiter.allowRpc .ieee p.env.now).1, hfind, meters_rpc hasks hfind, rfl, ?_⟩
  unfold allowRpc at hallow
  rw [if_pos hserving, hfind] at hallow
  exact hallow

/-- A counted packet asks the limiter. -/
theorem asked_of_counts {w : Watch} {p : Handled σ} (h : w.counts T p) : w.Asked p := by
  unfold Watch.counts at h
  simp only [Bool.and_eq_true, decide_eq_true_eq] at h
  obtain ⟨⟨⟨⟨hserving, haddr⟩, hstart⟩, hstop⟩, haccepts⟩ := h
  refine ⟨?_, haddr, hstart, hstop⟩
  rcases w with ⟨limit, addr, start, stop⟩
  cases limit with
  | messages =>
    have hgrown : (p.after T).messageQueue ≠ p.net.messageQueue := of_decide_eq_true haccepts
    have hacc : (p.before T).Accepted p.env p.buffer p.sender := by
      by_contra hno
      exact hgrown (undelivered_of_not_accepted p.transport hno).1
    exact ⟨hserving, hacc.nonempty, hacc.fits, hacc.user⟩
  | rpcs =>
    unfold Limit.accepts at haccepts
    simp only [Bool.and_eq_true, decide_eq_true_eq, beq_iff_eq] at haccepts
    obtain ⟨⟨⟨⟨⟨hfits, hsys⟩, htype⟩, hrpc⟩, -⟩, -⟩ := haccepts
    exact ⟨hserving, hfits, hsys, htype, hrpc⟩

/-- A counted packet charges the limiter of its sender. -/
theorem charged_of_counts {w : Watch} {p : Handled σ} (h : w.counts T p) :
    Charged w.limit w.addr p.env.now p.net (p.after T) := by
  unfold Watch.counts at h
  simp only [Bool.and_eq_true, decide_eq_true_eq] at h
  obtain ⟨⟨⟨⟨hserving, haddr⟩, -⟩, -⟩, haccepts⟩ := h
  rw [← haddr]
  rcases w with ⟨limit, addr, start, stop⟩
  cases limit with
  | messages => exact charged_of_message hserving haccepts
  | rpcs => exact charged_of_rpc hserving haccepts

/-! ### The invariant -/

section
variable {w : Watch} {rate burst : ℚ} {past : List (Handled σ)} {p : Handled σ}

/-- The time has come for what happens after `packets`. -/
def Reached (packets : List (Handled σ)) (t : ℚ) : Prop := ∀ q ∈ packets, q.env.now ≤ t

theorem reached_append {t : ℚ} : Reached (past ++ [p]) t ↔ Reached past t ∧ p.env.now ≤ t := by
  unfold Reached
  rw [List.forall_mem_append, List.forall_mem_singleton]

theorem accepted_append :
    w.accepted T (past ++ [p]) = w.accepted T past + if w.counts T p then 1 else 0 := by
  unfold Watch.accepted
  rw [List.countP_append, List.countP_singleton]

/-- Nothing is accepted before the time begins. -/
theorem accepted_early {t : ℚ} (h : Reached past t) (ht : t < w.start) : w.accepted T past = 0 := by
  refine List.countP_eq_zero.mpr fun q hq hcount => ?_
  unfold Watch.counts at hcount
  simp only [Bool.and_eq_true, decide_eq_true_eq] at hcount
  exact absurd (hcount.1.1.2.trans (h q hq)) (not_le.mpr ht)

theorem Watch.excess_nonneg (w : Watch) (p : Handled σ) : 0 ≤ w.excess p := by
  unfold Watch.excess
  split_ifs
  · rcases p.net.findClientByAddress p.sender with _ | entry
    · exact le_refl 0
    · exact Bucket.excess_nonneg 1 p.env.now
  · exact le_refl 0

theorem Watch.excess_eq {entry : ClientEntry} (h : w.Asked p)
    (hfind : p.net.findClientByAddress p.sender = some entry) :
    w.excess p = (w.limit.bucket entry.rateLimiter).excess 1 p.env.now := by
  unfold Watch.excess
  rw [if_pos h, hfind]
  rfl

theorem excesses_append : w.excesses (past ++ [p]) = w.excesses past + w.excess p := by
  simp [Watch.excesses]

theorem excesses_nonneg (w : Watch) (packets : List (Handled σ)) : 0 ≤ w.excesses packets := by
  refine List.sum_nonneg fun x hx => ?_
  obtain ⟨q, -, rfl⟩ := List.mem_map.mp hx
  exact w.excess_nonneg q

/-- The bucket has the rate and the burst of the limit, and covers what was accepted so far but for what
the rounding has added. -/
structure Backed (T : ℕ → ITransport σ) (w : Watch) (rate burst : ℚ) (past : List (Handled σ))
    (b : Bucket) : Prop where
  rate : b.ratePerSec = rate
  burst : b.burst = max 0 burst
  float : Arith.ieee.single b.burst = b.burst
  sound : b.tokenBucket.Sound
  last : ∀ t, Reached past t → b.lastUpdate ≤ t
  covers : ∀ t, Reached past t → w.start ≤ t → t ≤ w.stop →
    b.tokenBucket.Covers (w.accepted T past - w.excesses past) w.start t

/-- A packet that is not counted changes nothing for a bucket that is left alone. -/
theorem Backed.keep {b : Bucket} (h : Backed T w rate burst past b) (hno : ¬w.counts T p) :
    Backed T w rate burst (past ++ [p]) b where
  rate := h.rate
  burst := h.burst
  float := h.float
  sound := h.sound
  last t ht := h.last t (reached_append.mp ht).1
  covers t ht hstart hstop := by
    have hcovers := h.covers t (reached_append.mp ht).1 hstart hstop
    have hexcess := w.excess_nonneg p
    rw [accepted_append, if_neg hno, excesses_append, add_zero]
    unfold TokenBucket.Covers at hcovers ⊢
    linarith

/-- A packet that asks the bucket takes a token from it if it is counted. -/
theorem Backed.consume {entry : ClientEntry}
    (h : Backed T w rate burst past (w.limit.bucket entry.rateLimiter)) (hrate : 0 < rate)
    (hpast : Reached past p.env.now) (hfind : p.net.findClientByAddress p.sender = some entry)
    (hasks : w.limit.Asks p) (haddr : p.sender = w.addr)
    (hcount : w.counts T p → ((w.limit.bucket entry.rateLimiter).consume .ieee 1 p.env.now).2) :
    Backed T w rate burst (past ++ [p])
      ((w.limit.bucket entry.rateLimiter).consume .ieee 1 p.env.now).1 := by
  have hexcess : w.start ≤ p.env.now → p.env.now ≤ w.stop → w.excess p =
      (w.limit.bucket entry.rateLimiter).excess 1 p.env.now := fun hstart hstop =>
    Watch.excess_eq ⟨hasks, haddr, hstart, hstop⟩ hfind
  generalize w.limit.bucket entry.rateLimiter = b at h hcount hexcess ⊢
  have henabled : ¬b.Disabled := fun hoff => by
    have hsame := h.rate
    linarith [hoff.1]
  obtain ⟨hsame, hburst⟩ := @Bucket.consume_limits .ieee b 1 p.env.now
  have hsound := Bucket.sound_consume h.sound h.float (h.last _ hpast) zero_le_one
  have hlast : (b.consume .ieee 1 p.env.now).1.lastUpdate = p.env.now := by
    rw [Bucket.consume_enabled henabled]
    split_ifs <;> rfl
  refine ⟨hsame.trans h.rate, hburst.trans h.burst, ?_, hsound, ?_, ?_⟩
  · rw [hburst]
    exact h.float
  · intro t ht
    exact hlast.trans_le (reached_append.mp ht).2
  · intro t ht hstart hstop
    have hnow := (reached_append.mp ht).2
    rcases lt_or_ge p.env.now w.start with hearly | hstarted
    · have hreached : Reached (past ++ [p]) p.env.now := reached_append.mpr ⟨hpast, le_refl _⟩
      have hzero := TokenBucket.Covers.zero hsound.rate hstart
      have hexcesses := excesses_nonneg w (past ++ [p])
      rw [accepted_early hreached hearly, Nat.cast_zero]
      unfold TokenBucket.Covers at hzero ⊢
      linarith
    · have hended := hnow.trans hstop
      have hsettled : (b.consume .ieee 1 p.env.now).1.tokenBucket.Covers
          (w.accepted T past - w.excesses past + (if (b.consume .ieee 1 p.env.now).2 then 1 else 0) -
            b.excess 1 p.env.now) w.start p.env.now :=
        (h.covers _ hpast hstarted hended).settle hsame hburst hlast
          (Bucket.tokens_consume_le 1 p.env.now)
      have hcovers := hsettled.later hsound.rate hnow
      have hcounted : (w.accepted T (past ++ [p]) : ℚ) ≤
          w.accepted T past + if (b.consume .ieee 1 p.env.now).2 then 1 else 0 := by
        rw [accepted_append]
        split_ifs with hc hok hok
        · push_cast
          exact le_refl _
        · exact absurd (hcount hc) hok
        · push_cast
          linarith
        · push_cast
          exact le_refl _
      rw [excesses_append, hexcess hstarted hended]
      unfold TokenBucket.Covers at hcovers ⊢
      linarith

/-- What is counted is spent within the time. -/
theorem Backed.spent {b : Bucket} (h : Backed T w rate burst (past ++ [p]) b)
    (hpast : Reached past p.env.now) (hcount : w.counts T p) :
    (w.accepted T (past ++ [p]) : ℚ) ≤
      max 0 burst + rate * (w.stop - w.start) + w.excesses (past ++ [p]) := by
  have hreached : Reached (past ++ [p]) p.env.now := reached_append.mpr ⟨hpast, le_refl _⟩
  obtain ⟨-, -, hstart, hstop⟩ := asked_of_counts hcount
  have hlevel := TokenBucket.level_nonneg h.sound (h.last _ hreached)
  have hbound := (h.covers _ hreached hstart hstop).bound hlevel
  have hrate := h.sound.rate
  change _ ≤ b.burst + b.ratePerSec * _ at hbound
  change 0 ≤ b.ratePerSec at hrate
  rw [h.rate] at hbound hrate
  rw [h.burst] at hbound
  have htime : rate * (p.env.now - w.start) ≤ rate * (w.stop - w.start) :=
    mul_le_mul_of_nonneg_left (by linarith) hrate
  linarith

/-- The entries of the address after the packets of `past`. -/
structure Watched (T : ℕ → ITransport σ) (w : Watch) (rate burst : ℚ) (past : List (Handled σ))
    (net : NetworkManager σ) : Prop where
  single : (net.metersAt w.addr).length ≤ 1
  approved : ∀ m ∈ net.metersAt w.addr, m.approved
  backed : ∀ m ∈ net.metersAt w.addr, Backed T w rate burst past (w.limit.bucket m.limiter)
  spent : (w.accepted T past : ℚ) ≤ max 0 burst + rate * (w.stop - w.start) + w.excesses past
  idle : burst < 1 → w.accepted T past = 0

theorem Watched.sublist {net net' : NetworkManager σ} (h : Watched T w rate burst past net)
    (hsub : (net'.metersAt w.addr).Sublist (net.metersAt w.addr)) :
    Watched T w rate burst past net' where
  single := hsub.length_le.trans h.single
  approved m hm := h.approved m (hsub.subset hm)
  backed m hm := h.backed m (hsub.subset hm)
  spent := h.spent
  idle := h.idle

theorem Watched.skip {net : NetworkManager σ} (h : Watched T w rate burst past net)
    (hno : ¬w.counts T p) : Watched T w rate burst (past ++ [p]) net where
  single := h.single
  approved := h.approved
  backed m hm := (h.backed m hm).keep hno
  spent := by
    have hspent := h.spent
    have hexcess := w.excess_nonneg p
    rw [accepted_append, if_neg hno, excesses_append, Nat.add_zero]
    linarith
  idle hb := by
    rw [accepted_append, if_neg hno, h.idle hb]

/-- The limiter of the address is written. -/
theorem Watched.charge {net next : NetworkManager σ} {entry : ClientEntry} {limiter : RateLimiter}
    (h : Watched T w rate burst past net) (hfind : net.findClientByAddress w.addr = some entry)
    (hnext : next.meters = upsert Meter.address ⟨w.addr, entry.approved, limiter⟩ net.meters)
    (hbacked : Backed T w rate burst past (w.limit.bucket entry.rateLimiter) →
      Backed T w rate burst (past ++ [p]) (w.limit.bucket limiter))
    (hspent : (w.accepted T (past ++ [p]) : ℚ) ≤
      max 0 burst + rate * (w.stop - w.start) + w.excesses (past ++ [p]))
    (hidle : burst < 1 → w.accepted T (past ++ [p]) = 0) :
    Watched T w rate burst (past ++ [p]) next := by
  obtain ⟨ms, hms, hms'⟩ := metersAt_charge hfind hnext
  have hsingle := h.single
  rw [hms, List.length_cons] at hsingle
  obtain rfl := List.length_eq_zero_iff.mp (Nat.le_zero.mp (Nat.le_of_succ_le_succ hsingle))
  have hmem : entry.meter ∈ net.metersAt w.addr := by
    rw [hms]
    exact List.mem_cons_self
  refine ⟨?_, fun m hm => ?_, fun m hm => ?_, hspent, hidle⟩
  · rw [hms']
    exact le_refl _
  · rw [hms', List.mem_singleton] at hm
    rw [hm]
    exact h.approved entry.meter hmem
  · rw [hms', List.mem_singleton] at hm
    rw [hm]
    exact hbacked (h.backed entry.meter hmem)

/-! ### Packets -/

theorem Watched.counted (h : Watched T w rate burst past p.net) (hrate : 0 < rate)
    (hpast : Reached past p.env.now) (hcount : w.counts T p) :
    Watched T w rate burst (past ++ [p]) (p.after T) := by
  obtain ⟨entry, limiter, hfind, hnext, hbucket, hok⟩ := charged_of_counts hcount
  obtain ⟨hasks, haddr, -, -⟩ := asked_of_counts hcount
  have hbacked : Backed T w rate burst past (w.limit.bucket entry.rateLimiter) →
      Backed T w rate burst (past ++ [p]) (w.limit.bucket limiter) := by
    intro hb
    rw [hbucket]
    exact hb.consume hrate hpast (by rwa [haddr]) hasks haddr fun _ => hok
  obtain ⟨ms, hms⟩ := metersAt_of_find hfind
  have hold : Backed T w rate burst past (w.limit.bucket entry.rateLimiter) :=
    h.backed entry.meter (by rw [hms]; exact List.mem_cons_self)
  refine h.charge hfind hnext hbacked ((hbacked hold).spent hpast hcount) fun hb => ?_
  -- a bucket that never holds a whole token lets nothing through
  have henabled : ¬(w.limit.bucket entry.rateLimiter).Disabled := fun hoff => by
    have hsame := hold.rate
    linarith [hoff.1]
  rw [Bucket.consume_snd henabled, decide_eq_true_eq] at hok
  have hone := hok.trans (Bucket.refilled_le_burst _)
  rw [hold.burst] at hone
  rcases le_max_iff.mp hone with hzero | hburst'
  · exact absurd hzero (by norm_num)
  · exact absurd hburst' (not_le.mpr hb)

theorem metersAt_of_sender_ne {net next : NetworkManager σ} {addr : Address} {m : Meter}
    (hne : m.address ≠ addr) (h : next.meters = upsert Meter.address m net.meters ∨
      next.meters = net.meters ++ [m]) : next.metersAt addr = net.metersAt addr := by
  unfold metersAt
  rcases h with h | h
  · rw [h]
    exact filter_upsert_ne m net.meters hne
  · rw [h, List.filter_append, List.filter_cons_of_neg (by simpa using hne), List.filter_nil,
      List.append_nil]

/-- An address that is admitted had no entry. -/
theorem Watched.metersAt_nil {net : NetworkManager σ} (h : Watched T w rate burst past net)
    (hunknown : (net.findClientByAddress w.addr).filter ClientEntry.approved = none) :
    net.metersAt w.addr = [] := by
  rcases hfind : net.findClientByAddress w.addr with _ | entry
  · exact find_of_metersAt_nil hfind
  · obtain ⟨ms, hms⟩ := metersAt_of_find hfind
    have happroved : entry.approved := h.approved entry.meter (by rw [hms]; exact List.mem_cons_self)
    rw [hfind, Option.filter_some, if_pos happroved] at hunknown
    cases hunknown

/-- A packet that is not counted may still ask the bucket of the address. -/
theorem Watched.asked {entry : ClientEntry} {limiter : RateLimiter}
    (h : Watched T w rate burst past p.net) (hrate : 0 < rate) (hpast : Reached past p.env.now)
    (hno : ¬w.counts T p) (hfind : p.net.findClientByAddress p.sender = some entry)
    (hnext : (p.after T).meters = upsert Meter.address ⟨p.sender, entry.approved, limiter⟩ p.net.meters)
    (hlimiter : w.limit.bucket limiter = w.limit.bucket entry.rateLimiter ∨ w.limit.Asks p ∧
      w.limit.bucket limiter = ((w.limit.bucket entry.rateLimiter).consume .ieee 1 p.env.now).1) :
    Watched T w rate burst (past ++ [p]) (p.after T) := by
  have hskip := h.skip hno
  by_cases haddr : p.sender = w.addr
  · refine h.charge (by rwa [← haddr]) (by rwa [← haddr]) (fun hb => ?_) hskip.spent hskip.idle
    rcases hlimiter with hsame | ⟨hasks, htaken⟩
    · rw [hsame]
      exact hb.keep hno
    · rw [htaken]
      exact hb.consume hrate hpast hfind hasks haddr fun hc => absurd hc hno
  · apply hskip.sublist
    rw [metersAt_of_sender_ne haddr (.inl hnext)]

end

end

def atOnce : Watch := ⟨.messages, LoopbackHub.clientAddr, 0, 0 + 0⟩

end CampelloNet.NetworkManager
