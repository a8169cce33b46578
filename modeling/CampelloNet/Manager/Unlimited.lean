import CampelloNet.Manager.RateLimit

/-!
# A limit of zero

A limit of 0 is documented as no limit. The limiter of a client is configured with the limit as its rate and
with `rate_limit_burst` as its burst, and a bucket is disabled only if both are 0: with a rate of 0 and a
burst it lets through what can be taken out of the burst and nothing after that. No message and no RPC is
dropped exactly in the runs in which no client uses up its burst (`unlimited_iff`).
-/

namespace CampelloNet

open Lib Transport

/-! ### Buckets into which nothing comes -/

namespace RateLimiter

namespace Bucket

/-- What is left of a burst when the amounts were taken out of it one after the other. -/
def leftOf (burst : ℚ) (taken : List ℚ) : ℚ :=
  taken.foldl (fun tokens amount => Arith.ieee.single (tokens - amount)) burst

theorem leftOf_append (burst : ℚ) (taken : List ℚ) (amount : ℚ) :
    leftOf burst (taken ++ [amount]) = Arith.ieee.single (leftOf burst taken - amount) := by
  simp [leftOf]

/-- Up to 2^24 whole amounts are taken out exactly. -/
theorem leftOf_natCast {burst : ℚ} (hburst : binary32.Holds burst) (hmax : burst ≤ 2 ^ 24)
    (amounts : List ℕ) (h : (amounts.sum : ℚ) ≤ burst) :
    leftOf burst (amounts.map Nat.cast) = burst - amounts.sum := by
  induction amounts generalizing burst with
  | nil => simp [leftOf]
  | cons n amounts ih =>
    rw [List.sum_cons, Nat.cast_add] at h
    have hrest : (0 : ℚ) ≤ amounts.sum := Nat.cast_nonneg _
    have hsmall : (0 : ℚ) ≤ n := Nat.cast_nonneg n
    have hholds := hburst.sub_natCast (by decide) (n := n) (by linarith) hmax
    have hleft : leftOf burst ((n :: amounts).map Nat.cast) =
        leftOf (burst - n) (amounts.map Nat.cast) := by
      unfold leftOf
      rw [List.map_cons, List.foldl_cons]
      congr 1
      exact hholds.round_eq
    rw [hleft, ih hholds (by linarith) (by linarith), List.sum_cons, Nat.cast_add]
    ring

/-- There is no burst to use up, or there is enough of it left. -/
def HasRoom (taken : List ℚ) (amount : ℚ) (b : Bucket) : Prop :=
  b.burst ≤ 0 ∨ amount ≤ leftOf b.burst taken

instance (taken : List ℚ) (amount : ℚ) (b : Bucket) : Decidable (b.HasRoom taken amount) :=
  inferInstanceAs (Decidable (_ ∨ _))

/-- A bucket without a rate that has let through the amounts, all of them out of its burst. -/
structure Spent (taken : List ℚ) (b : Bucket) : Prop where
  rate : b.ratePerSec = 0
  tokens : 0 < b.burst → b.tokens = leftOf b.burst taken
  float : 0 < b.burst → binary32.Holds b.tokens
  fits : 0 < b.burst → b.tokens ≤ b.burst

variable {b : Bucket} {taken : List ℚ}

theorem spent_configure (burst now : ℚ) : (configure .ieee 0 burst now).Spent [] := by
  have hrate : max 0 (Arith.ieee.single 0) = 0 := by rw [Arith.ieee.single.zero, max_self]
  refine ⟨hrate, fun _ => rfl, fun hpos => ?_, fun _ => le_refl _⟩
  change 0 < max 0 (Arith.ieee.single burst) at hpos
  show binary32.Holds (max 0 (Arith.ieee.single burst))
  rw [max_eq_right ((lt_max_iff.mp hpos).resolve_left (lt_irrefl 0)).le]
  exact FloatFormat.holds_round burst

theorem spent_of_idle (hrate : b.ratePerSec = 0) (hburst : b.burst ≤ 0) : b.Spent taken :=
  ⟨hrate, fun h => absurd h (not_lt.mpr hburst), fun h => absurd h (not_lt.mpr hburst),
    fun h => absurd h (not_lt.mpr hburst)⟩

theorem Spent.refilled_eq (h : b.Spent taken) (hburst : 0 < b.burst) (now : ℚ) :
    b.refilled .ieee now = b.tokens := by
  have hsame : Arith.ieee.single b.tokens = b.tokens := (h.float hburst).round_eq
  unfold refilled
  dsimp only
  rw [h.rate, zero_mul, Arith.ieee.double.zero, Arith.ieee.single.zero, add_zero, hsame]
  exact min_eq_right (h.fits hburst)

/-- A request is granted if and only if there is room for it. -/
theorem Spent.consume_snd (h : b.Spent taken) (amount now : ℚ) :
    (b.consume .ieee amount now).2 = true ↔ b.HasRoom taken amount := by
  by_cases hburst : 0 < b.burst
  · have henabled : ¬b.Disabled := fun hno => absurd hno.2 (not_le.mpr hburst)
    rw [Bucket.consume_snd henabled, decide_eq_true_eq, h.refilled_eq hburst, h.tokens hburst]
    exact (or_iff_right (not_le.mpr hburst)).symm
  · rw [consume_disabled ⟨h.rate.le, not_lt.mp hburst⟩]
    exact iff_of_true rfl (.inl (not_lt.mp hburst))

/-- What is granted is taken out of the burst. -/
theorem Spent.consume (h : b.Spent taken) {amount : ℚ} (hamount : 0 ≤ amount) (now : ℚ)
    (hok : (b.consume .ieee amount now).2 = true) :
    (b.consume .ieee amount now).1.Spent (taken ++ [amount]) := by
  obtain ⟨hrate, hsame⟩ := @consume_limits .ieee b amount now
  by_cases hburst : 0 < b.burst
  · have henabled : ¬b.Disabled := fun hno => absurd hno.2 (not_le.mpr hburst)
    rw [Bucket.consume_snd henabled, decide_eq_true_eq, h.refilled_eq hburst] at hok
    have hleft : (b.consume .ieee amount now).1.tokens = Arith.ieee.single (b.tokens - amount) := by
      rw [consume_enabled henabled, h.refilled_eq hburst, if_pos hok]
    have hfits : Arith.ieee.single (b.tokens - amount) ≤ b.tokens :=
      FloatFormat.round_le (h.float hburst) (by linarith)
    refine ⟨hrate.trans h.rate, fun _ => ?_, fun _ => ?_, fun _ => ?_⟩
    · rw [hsame, leftOf_append, hleft, h.tokens hburst]
    · rw [hleft]
      exact FloatFormat.holds_round _
    · rw [hleft, hsame]
      exact hfits.trans (h.fits hburst)
  · exact spent_of_idle (hrate.trans h.rate) (hsame.le.trans (not_lt.mp hburst))

end Bucket

/-- What the limiter has let through since it was made: the lengths of the messages, and so many RPCs. -/
structure Unrefilled (messages : List ℕ) (rpcs : ℕ) (limiter : RateLimiter) : Prop where
  msg : limiter.msgBucket.Spent (messages.map fun _ => 1)
  byte : limiter.byteBucket.Spent (messages.map fun size : ℕ => Arith.ieee.single size)
  rpc : limiter.rpcBucket.Spent (.replicate rpcs 1)

/-- A limiter that is not configured. -/
structure Idle (limiter : RateLimiter) : Prop where
  rates : limiter.msgBucket.ratePerSec = 0 ∧ limiter.byteBucket.ratePerSec = 0 ∧
    limiter.rpcBucket.ratePerSec = 0
  bursts : limiter.msgBucket.burst ≤ 0 ∧ limiter.byteBucket.burst ≤ 0 ∧ limiter.rpcBucket.burst ≤ 0

/-- What was let through leaves room for a message. -/
def RoomForMessage (messages : List ℕ) (byteSize : ℕ) (limiter : RateLimiter) : Prop :=
  limiter.msgBucket.HasRoom (messages.map fun _ => 1) 1 ∧
    limiter.byteBucket.HasRoom (messages.map fun size : ℕ => Arith.ieee.single size)
      (Arith.ieee.single byteSize)

def RoomForRpc (rpcs : ℕ) (limiter : RateLimiter) : Prop :=
  limiter.rpcBucket.HasRoom (.replicate rpcs 1) 1

instance (messages : List ℕ) (byteSize : ℕ) (limiter : RateLimiter) :
    Decidable (limiter.RoomForMessage messages byteSize) := inferInstanceAs (Decidable (_ ∧ _))

instance (rpcs : ℕ) (limiter : RateLimiter) : Decidable (limiter.RoomForRpc rpcs) :=
  inferInstanceAs (Decidable (limiter.rpcBucket.HasRoom _ _))

section
variable {limiter : RateLimiter} {messages : List ℕ} {rpcs : ℕ}

theorem Idle.unrefilled (h : limiter.Idle) : limiter.Unrefilled messages rpcs :=
  ⟨Bucket.spent_of_idle h.rates.1 h.bursts.1, Bucket.spent_of_idle h.rates.2.1 h.bursts.2.1,
    Bucket.spent_of_idle h.rates.2.2 h.bursts.2.2⟩

theorem Unrefilled.allowMessage_snd (h : limiter.Unrefilled messages rpcs) (byteSize : ℕ) (now : ℚ) :
    (limiter.allowMessage .ieee byteSize now).2 = true ↔ limiter.RoomForMessage messages byteSize := by
  rw [(allowMessage_buckets .ieee byteSize now limiter).2.2.2, Bool.and_eq_true, h.msg.consume_snd,
    h.byte.consume_snd]
  rfl

theorem Unrefilled.allowMessage (h : limiter.Unrefilled messages rpcs) (byteSize : ℕ) (now : ℚ)
    (hok : (limiter.allowMessage .ieee byteSize now).2 = true) :
    (limiter.allowMessage .ieee byteSize now).1.Unrefilled (messages ++ [byteSize]) rpcs := by
  obtain ⟨hmsg, hbyte, hrpc, hboth⟩ := allowMessage_buckets .ieee byteSize now limiter
  rw [hboth, Bool.and_eq_true] at hok
  refine ⟨?_, ?_, ?_⟩
  · rw [hmsg, List.map_append]
    exact h.msg.consume zero_le_one now hok.1
  · rw [hbyte, List.map_append]
    exact h.byte.consume (Arith.ieee.single.nonneg (Nat.cast_nonneg _)) now hok.2
  · rw [hrpc]
    exact h.rpc

theorem Unrefilled.allowRpc_snd (h : limiter.Unrefilled messages rpcs) (now : ℚ) :
    (limiter.allowRpc .ieee now).2 = true ↔ limiter.RoomForRpc rpcs := h.rpc.consume_snd 1 now

theorem Unrefilled.allowRpc (h : limiter.Unrefilled messages rpcs) (now : ℚ)
    (hok : (limiter.allowRpc .ieee now).2 = true) :
    (limiter.allowRpc .ieee now).1.Unrefilled messages (rpcs + 1) := by
  refine ⟨h.msg, h.byte, ?_⟩
  rw [List.replicate_succ']
  exact h.rpc.consume zero_le_one now hok

end

end RateLimiter

namespace NetworkManager

open RateLimiter

variable {σ : Type} {T : ℕ → ITransport σ}

/-! ### What a client has sent -/

theorem admission_iff_checks {net : NetworkManager σ} {env : PacketEnv} {buffer : Bytes}
    {sender : Address} : net.Admission env buffer sender ↔
      net.serving ∧ buffer.length ≤ net.config.maxPacketSize ∧ isSystem buffer ∧
        buffer.getD 2 0 = SysType.connectRequest ∧
        ((net.findClientByAddress sender).filter ClientEntry.approved).isNone ∧
        (net.checkToken env (buffer.drop 3)).1 ∧ (net.callbacks.onApproval → env.approve) ∧
        net.clientCount < net.config.maxClients := by
  rw [Option.isNone_iff_eq_none]
  exact ⟨fun h => ⟨h.serving, h.fits, h.system, h.request, h.unknown, h.token, h.approval, h.room⟩,
    fun ⟨hs, hfits, hsys, hreq, hunknown, htoken, happroval, hroom⟩ =>
      ⟨hs, hfits, hsys, hreq, hunknown, htoken, happroval, hroom⟩⟩

instance (net : NetworkManager σ) (env : PacketEnv) (buffer : Bytes) (sender : Address) :
    Decidable (net.Admission env buffer sender) := decidable_of_iff' _ admission_iff_checks

/-- The packets after the last one that gave the address an entry. -/
def sinceEntered (addr : Address) (past : List (Handled σ)) : List (Handled σ) :=
  past.foldl (fun since p =>
    if p.sender = addr ∧ p.net.Admission p.env p.buffer p.sender then [] else since ++ [p]) []

/-- The lengths of the user messages of the address since it has its entry. -/
def messagesOf (addr : Address) (past : List (Handled σ)) : List ℕ :=
  ((sinceEntered addr past).filter fun p => p.sender = addr ∧ p.net.AsksMessage p.buffer).map
    fun p => p.buffer.length

/-- The number of its RPCs. -/
def rpcsOf (addr : Address) (past : List (Handled σ)) : ℕ :=
  (sinceEntered addr past).countP fun p => p.sender = addr ∧ p.net.AsksRpc p.buffer

namespace Handled

/-- The limiter of an approved client drops the packet. -/
def Dropped (p : Handled σ) : Prop := ∃ entry,
  p.net.findClientByAddress p.sender = some entry ∧ entry.approved ∧
    (p.net.AsksMessage p.buffer ∧
        (entry.rateLimiter.allowMessage .ieee p.buffer.length p.env.now).2 = false ∨
      p.net.AsksRpc p.buffer ∧ (entry.rateLimiter.allowRpc .ieee p.env.now).2 = false)

/-- The client has no burst to use up, or what it has sent before leaves enough of it for the packet. -/
def HasRoom (past : List (Handled σ)) (p : Handled σ) : Prop := ∀ entry,
  p.net.findClientByAddress p.sender = some entry → entry.approved →
    (p.net.AsksMessage p.buffer →
      entry.rateLimiter.RoomForMessage (messagesOf p.sender past) p.buffer.length) ∧
    (p.net.AsksRpc p.buffer → entry.rateLimiter.RoomForRpc (rpcsOf p.sender past))

end Handled

section
variable {past : List (Handled σ)} {p : Handled σ} {addr : Address}

theorem sinceEntered_append : sinceEntered addr (past ++ [p]) =
    if p.sender = addr ∧ p.net.Admission p.env p.buffer p.sender then []
    else sinceEntered addr past ++ [p] := by
  simp [sinceEntered]

theorem messagesOf_append (h : ¬(p.sender = addr ∧ p.net.Admission p.env p.buffer p.sender)) :
    messagesOf addr (past ++ [p]) = messagesOf addr past ++
      if p.sender = addr ∧ p.net.AsksMessage p.buffer then [p.buffer.length] else [] := by
  unfold messagesOf
  rw [sinceEntered_append, if_neg h, List.filter_append, List.map_append]
  congr 1
  by_cases hp : p.sender = addr ∧ p.net.AsksMessage p.buffer
  · simp [hp]
  · simp [hp]

theorem rpcsOf_append (h : ¬(p.sender = addr ∧ p.net.Admission p.env p.buffer p.sender)) :
    rpcsOf addr (past ++ [p]) = rpcsOf addr past +
      if p.sender = addr ∧ p.net.AsksRpc p.buffer then 1 else 0 := by
  unfold rpcsOf
  rw [sinceEntered_append, if_neg h, List.countP_append, List.countP_singleton]
  simp

/-- A packet of another sender is nothing to the address, nor is one that asks for nothing. -/
theorem sent_append_of_ne (past : List (Handled σ))
    (h : p.sender ≠ addr ∨ ¬p.net.Admission p.env p.buffer p.sender ∧
      ¬p.net.AsksMessage p.buffer ∧ ¬p.net.AsksRpc p.buffer) :
    messagesOf addr (past ++ [p]) = messagesOf addr past ∧
      rpcsOf addr (past ++ [p]) = rpcsOf addr past := by
  have hno : ¬(p.sender = addr ∧ p.net.Admission p.env p.buffer p.sender) := by
    rcases h with hne | ⟨hadm, -, -⟩
    · exact fun hboth => hne hboth.1
    · exact fun hboth => hadm hboth.2
  have hmessage : ¬(p.sender = addr ∧ p.net.AsksMessage p.buffer) := by
    rcases h with hne | ⟨-, hasks, -⟩
    · exact fun hboth => hne hboth.1
    · exact fun hboth => hasks hboth.2
  have hrpc : ¬(p.sender = addr ∧ p.net.AsksRpc p.buffer) := by
    rcases h with hne | ⟨-, -, hasks⟩
    · exact fun hboth => hne hboth.1
    · exact fun hboth => hasks hboth.2
  rw [messagesOf_append hno, rpcsOf_append hno, if_neg hmessage, if_neg hrpc]
  exact ⟨List.append_nil _, rfl⟩

/-- A packet asks for one thing. -/
theorem not_asksRpc (h : p.net.AsksMessage p.buffer) : ¬p.net.AsksRpc p.buffer := fun hrpc => by
  have huser := h.user
  rw [hrpc.system] at huser
  cases huser

theorem not_admission_of_message (h : p.net.AsksMessage p.buffer) :
    ¬p.net.Admission p.env p.buffer p.sender := fun hadm => by
  have huser := h.user
  rw [hadm.system] at huser
  cases huser

theorem not_admission_of_rpc (h : p.net.AsksRpc p.buffer) :
    ¬p.net.Admission p.env p.buffer p.sender := fun hadm => by
  have hrpc := h.rpc
  rw [hadm.request] at hrpc
  exact absurd hrpc (by decide)

end

/-! ### Limiters without a rate -/

/-- Each entry is of an approved client, the entries of local clients come after that of a peer, and
nothing comes into the buckets of a peer. -/
structure Paid (past : List (Handled σ)) (net : NetworkManager σ) : Prop where
  approved : ∀ m ∈ net.meters, m.approved
  idle : ∀ addr, ∀ m ∈ (net.metersAt addr).tail, m.limiter.Idle
  unrefilled : ∀ m ∈ net.meters,
    m.limiter.Unrefilled (messagesOf m.address past) (rpcsOf m.address past)

/-- The server sets no rates. -/
def Rateless (net : NetworkManager σ) : Prop :=
  net.config.maxMessagesPerSec = 0 ∧ net.config.maxBytesPerSec = 0 ∧ net.config.maxRpcsPerSec = 0

instance (net : NetworkManager σ) : Decidable net.Rateless := inferInstanceAs (Decidable (_ ∧ _ ∧ _))

section
variable {past : List (Handled σ)} {net net' : NetworkManager σ}

theorem mem_metersAt {addr : Address} {m : Meter} :
    m ∈ net.metersAt addr ↔ m ∈ net.meters ∧ m.address = addr := by
  simp [metersAt]

theorem mem_meters_of_find {addr : Address} {entry : ClientEntry}
    (h : net.findClientByAddress addr = some entry) : entry.meter ∈ net.meters :=
  List.mem_map_of_mem (lookup_mem h)

theorem idle_localEntry (id : ClientId) : (localEntry id).meter.limiter.Idle :=
  ⟨⟨rfl, rfl, rfl⟩, le_refl 0, le_refl 0, le_refl 0⟩

theorem mem_tail_of_sublist {α : Type*} {a : α} {l l' : List α} (h : l'.Sublist l) (ha : a ∈ l'.tail) :
    a ∈ l.tail := by
  have hdrop := (h.drop 1).subset
  rw [List.drop_one, List.drop_one] at hdrop
  exact hdrop ha

theorem Paid.sublist (h : Paid past net) (hsub : net'.meters.Sublist net.meters) : Paid past net' where
  approved m hm := h.approved m (hsub.subset hm)
  idle addr m hm := h.idle addr m (mem_tail_of_sublist (metersAt_sublist net addr hsub) hm)
  unrefilled m hm := h.unrefilled m (hsub.subset hm)

theorem Paid.same (h : Paid past net) (heq : net'.meters = net.meters) : Paid past net' :=
  h.sublist (by rw [heq])

/-- A local client comes last. -/
theorem Paid.enterLocal (h : Paid past net) {id : ClientId}
    (hsub : net'.meters.Sublist (net.meters ++ [(localEntry id).meter])) : Paid past net' := by
  have hmem : ∀ m ∈ net'.meters, m ∈ net.meters ∨ m = (localEntry id).meter := fun m hm => by
    simpa using hsub.subset hm
  refine ⟨fun m hm => ?_, fun addr m hm => ?_, fun m hm => ?_⟩
  · rcases hmem m hm with hold | rfl
    · exact h.approved m hold
    · rfl
  · have htail := mem_tail_of_sublist (hsub.filter fun m => m.address = addr) hm
    rw [List.filter_append] at htail
    rcases hold : net.metersAt addr with _ | ⟨first, ms⟩
    · change net.meters.filter _ = [] at hold
      rw [hold, List.nil_append] at htail
      have hnil : (List.filter (fun m : Meter => m.address = addr) [(localEntry id).meter]).tail = [] := by
        by_cases haddr : (localEntry id).meter.address = addr <;> simp [haddr]
      rw [hnil] at htail
      cases htail
    · have hidle := h.idle addr
      rw [hold] at hidle
      change net.meters.filter _ = first :: ms at hold
      rw [hold, List.cons_append, List.tail_cons] at htail
      rcases List.mem_append.mp htail with hms | hlocal
      · exact hidle m hms
      · obtain rfl := List.mem_singleton.mp (List.mem_of_mem_filter hlocal)
        exact idle_localEntry id
  · rcases hmem m hm with hold | rfl
    · exact h.unrefilled m hold
    · exact (idle_localEntry id).unrefilled

end

/-! ### Packets -/

section
variable {past : List (Handled σ)} {p : Handled σ}

/-- As long as nothing comes into the buckets, a packet is dropped if and only if there is no room for it. -/
theorem Paid.dropped_iff (h : Paid past p.net) : p.Dropped ↔ ¬p.HasRoom past := by
  have hlimiter : ∀ entry, p.net.findClientByAddress p.sender = some entry →
      entry.rateLimiter.Unrefilled (messagesOf p.sender past) (rpcsOf p.sender past) := by
    intro entry hfind
    have hunrefilled := h.unrefilled _ (mem_meters_of_find hfind)
    have haddr : entry.address = p.sender := lookup_key hfind
    rw [← haddr]
    exact hunrefilled
  unfold Handled.HasRoom
  push Not
  refine exists_congr fun entry => and_congr_right fun hfind => and_congr_right fun _ => ?_
  have hmessage := (hlimiter entry hfind).allowMessage_snd p.buffer.length p.env.now
  have hrpc := (hlimiter entry hfind).allowRpc_snd p.env.now
  rw [← Bool.not_eq_true, ← Bool.not_eq_true, hmessage, hrpc]
  tauto

/-- A packet that asks nothing and admits nobody. -/
theorem Paid.pass (h : Paid past p.net) {next : NetworkManager σ}
    (hsub : next.meters.Sublist p.net.meters)
    (hother : ∀ m ∈ next.meters, p.sender ≠ m.address ∨ ¬p.net.Admission p.env p.buffer p.sender ∧
      ¬p.net.AsksMessage p.buffer ∧ ¬p.net.AsksRpc p.buffer) : Paid (past ++ [p]) next := by
  have hpassed := h.sublist hsub
  refine ⟨hpassed.approved, hpassed.idle, fun m hm => ?_⟩
  obtain ⟨hmessages, hrpcs⟩ := sent_append_of_ne past (hother m hm)
  rw [hmessages, hrpcs]
  exact hpassed.unrefilled m hm

/-- The limiter of the sender is written. -/
theorem Paid.charge (h : Paid past p.net) {entry : ClientEntry} {limiter : RateLimiter}
    {next : NetworkManager σ} (hfind : p.net.findClientByAddress p.sender = some entry)
    (hnext : next.meters = upsert Meter.address ⟨p.sender, entry.approved, limiter⟩ p.net.meters)
    (hlimiter : entry.rateLimiter.Unrefilled (messagesOf p.sender past) (rpcsOf p.sender past) →
      limiter.Unrefilled (messagesOf p.sender (past ++ [p])) (rpcsOf p.sender (past ++ [p]))) :
    Paid (past ++ [p]) next := by
  obtain ⟨ms, hms, hms'⟩ := metersAt_charge hfind hnext
  have hentry : entry.meter ∈ p.net.metersAt p.sender := by
    rw [hms]
    exact List.mem_cons_self
  have hidle : ∀ m ∈ ms, m.limiter.Idle := fun m hm => h.idle p.sender m (by rwa [hms])
  have hother : ∀ addr, p.sender ≠ addr → next.metersAt addr = p.net.metersAt addr := fun addr hne =>
    metersAt_of_sender_ne (m := ⟨p.sender, entry.approved, limiter⟩) hne (.inl hnext)
  refine ⟨fun m hm => ?_, fun addr m hm => ?_, fun m hm => ?_⟩
  · rw [hnext] at hm
    rcases mem_upsert hm with rfl | hold
    · have happroved : entry.approved := h.approved entry.meter (mem_metersAt.mp hentry).1
      exact happroved
    · exact h.approved m hold
  · by_cases haddr : p.sender = addr
    · subst haddr
      rw [hms'] at hm
      exact hidle m hm
    · rw [hother addr haddr] at hm
      exact h.idle addr m hm
  · have hat : m ∈ next.metersAt m.address := mem_metersAt.mpr ⟨hm, rfl⟩
    by_cases haddr : p.sender = m.address
    · rw [← haddr, hms'] at hat
      rcases List.mem_cons.mp hat with rfl | hold
      · have hunrefilled := h.unrefilled _ (mem_metersAt.mp hentry).1
        rw [(mem_metersAt.mp hentry).2] at hunrefilled
        exact hlimiter hunrefilled
      · exact (hidle m hold).unrefilled
    · rw [hother _ haddr] at hat
      obtain ⟨hmessages, hrpcs⟩ := sent_append_of_ne past (.inl haddr)
      rw [hmessages, hrpcs]
      exact h.unrefilled m (mem_metersAt.mp hat).1

/-- A user message for which there is room. -/
theorem Paid.message (h : Paid past p.net) (hasks : p.net.AsksMessage p.buffer)
    (hroom : p.HasRoom past) : Paid (past ++ [p]) (p.after T) := by
  rcases hfind : p.net.findClientByAddress p.sender with _ | entry
  · have hsame : (p.after T).meters = p.net.meters := meters_message_none hasks hfind
    refine h.pass (by rw [hsame]) fun m hm => .inl fun haddr => ?_
    rw [hsame] at hm
    have hat : m ∈ p.net.metersAt p.sender := mem_metersAt.mpr ⟨hm, haddr.symm⟩
    rw [find_of_metersAt_nil hfind] at hat
    cases hat
  · refine h.charge hfind (meters_message hasks hfind) fun hlimiter => ?_
    have happroved : entry.approved := h.approved _ (mem_meters_of_find hfind)
    have hno : ¬(p.sender = p.sender ∧ p.net.Admission p.env p.buffer p.sender) :=
      fun hboth => not_admission_of_message hasks hboth.2
    rw [messagesOf_append hno, rpcsOf_append hno, if_pos ⟨rfl, hasks⟩,
      if_neg fun hboth => not_asksRpc hasks hboth.2]
    exact hlimiter.allowMessage _ _
      ((hlimiter.allowMessage_snd _ _).mpr ((hroom entry hfind happroved).1 hasks))

/-- An RPC for which there is room. -/
theorem Paid.rpc (h : Paid past p.net) (hasks : p.net.AsksRpc p.buffer) (hroom : p.HasRoom past) :
    Paid (past ++ [p]) (p.after T) := by
  rcases hfind : p.net.findClientByAddress p.sender with _ | entry
  · have hsame : (p.after T).meters = p.net.meters := meters_rpc_none hasks hfind
    refine h.pass (by rw [hsame]) fun m hm => .inl fun haddr => ?_
    rw [hsame] at hm
    have hat : m ∈ p.net.metersAt p.sender := mem_metersAt.mpr ⟨hm, haddr.symm⟩
    rw [find_of_metersAt_nil hfind] at hat
    cases hat
  · refine h.charge hfind (meters_rpc hasks hfind) fun hlimiter => ?_
    have happroved : entry.approved := h.approved _ (mem_meters_of_find hfind)
    have hno : ¬(p.sender = p.sender ∧ p.net.Admission p.env p.buffer p.sender) :=
      fun hboth => not_admission_of_rpc hasks hboth.2
    rw [messagesOf_append hno, rpcsOf_append hno,
      if_neg fun hboth => not_asksRpc hboth.2 hasks, if_pos ⟨rfl, hasks⟩, List.append_nil]
    exact hlimiter.allowRpc _ ((hlimiter.allowRpc_snd _).mpr ((hroom entry hfind happroved).2 hasks))

/-- A new client's limiter is full, and stays without a rate. -/
theorem unrefilled_newEntry {net : NetworkManager σ} (h : net.Rateless) (env : PacketEnv) (t : ℕ)
    (sender : Address) : (net.newEntry env t sender).rateLimiter.Unrefilled [] 0 := by
  obtain ⟨hmsg, hbyte, hrpc⟩ := h
  unfold newEntry
  rw [hmsg, hbyte, hrpc]
  exact ⟨Bucket.spent_configure _ _, Bucket.spent_configure _ _, Bucket.spent_configure _ _⟩

/-- Only an address without an entry is admitted. -/
theorem Paid.metersAt_nil (h : Paid past p.net) (hadm : p.net.Admission p.env p.buffer p.sender) :
    p.net.metersAt p.sender = [] := by
  rcases hfind : p.net.findClientByAddress p.sender with _ | entry
  · exact find_of_metersAt_nil hfind
  · have happroved : entry.approved := h.approved _ (mem_meters_of_find hfind)
    have hunknown := hadm.unknown
    rw [hfind, Option.filter_some, if_pos happroved] at hunknown
    cases hunknown

/-- A client is admitted, or asked for. -/
theorem Paid.admission (h : Paid past p.net) (hconfig : p.net.Rateless)
    (hadm : p.net.Admission p.env p.buffer p.sender) : Paid (past ++ [p]) (p.after T) := by
  have hnil := h.metersAt_nil hadm
  have hother : ∀ {m : Meter}, m ∈ p.net.meters → p.sender ≠ m.address := fun hm haddr => by
    have hat := mem_metersAt.mpr ⟨hm, haddr.symm⟩
    rw [hnil] at hat
    cases hat
  have he : (p.before T).MeterEffect p.env p.transport p.buffer p.sender (p.after T).meters :=
    meterEffect_handlePacket p.env p.transport p.buffer p.sender
  generalize hms : (p.after T).meters = ms at he
  cases he with
  | fewer hsub =>
    have hsub' : (p.after T).meters.Sublist p.net.meters := by
      rw [hms]
      exact hsub
    exact h.pass hsub' fun m hm => .inl (hother (hsub'.subset hm))
  | entered hserving =>
    have hmem : ∀ m ∈ (p.after T).meters, m ∈ p.net.meters ∨
        m = ((p.before T).newEntry p.env p.transport p.sender).meter := fun m hm => by
      rw [hms] at hm
      rcases List.mem_append.mp hm with hold | hnew
      · exact .inl hold
      · exact .inr (List.mem_singleton.mp hnew)
    refine ⟨fun m hm => ?_, fun addr m hm => ?_, fun m hm => ?_⟩
    · rcases hmem m hm with hold | rfl
      · exact h.approved m hold
      · rfl
    · by_cases haddr : p.sender = addr
      · subst haddr
        have hone : (p.after T).metersAt p.sender =
            [((p.before T).newEntry p.env p.transport p.sender).meter] := by
          have hown : ((p.before T).newEntry p.env p.transport p.sender).meter.address = p.sender := rfl
          unfold metersAt at hnil ⊢
          rw [hms, List.filter_append, List.filter_cons_of_pos (by simp [hown])]
          exact congrArg (· ++ _) hnil
        rw [hone] at hm
        cases hm
      · rw [@metersAt_of_sender_ne _ p.net _ _ _ haddr (.inr hms)] at hm
        exact h.idle addr m hm
    · rcases hmem m hm with hold | rfl
      · obtain ⟨hmessages, hrpcs⟩ := sent_append_of_ne past (.inl (hother hold))
        rw [hmessages, hrpcs]
        exact h.unrefilled m hold
      · have hstart : sinceEntered p.sender (past ++ [p]) = [] := by
          rw [sinceEntered_append, if_pos ⟨rfl, hadm⟩]
        show (RateLimiter.Unrefilled (messagesOf p.sender (past ++ [p]))
          (rpcsOf p.sender (past ++ [p])) _)
        unfold messagesOf rpcsOf
        rw [hstart]
        exact unrefilled_newEntry (show (p.before T).Rateless from hconfig) p.env p.transport p.sender
  | message hfind hasked =>
    exact absurd hadm (not_admission_of_message
      ⟨hasked.serving, hasked.nonempty, hasked.fits, hasked.user⟩)
  | rpc hfind hasked =>
    exact absurd hadm (not_admission_of_rpc
      ⟨hasked.serving, hasked.fits, hasked.system, hasked.rpc, hasked.attached⟩)

/-- Any other packet. -/
theorem Paid.other (h : Paid past p.net) (hadm : ¬p.net.Admission p.env p.buffer p.sender)
    (hmessage : ¬p.net.AsksMessage p.buffer) (hrpc : ¬p.net.AsksRpc p.buffer) :
    Paid (past ++ [p]) (p.after T) := by
  have he : (p.before T).MeterEffect p.env p.transport p.buffer p.sender (p.after T).meters :=
    meterEffect_handlePacket p.env p.transport p.buffer p.sender
  generalize hms : (p.after T).meters = ms at he
  cases he with
  | fewer hsub =>
    have hsub' : (p.after T).meters.Sublist p.net.meters := by
      rw [hms]
      exact hsub
    exact h.pass hsub' fun _ _ => .inr ⟨hadm, hmessage, hrpc⟩
  | entered hserving =>
    have hentered : (p.before T).Admission p.env p.buffer p.sender := by
      apply admission_of_longer (T := T) (t := p.transport)
      show _ < (p.after T).meters.length
      rw [hms, List.length_append, List.length_singleton]
      omega
    exact absurd ⟨hentered.serving, hentered.fits, hentered.system, hentered.request, hentered.unknown,
      hentered.token, hentered.approval, hentered.room⟩ hadm
  | message hfind hasked =>
    exact absurd ⟨hasked.serving, hasked.nonempty, hasked.fits, hasked.user⟩ hmessage
  | rpc hfind hasked =>
    exact absurd ⟨hasked.serving, hasked.fits, hasked.system, hasked.rpc, hasked.attached⟩ hrpc

/-- A packet for which there is room leaves the limiters as they should be. -/
theorem Paid.after (h : Paid past p.net) (hconfig : p.net.serving → p.net.Rateless)
    (hroom : p.HasRoom past) : Paid (past ++ [p]) (p.after T) := by
  by_cases hmessage : p.net.AsksMessage p.buffer
  · exact h.message hmessage hroom
  · by_cases hrpc : p.net.AsksRpc p.buffer
    · exact h.rpc hrpc hroom
    · by_cases hadm : p.net.Admission p.env p.buffer p.sender
      · exact h.admission (hconfig hadm.serving) hadm
      · exact h.other hadm hmessage hrpc

end

/-! ### Runs -/

/-- Each packet finds room in the burst of its client. -/
def AllHaveRoom (packets : List (Handled σ)) : Prop :=
  ∀ before p after, packets = before ++ p :: after → p.HasRoom before

theorem allHaveRoom_append {packets : List (Handled σ)} {p : Handled σ} :
    AllHaveRoom (packets ++ [p]) ↔ AllHaveRoom packets ∧ p.HasRoom packets := by
  constructor
  · intro h
    refine ⟨fun before q after heq => h before q (after ++ [p]) ?_, h packets p [] rfl⟩
    rw [heq, List.append_assoc, List.cons_append]
  · rintro ⟨hall, hlast⟩ before q after heq
    rcases List.eq_nil_or_concat after with rfl | ⟨init, last, rfl⟩
    · obtain ⟨rfl, hq⟩ := List.append_inj' heq rfl
      obtain rfl := List.singleton_inj.mp hq
      exact hlast
    · rw [List.concat_eq_append, ← List.cons_append, ← List.append_assoc] at heq
      obtain ⟨heq, -⟩ := List.append_inj' heq rfl
      exact hall before q init heq

/-- In every run of a server that sets no rates, from its start, the limiters drop no message and no RPC of
an approved client if and only if each of these finds room in the burst of its client. -/
theorem unlimited_iff (T : ℕ → ITransport σ) (net net' : NetworkManager σ) (run : List (Call σ))
    (hclients : net.clients = []) (h : Run.exec (step T) net run = some net')
    (hconfig : ∀ p ∈ net.history T run, p.net.serving → p.net.Rateless) :
    (∀ p ∈ net.history T run, ¬p.Dropped) ↔ AllHaveRoom (net.history T run) := by
  have hmeters : net.meters = [] := by
    unfold meters
    rw [hclients]
    rfl
  have hbegin : Paid [] net := by
    refine ⟨fun m hm => ?_, fun addr m hm => ?_, fun m hm => ?_⟩
    · rw [hmeters] at hm
      cases hm
    · unfold metersAt at hm
      rw [hmeters] at hm
      cases hm
    · rw [hmeters] at hm
      cases hm
  have hall : Run.Admits (step T) (fun _ _ => True) net run := .of_forall (fun _ _ _ => trivial) net
  -- up to the first packet for which there is no room nothing is dropped, and this one is
  refine ((history_past (J := fun past n =>
    ((∀ q ∈ past, ¬q.Dropped) ↔ AllHaveRoom past) ∧ (AllHaveRoom past → Paid past n))
    ?_ [] ?_ ?_ ?_ h hall ?_ ?_).2).1
  · intro past n t hn
    exact ⟨hn.1, fun hpast => (hn.2 hpast).same rfl⟩
  · intro past n call n' hn _ hpoll hstep
    refine ⟨hn.1, fun hpast => ?_⟩
    rcases meters_step n hstep hpoll with hfewer | ⟨id, hlocal⟩
    · exact (hn.2 hpast).sublist hfewer
    · exact (hn.2 hpast).enterLocal hlocal
  · intro past n hn
    exact ⟨hn.1, fun hpast => (hn.2 hpast).same rfl⟩
  · intro past n env hn
    exact ⟨hn.1, fun hpast => (hn.2 hpast).same (meters_finishPoll n env)⟩
  · intro before p after heq hp
    rw [List.nil_append] at hp ⊢
    have hmem : p ∈ net.history T run := by
      rw [heq]
      simp
    rw [allHaveRoom_append, List.forall_mem_append, List.forall_mem_singleton]
    refine ⟨⟨fun ⟨hbefore, hkept⟩ => ?_, fun ⟨hbefore, hroom⟩ => ?_⟩, fun ⟨hbefore, hroom⟩ => ?_⟩
    · have hrooms := hp.1.mp hbefore
      exact ⟨hrooms, not_not.mp fun hno => hkept ((hp.2 hrooms).dropped_iff.mpr hno)⟩
    · exact ⟨hp.1.mpr hbefore, fun hdropped => (hp.2 hbefore).dropped_iff.mp hdropped hroom⟩
    · exact (hp.2 hbefore).after (hconfig p hmem) hroom
  · refine ⟨iff_of_true (fun q hq => absurd hq List.not_mem_nil) fun before p after heq => ?_,
      fun _ => hbegin⟩
    exact absurd heq.symm (List.append_ne_nil_of_right_ne_nil _ (List.cons_ne_nil _ _))

/-! ### A server with a burst -/

instance (past : List (Handled σ)) (p : Handled σ) : Decidable (p.HasRoom past) :=
  inferInstanceAs (Decidable (∀ entry ∈ p.net.findClientByAddress p.sender, _))

theorem allHaveRoom_of_get {packets : List (Handled σ)}
    (h : ∀ i : Fin packets.length, (packets.get i).HasRoom (packets.take i)) : AllHaveRoom packets := by
  rintro before p after rfl
  have hp := h ⟨before.length, by simp⟩
  simpa using hp

/-- A server without limits and with the given burst. -/
def burstConfig (burst : ℚ) : Config :=
  { mode := .server, bindAddress := LoopbackHub.serverAddr, maxMessagesPerSec := 0, maxBytesPerSec := 0,
    maxRpcsPerSec := 0, rateLimitBurst := burst }

/-- A client connects and sends two messages. -/
def twoMessagesTo (config : Config) : List (Call LoopbackHub) :=
  [.start config 0, .network (LoopbackHub.arrived [sysPacket SysType.connectRequest [], [7], [8]]), pollCall 3]

/-- A burst of two is enough for them. -/
theorem unlimited_twoMessages :
    (tokenServer.history loopback (twoMessagesTo (burstConfig 2))).length = 3 ∧
      ∀ p ∈ tokenServer.history loopback (twoMessagesTo (burstConfig 2)), ¬p.Dropped := by
  refine ⟨by decide +kernel, ?_⟩
  have hexec : (Run.exec (step loopback) tokenServer (twoMessagesTo (burstConfig 2))).isSome := by
    decide +kernel
  obtain ⟨net', h⟩ := Option.isSome_iff_exists.mp hexec
  apply (unlimited_iff loopback tokenServer net' (twoMessagesTo (burstConfig 2)) rfl h
    (by decide +kernel)).mpr
  exact allHaveRoom_of_get (by decide +kernel)

/-- The limiter of the sender refuses a user message. -/
def refusesMessage (p : Handled σ) : Bool :=
  p.net.AsksMessage p.buffer ∧ (p.net.findClientByAddress p.sender).any fun entry =>
    entry.approved && (entry.rateLimiter.allowMessage .ieee p.buffer.length p.env.now).2 = false

theorem dropped_of_refusesMessage {p : Handled σ} (h : refusesMessage p) : p.Dropped := by
  unfold refusesMessage at h
  simp only [decide_eq_true_eq, Option.any_eq_true, Bool.and_eq_true] at h
  obtain ⟨hasks, entry, hfind, happroved, hno⟩ := h
  exact ⟨entry, hfind, happroved, .inl ⟨hasks, hno⟩⟩

/-- A limit of 0 is none. -/
def AlwaysUnlimited : Prop :=
  ∀ (net net' : NetworkManager LoopbackHub) (run : List (Call LoopbackHub)), net.clients = [] →
    Run.exec (step loopback) net run = some net' →
    (∀ p ∈ net.history loopback run, p.net.serving → p.net.Rateless) →
    ∀ p ∈ net.history loopback run, ¬p.Dropped

/-- With a burst of one the second message is dropped. -/
theorem not_alwaysUnlimited : ¬AlwaysUnlimited := by
  intro hunlimited
  have hexec : (Run.exec (step loopback) tokenServer (twoMessagesTo (burstConfig 1))).isSome := by
    decide +kernel
  obtain ⟨net', h⟩ := Option.isSome_iff_exists.mp hexec
  have hrefused : ∃ p ∈ tokenServer.history loopback (twoMessagesTo (burstConfig 1)), refusesMessage p := by
    decide +kernel
  obtain ⟨p, hp, hrefuses⟩ := hrefused
  exact hunlimited tokenServer net' _ rfl h (by decide +kernel) p hp (dropped_of_refusesMessage hrefuses)

end NetworkManager

end CampelloNet
