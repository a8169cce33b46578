import CampelloNet.Transport.Udp.ConnectionRun

/-!
# Retries and transmissions

`resend_pending` counts a retry of a message before it asks for the bandwidth to send it, so a retry
may send nothing. Each pending message is followed with what became of its retries: the eleventh retry,
which gives the connection up, comes after ten for each of its packets, handed to `send_raw` or refused
for want of bandwidth.
-/

namespace CampelloNet.Transport.Udp

open Lib

/-- A pending message, and what `resend_pending` did with it so far. -/
abbrev Tracked := Pending × List Attempt

/-- The number of packets of a message. -/
def pieces (p : Pending) : ℕ := if p.fragmented then numFragments p.data else 1

namespace Attempt

def isAgain (i : ℕ) : Attempt → Bool
  | again j _ _ => j = i
  | reset | first _ _ | refused _ => false

def isRefused (i : ℕ) : Attempt → Bool
  | refused j => j = i
  | reset | first _ _ | again _ _ _ => false

end Attempt

/-- How often `resend_pending` handed piece `i` to `send_raw`. -/
def handed (i : ℕ) (past : List Attempt) : ℕ := past.countP (Attempt.isAgain i)

/-- How often the bandwidth did not suffice for piece `i`. -/
def refusals (i : ℕ) (past : List Attempt) : ℕ := past.countP (Attempt.isRefused i)

/-! ### Following the pending messages -/

variable (io : Io) (t : Time)

/-- `resendChannel` on pending messages with their pasts, and the message it gave up. -/
def traceChannel (ch : Fin 4) : List Tracked → Connection → List Tracked × Option Tracked
  | [], _ => ([], none)
  | (p, past) :: rest, conn =>
    if t - p.sendTime > timeout conn then
      let p := { p with sendTime := t, retries := p.retries + 1 }
      if p.retries > 10 then ((p, past) :: rest, some (p, past))
      else
        let (rest, blamed) := traceChannel ch rest (resendEntry io ch p conn).1
        ((p, past ++ resendEntryLog io ch p conn) :: rest, blamed)
    else
      let (rest, blamed) := traceChannel ch rest conn
      ((p, past) :: rest, blamed)

/-- `resendChannels`, likewise. -/
def traceChannels : List (Fin 4) → (Fin 4 → List Tracked) → Connection →
    (Fin 4 → List Tracked) × Option Tracked
  | [], entries, _ => (entries, none)
  | ch :: chs, entries, conn =>
    let (tracked, blamed) := traceChannel io t ch (entries ch) conn
    let entries := Function.update entries ch tracked
    match blamed with
    | some entry => (entries, some entry)
    | none =>
      let (conn, pending, _, _) := resendChannel io t ch (conn.channels ch).pending conn
      traceChannels chs entries (conn.setChannel ch { conn.channels ch with pending := pending })

/-- A connection whose pending messages are followed. -/
structure Traced where
  conn : Connection
  entries : Fin 4 → List Tracked

def traceCall (x : Traced) (c : ConnectionCall) : Traced where
  conn := connectionCall x.conn c
  entries :=
    match c with
    | .send _ _ _ _ => fun ch => x.entries ch ++
        (((connectionCall x.conn c).channels ch).pending.drop (x.entries ch).length).map (·, [])
    | .receive _ hdr _ => fun ch =>
        if hdr.protocolId = PacketHeader.PROTOCOL_ID ∧ ch = hdr.channel ∧
            (PacketReliability.ofIndex ch).isReliable then
          (x.entries ch).filter fun entry => !isAcked entry.1.sequence hdr.ack hdr.ackBits
        else x.entries ch
    | .service io t =>
      if x.conn.state = .connected then (traceChannels io t (List.finRange 4) x.entries x.conn).1
      else x.entries
    | .limitConnection _ | .limitChannel _ _ => x.entries

def trace (conn : Connection) (calls : List ConnectionCall) : Traced :=
  calls.foldl traceCall ⟨conn, fun _ => []⟩

/-- The message because of which `resend_pending` gives the connection up in a poll. -/
def blamed (x : Traced) : Option Tracked :=
  if x.conn.state = .connected then (traceChannels io t (List.finRange 4) x.entries x.conn).2 else none

/-! ### One retry -/

theorem handed_append (i : ℕ) (past past' : List Attempt) :
    handed i (past ++ past') = handed i past + handed i past' := List.countP_append

theorem refusals_append (i : ℕ) (past past' : List Attempt) :
    refusals i (past ++ past') = refusals i past + refusals i past' := List.countP_append

theorem handed_resetLog (i : ℕ) (conn : Connection) : handed i (resetLog io conn) = 0 := by
  rw [resetLog]
  split_ifs <;> rfl

theorem refusals_resetLog (i : ℕ) (conn : Connection) : refusals i (resetLog io conn) = 0 := by
  rw [resetLog]
  split_ifs <;> rfl

/-- Handed over or refused, it is one try. -/
theorem tried_cons (i j : ℕ) {e : Attempt} (he : e = .refused j ∨ ∃ hdr payload, e = .again j hdr payload)
    (past : List Attempt) : handed i (e :: past) + refusals i (e :: past) =
      handed i past + refusals i past + if j = i then 1 else 0 := by
  have hcount : handed i (e :: past) = handed i past + (if e.isAgain i then 1 else 0) ∧
      refusals i (e :: past) = refusals i past + (if e.isRefused i then 1 else 0) :=
    ⟨List.countP_cons, List.countP_cons⟩
  rw [hcount.1, hcount.2]
  rcases he with rfl | ⟨hdr, payload, rfl⟩
  · simp [Attempt.isAgain, Attempt.isRefused, Nat.add_assoc]
  · simp [Attempt.isAgain, Attempt.isRefused, Nat.add_right_comm]

theorem tried_resendFragmentsLog (i : ℕ) (ch : Fin 4) (p : Pending) (is : List ℕ) (conn : Connection) :
    handed i (resendFragmentsLog io ch p is conn) + refusals i (resendFragmentsLog io ch p is conn) =
      is.count i := by
  induction is generalizing conn with
  | nil => rfl
  | cons j is ih =>
    have hcount : (j :: is).count i = is.count i + if j = i then 1 else 0 := by
      rw [List.count_cons]
      simp
    rw [resendFragmentsLog, handed_append, refusals_append, handed_resetLog, refusals_resetLog,
      Nat.zero_add, Nat.zero_add, hcount]
    rcases checkAndConsumeBandwidth io conn ch (PacketHeader.SIZE + MAX_PAYLOAD_SIZE) with ⟨conn₁, ok⟩
    cases ok with
    | false => exact (tried_cons i j (.inl rfl) _).trans (by rw [ih])
    | true => exact (tried_cons i j (.inr ⟨_, _, rfl⟩) _).trans (by rw [ih])

/-- One retry tries each packet of the message once. -/
theorem tried_resendEntryLog {i : ℕ} (ch : Fin 4) {p : Pending} (hi : i < pieces p) (conn : Connection) :
    handed i (resendEntryLog io ch p conn) + refusals i (resendEntryLog io ch p conn) = 1 := by
  rw [pieces] at hi
  rw [resendEntryLog]
  by_cases hfrag : p.fragmented = true
  · rw [if_pos hfrag] at hi ⊢
    rw [tried_resendFragmentsLog]
    exact List.count_eq_one_of_mem List.nodup_range (List.mem_range.mpr hi)
  · rw [if_neg hfrag] at hi ⊢
    have hzero : i = 0 := by omega
    rw [handed_append, refusals_append, handed_resetLog, refusals_resetLog, Nat.zero_add, Nat.zero_add,
      hzero]
    rcases checkAndConsumeBandwidth io conn ch (PacketHeader.SIZE + p.data.length) with ⟨conn₁, ok⟩
    cases ok with
    | false => exact tried_cons 0 0 (.inl rfl) []
    | true => exact tried_cons 0 0 (.inr ⟨_, _, rfl⟩) []

/-- Every retry counted was a try of each packet. -/
structure Counted (entry : Tracked) : Prop where
  retries : entry.1.retries ≤ 10
  tries : ∀ i < pieces entry.1, handed i entry.2 + refusals i entry.2 = entry.1.retries.toNat

/-- Each packet of the message was tried ten times. -/
def Exhausted (entry : Tracked) : Prop :=
  ∀ i < pieces entry.1, handed i entry.2 + refusals i entry.2 = 10

/-- A message that is due: after its eleventh retry it had ten tries, and before that one more. -/
theorem counted_retry {p : Pending} {past : List Attempt} (h : Counted (p, past)) (ch : Fin 4)
    (conn : Connection) :
    (p.retries + 1 > 10 → Exhausted ({ p with sendTime := t, retries := p.retries + 1 }, past)) ∧
    (¬p.retries + 1 > 10 → Counted ({ p with sendTime := t, retries := p.retries + 1 },
      past ++ resendEntryLog io ch { p with sendTime := t, retries := p.retries + 1 } conn)) := by
  have hbound : p.retries.toNat ≤ 10 := UInt8.le_iff_toNat_le.mp h.retries
  have hnext : (p.retries + 1).toNat = p.retries.toNat + 1 := by
    rw [UInt8.toNat_add]
    have : (1 : UInt8).toNat = 1 := rfl
    omega
  have hten : (10 : UInt8).toNat = 10 := rfl
  refine ⟨fun hlast i hi => ?_, fun hmore => ⟨?_, fun i hi => ?_⟩⟩
  · have htries : handed i past + refusals i past = p.retries.toNat := h.tries i hi
    have hlast' := UInt8.lt_iff_toNat_lt.mp hlast
    dsimp only
    omega
  · exact UInt8.not_lt.mp hmore
  · have htries : handed i past + refusals i past = p.retries.toNat := h.tries i hi
    have hone := tried_resendEntryLog (p := { p with sendTime := t, retries := p.retries + 1 }) io ch hi
      conn
    dsimp only
    rw [handed_append, refusals_append, hnext]
    omega

theorem traceChannel_counted (ch : Fin 4) (entries : List Tracked) (conn : Connection)
    (h : ∀ entry ∈ entries, Counted entry) :
    ((traceChannel io t ch entries conn).2 = none →
      ∀ entry ∈ (traceChannel io t ch entries conn).1, Counted entry) ∧
    ∀ entry ∈ (traceChannel io t ch entries conn).2, Exhausted entry := by
  induction entries generalizing conn with
  | nil => exact ⟨fun _ => h, fun _ hnone => nomatch hnone⟩
  | cons entry rest ih =>
    obtain ⟨p, past⟩ := entry
    have hrest := fun conn => ih conn fun entry hentry => h entry (List.mem_cons_of_mem _ hentry)
    have hhead := h (p, past) List.mem_cons_self
    obtain ⟨hlast, hmore⟩ := counted_retry io t hhead ch conn
    rw [traceChannel]
    dsimp only
    split_ifs with hdue hretries
    · refine ⟨fun hsome => (nomatch hsome), fun entry hentry => ?_⟩
      cases hentry
      exact hlast hretries
    · refine ⟨fun hnone entry hentry => ?_, (hrest _).2⟩
      rcases List.mem_cons.mp hentry with rfl | hmem
      · exact hmore hretries
      · exact (hrest _).1 hnone entry hmem
    · refine ⟨fun hnone entry hentry => ?_, (hrest _).2⟩
      rcases List.mem_cons.mp hentry with rfl | hmem
      · exact hhead
      · exact (hrest _).1 hnone entry hmem

theorem traceChannels_counted (chs : List (Fin 4)) (entries : Fin 4 → List Tracked) (conn : Connection)
    (h : ∀ ch, ∀ entry ∈ entries ch, Counted entry) :
    ((traceChannels io t chs entries conn).2 = none →
      ∀ ch, ∀ entry ∈ (traceChannels io t chs entries conn).1 ch, Counted entry) ∧
    ∀ entry ∈ (traceChannels io t chs entries conn).2, Exhausted entry := by
  induction chs generalizing entries conn with
  | nil => exact ⟨fun _ => h, fun _ hnone => nomatch hnone⟩
  | cons ch chs ih =>
    obtain ⟨hcounted, hexhausted⟩ := traceChannel_counted io t ch (entries ch) conn (h ch)
    rw [traceChannels]
    rcases htrace : traceChannel io t ch (entries ch) conn with ⟨tracked, last⟩
    rw [htrace] at hcounted hexhausted
    cases last with
    | some entry => exact ⟨fun hsome => (nomatch hsome), hexhausted⟩
    | none =>
      refine ih _ _ fun c entry hentry => ?_
      by_cases hc : c = ch
      · subst hc
        rw [Function.update_self] at hentry
        exact hcounted rfl entry hentry
      · rw [Function.update_of_ne hc] at hentry
        exact h c entry hentry

/-! ### The trace and the connection -/

/-- The operations of a connection that leave its pending messages alone. -/
def SamePending (conn conn' : Connection) : Prop :=
  ∀ ch, (conn'.channels ch).pending = (conn.channels ch).pending

namespace SamePending

variable {conn conn' conn'' : Connection}

theorem refl (conn : Connection) : SamePending conn conn := fun _ => rfl

theorem trans (h : SamePending conn conn') (h' : SamePending conn' conn'') : SamePending conn conn'' :=
  fun ch => (h' ch).trans (h ch)

theorem setChannel (h : SamePending conn conn') {ch : Fin 4} {channel : Channel}
    (hc : channel.pending = (conn.channels ch).pending) :
    SamePending conn (conn'.setChannel ch channel) := by
  intro c
  rw [Connection.channels_setChannel]
  split_ifs with hcc
  · rw [hcc, hc]
  · exact h c

end SamePending

theorem checkAndConsumeBandwidth_pending (conn : Connection) (ch : Fin 4) (size : ℕ) :
    SamePending conn (checkAndConsumeBandwidth io conn ch size).1 := by
  have hreset : SamePending conn (resetBandwidthCounters conn io.now) := by
    rw [resetBandwidthCounters]
    split_ifs <;> exact fun _ => rfl
  rw [checkAndConsumeBandwidth]
  dsimp only
  split_ifs
  · exact hreset
  · exact hreset
  · exact hreset.setChannel (hreset ch)

theorem sendFragments_pending (r : PacketReliability) (base : UInt16) (data : Bytes) (is : List ℕ)
    (conn : Connection) : SamePending conn (sendFragments io r base data is conn).1 := by
  induction is generalizing conn with
  | nil => exact SamePending.refl conn
  | cons i is ih =>
    have hask : SamePending conn (if r.isReliable then (conn, true)
        else checkAndConsumeBandwidth io conn r.index (PacketHeader.SIZE + MAX_PAYLOAD_SIZE)).1 := by
      split_ifs
      · exact SamePending.refl conn
      · exact checkAndConsumeBandwidth_pending io conn _ _
    rw [sendFragments]
    rcases hcheck : (if r.isReliable then (conn, true)
      else checkAndConsumeBandwidth io conn r.index (PacketHeader.SIZE + MAX_PAYLOAD_SIZE))
      with ⟨conn₁, ok⟩
    rw [hcheck] at hask
    cases ok with
    | false => exact hask
    | true =>
      dsimp only
      cases sendRaw io conn₁.address (fragmentHeader r.index (conn₁.channels r.index) base i
        (numFragments data) (fragmentOf data i).length) (fragmentOf data i) with
      | none => exact hask
      | some d => exact hask.trans (ih { conn₁ with lastSendTime := io.now })

theorem resendFragments_pending (ch : Fin 4) (p : Pending) (is : List ℕ) (conn : Connection) :
    SamePending conn (resendFragments io ch p is conn).1 := by
  induction is generalizing conn with
  | nil => exact SamePending.refl conn
  | cons i is ih =>
    have hask := checkAndConsumeBandwidth_pending io conn ch (PacketHeader.SIZE + MAX_PAYLOAD_SIZE)
    rw [resendFragments]
    rcases hcheck : checkAndConsumeBandwidth io conn ch (PacketHeader.SIZE + MAX_PAYLOAD_SIZE)
      with ⟨conn₁, ok⟩
    rw [hcheck] at hask
    cases ok with
    | false => exact hask.trans (ih conn₁)
    | true => exact hask.trans (ih conn₁)

theorem resendEntry_pending (ch : Fin 4) (p : Pending) (conn : Connection) :
    SamePending conn (resendEntry io ch p conn).1 := by
  rw [resendEntry]
  split_ifs
  · exact resendFragments_pending io ch p _ conn
  · have hask := checkAndConsumeBandwidth_pending io conn ch (PacketHeader.SIZE + p.data.length)
    rcases hcheck : checkAndConsumeBandwidth io conn ch (PacketHeader.SIZE + p.data.length)
      with ⟨conn₁, ok⟩
    rw [hcheck] at hask
    cases ok with
    | false => exact hask
    | true => exact hask

/-- The trace follows the pending list of its channel, and knows why `resend_pending` stops. -/
theorem traceChannel_spec (ch : Fin 4) (entries : List Tracked) (conn : Connection) :
    SamePending conn (resendChannel io t ch (entries.map Prod.fst) conn).1 ∧
      (resendChannel io t ch (entries.map Prod.fst) conn).2.1 =
        (traceChannel io t ch entries conn).1.map Prod.fst ∧
      (resendChannel io t ch (entries.map Prod.fst) conn).2.2.2 =
        (traceChannel io t ch entries conn).2.isSome ∧
      (resendChannel io t ch (entries.map Prod.fst) conn).1.state =
        if (traceChannel io t ch entries conn).2.isSome then .disconnecting else conn.state := by
  induction entries generalizing conn with
  | nil => exact ⟨SamePending.refl conn, rfl, rfl, rfl⟩
  | cons entry rest ih =>
    obtain ⟨p, past⟩ := entry
    rw [List.map_cons, resendChannel, traceChannel]
    by_cases hdue : t - p.sendTime > timeout conn
    · rw [if_pos hdue, if_pos hdue]
      by_cases hretries : p.retries + 1 > 10
      · rw [if_pos hretries, if_pos hretries]
        exact ⟨SamePending.refl _, rfl, rfl, rfl⟩
      · rw [if_neg hretries, if_neg hretries]
        obtain ⟨hpending, hlist, hstop, hstate⟩ :=
          ih (resendEntry io ch { p with sendTime := t, retries := p.retries + 1 } conn).1
        rw [(resendEntry_spec io ch _ conn).2.1] at hstate
        refine ⟨(resendEntry_pending io ch _ conn).trans hpending, ?_, hstop, hstate⟩
        rw [List.map_cons, ← hlist]
    · rw [if_neg hdue, if_neg hdue]
      obtain ⟨hpending, hlist, hstop, hstate⟩ := ih conn
      refine ⟨hpending, ?_, hstop, hstate⟩
      rw [List.map_cons, ← hlist]

theorem traceChannels_spec (chs : List (Fin 4)) (entries : Fin 4 → List Tracked) (conn : Connection)
    (h : ∀ ch, (entries ch).map Prod.fst = (conn.channels ch).pending) :
    (∀ ch, ((traceChannels io t chs entries conn).1 ch).map Prod.fst =
      ((resendChannels io t chs conn).1.channels ch).pending) ∧
    (resendChannels io t chs conn).1.state =
      if (traceChannels io t chs entries conn).2.isSome then .disconnecting else conn.state := by
  induction chs generalizing entries conn with
  | nil => exact ⟨h, rfl⟩
  | cons ch chs ih =>
    obtain ⟨hpending, hlist, hstop, hstate⟩ := traceChannel_spec io t ch (entries ch) conn
    rw [h ch] at hpending hlist hstop hstate
    rw [resendChannels, traceChannels]
    rcases hresend : resendChannel io t ch (conn.channels ch).pending conn
      with ⟨conn₁, pending, out, stop⟩
    rcases htrace : traceChannel io t ch (entries ch) conn with ⟨tracked, last⟩
    rw [hresend] at hpending hlist hstop hstate
    rw [htrace] at hlist hstop hstate
    dsimp only at hpending hlist hstop hstate
    have hput : ∀ c, (Function.update entries ch tracked c).map Prod.fst =
        ((conn₁.setChannel ch { conn₁.channels ch with pending := pending }).channels c).pending := by
      intro c
      rw [Connection.channels_setChannel]
      by_cases hc : c = ch
      · rw [hc, Function.update_self, if_pos rfl, hlist]
      · rw [Function.update_of_ne hc, if_neg hc, h c, hpending c]
    cases last with
    | some entry =>
      subst hstop
      exact ⟨hput, hstate⟩
    | none =>
      subst hstop
      obtain ⟨hlists, hstates⟩ := ih _ _ hput
      rw [Connection.state_setChannel, hstate] at hstates
      exact ⟨hlists, hstates⟩

/-- Sending adds at most messages that were never retried. -/
def Enqueues (conn conn' : Connection) : Prop :=
  ∀ ch, ∃ new, (conn'.channels ch).pending = (conn.channels ch).pending ++ new ∧ ∀ p ∈ new, p.retries = 0

theorem SamePending.enqueues {conn conn' : Connection} (h : SamePending conn conn') :
    Enqueues conn conn' := fun ch => ⟨[], by rw [h ch, List.append_nil], fun _ hp => nomatch hp⟩

theorem Enqueues.then {conn conn' conn'' : Connection} (h : Enqueues conn conn')
    (h' : SamePending conn' conn'') : Enqueues conn conn'' := by
  intro ch
  obtain ⟨new, heq, hnew⟩ := h ch
  exact ⟨new, (h' ch).trans heq, hnew⟩

theorem enqueues_setChannel {conn : Connection} {ch : Fin 4} {channel : Channel} (new : List Pending)
    (hpending : channel.pending = (conn.channels ch).pending ++ new) (hnew : ∀ p ∈ new, p.retries = 0) :
    Enqueues conn (conn.setChannel ch channel) := by
  intro c
  rw [Connection.channels_setChannel]
  split_ifs with hc
  · subst hc
    exact ⟨new, hpending, hnew⟩
  · exact ⟨[], by rw [List.append_nil], fun _ hp => nomatch hp⟩

theorem sendToConnection_enqueues (conn : Connection) (data : Bytes) (r : PacketReliability)
    (priority : UInt8) : Enqueues conn (sendToConnection io conn data r priority).1 := by
  rw [sendToConnection]
  by_cases hstate : conn.state ≠ .connected ∧ conn.state ≠ .connecting
  · rw [if_pos hstate]
    exact (SamePending.refl conn).enqueues
  rw [if_neg hstate]
  dsimp only
  by_cases hlen : data.length ≤ MAX_PAYLOAD_SIZE
  · rw [if_pos hlen]
    by_cases hrel : r.isReliable = true
    · rw [if_pos hrel]
      have hqueued : Enqueues conn (conn.setChannel r.index
          { conn.channels r.index with
            localSeq := (conn.channels r.index).localSeq + 1
            pending := (conn.channels r.index).pending ++
              [⟨(conn.channels r.index).localSeq, io.now, 0, data, false, priority⟩] }) :=
        enqueues_setChannel _ rfl (by simp)
      exact hqueued.then fun _ => rfl
    · rw [if_neg hrel]
      have hnumbered : SamePending conn (conn.setChannel r.index
          { conn.channels r.index with localSeq := (conn.channels r.index).localSeq + 1 }) :=
        (SamePending.refl conn).setChannel rfl
      have hask := hnumbered.trans (checkAndConsumeBandwidth_pending io _ r.index
        (PacketHeader.SIZE + data.length))
      rcases hcheck : checkAndConsumeBandwidth io (conn.setChannel r.index
        { conn.channels r.index with localSeq := (conn.channels r.index).localSeq + 1 }) r.index
        (PacketHeader.SIZE + data.length) with ⟨conn₁, ok⟩
      rw [hcheck] at hask
      cases ok with
      | false => exact hask.enqueues
      | true => exact hask.enqueues
  · rw [if_neg hlen]
    by_cases hbig : numFragments data > 255
    · rw [if_pos hbig]
      exact (SamePending.refl conn).enqueues
    · rw [if_neg hbig]
      refine Enqueues.then ?_ (sendFragments_pending io r _ data _ _)
      by_cases hrel : r.isReliable = true
      · refine enqueues_setChannel
          [⟨(conn.channels r.index).localSeq, io.now, 0, data, true, priority⟩] ?_ (by simp)
        exact if_pos hrel
      · refine enqueues_setChannel [] ?_ (by simp)
        rw [List.append_nil]
        exact if_neg hrel

/-! ### Runs -/

/-- The trace has the pending messages of the connection, and counts their tries. -/
structure Tracks (x : Traced) : Prop where
  agree : ∀ ch, (x.entries ch).map Prod.fst = (x.conn.channels ch).pending
  counted : x.conn.state ≠ .disconnecting → ∀ ch, ∀ entry ∈ x.entries ch, Counted entry

theorem tracks_new (address : Address) (now : Time) :
    Tracks ⟨{ address := address, lastRecvTime := now }, fun _ => []⟩ :=
  ⟨fun _ => rfl, fun _ _ _ hentry => nomatch hentry⟩

theorem counted_new {p : Pending} (h : p.retries = 0) : Counted (p, []) := by
  refine ⟨?_, fun i _ => ?_⟩
  · rw [h]
    decide
  · rw [h]
    rfl

theorem processAcks_pending (now : Time) (conn : Connection) (c ch : Fin 4) (ack : UInt16)
    (ackBits : UInt32) : ((processAcks now conn c ack ackBits).channels ch).pending =
      if ch = c ∧ (PacketReliability.ofIndex ch).isReliable then
        (conn.channels ch).pending.filter fun p => !isAcked p.sequence ack ackBits
      else (conn.channels ch).pending := by
  by_cases hch : ch = c
  · subst hch
    by_cases hrel : (PacketReliability.ofIndex ch).isReliable = true
    · rw [processAcks_channels_self _ _ _ _ hrel, if_pos ⟨rfl, hrel⟩]
    · rw [processAcks, if_pos (by simpa using hrel), if_neg fun h => hrel h.2]
  · rw [processAcks_channels_ne _ _ _ _ hch, if_neg fun h => hch h.1]

theorem receiveOn_pending (env : Env) (conn : Connection) (hdr : PacketHeader) (payload : Bytes)
    (ch : Fin 4) : ((receiveOn env conn hdr payload).channels ch).pending =
      if hdr.protocolId = PacketHeader.PROTOCOL_ID ∧ ch = hdr.channel ∧
          (PacketReliability.ofIndex ch).isReliable then
        (conn.channels ch).pending.filter fun p => !isAcked p.sequence hdr.ack hdr.ackBits
      else (conn.channels ch).pending := by
  by_cases hid : hdr.protocolId = PacketHeader.PROTOCOL_ID
  · have hacked := processAcks_pending env.now { conn with lastRecvTime := env.now } hdr.channel ch
      hdr.ack hdr.ackBits
    rw [receiveOn, if_neg (not_not.mpr hid)]
    simp only [hid, true_and]
    refine Eq.trans ?_ hacked
    split_ifs
    · rfl
    · rfl
    · rfl
    · rfl
    · rw [Connection.channels_setChannel]
      split_ifs with hch
      · rw [acceptPacket_pending, hch]
      · rfl
  · rw [receiveOn, if_pos hid, if_neg fun h => hid h.1]

/-- A connection that was given up stays given up. -/
theorem connectionCall_disconnecting {conn : Connection} (h : conn.state = .disconnecting)
    (c : ConnectionCall) : (connectionCall conn c).state = .disconnecting := by
  cases c with
  | send io data r priority =>
    rw [connectionCall, sendToConnection, if_pos (by simp [h])]
    exact h
  | receive env hdr payload =>
    have hacked : (processAcks env.now { conn with lastRecvTime := env.now } hdr.channel hdr.ack
        hdr.ackBits).state = .disconnecting := by
      rw [processAcks_state]
      exact h
    rw [connectionCall, receiveOn]
    dsimp only
    split_ifs with _ _ hconnecting
    · exact h
    · rw [hacked] at hconnecting
      cases hconnecting
    · exact hacked
    · rfl
    · exact hacked
    · exact hacked
  | service io t =>
    rw [connectionCall, serviceConnection, if_neg (by rw [h]; decide)]
    exact h
  | limitConnection n => exact h
  | limitChannel r n => exact h

theorem serviceConnection_resend {conn : Connection} (h : conn.state = .connected) :
    (serviceConnection io t conn).1.state = (resendPending io t conn).1.state ∧
      (serviceConnection io t conn).1.channels = (resendPending io t conn).1.channels := by
  rw [serviceConnection, if_pos h]
  dsimp only
  split_ifs <;> exact ⟨rfl, rfl⟩

theorem tracks_call {x : Traced} (h : Tracks x) (c : ConnectionCall) : Tracks (traceCall x c) := by
  have hbefore : (connectionCall x.conn c).state ≠ .disconnecting → x.conn.state ≠ .disconnecting :=
    fun hstate hdone => hstate (connectionCall_disconnecting hdone c)
  cases c with
  | send io data r priority =>
    have hnew : ∀ ch, ∃ new, ((connectionCall x.conn (.send io data r priority)).channels ch).pending =
          (x.entries ch).map Prod.fst ++ new ∧
        ((connectionCall x.conn (.send io data r priority)).channels ch).pending.drop
          (x.entries ch).length = new ∧ ∀ p ∈ new, p.retries = 0 := by
      intro ch
      obtain ⟨new, heq, hzero⟩ := sendToConnection_enqueues io x.conn data r priority ch
      rw [← h.agree ch] at heq
      refine ⟨new, heq, ?_, hzero⟩
      rw [connectionCall, heq, List.drop_left' (List.length_map _)]
    refine ⟨fun ch => ?_, fun hstate ch entry hentry => ?_⟩
    · obtain ⟨new, heq, hdrop, -⟩ := hnew ch
      rw [traceCall]
      dsimp only
      rw [hdrop, heq, List.map_append, List.map_map]
      exact congrArg _ (List.map_id new)
    · obtain ⟨new, -, hdrop, hzero⟩ := hnew ch
      rcases List.mem_append.mp hentry with hold | hadded
      · exact h.counted (hbefore hstate) ch entry hold
      · rw [hdrop] at hadded
        obtain ⟨p, hp, rfl⟩ := List.mem_map.mp hadded
        exact counted_new (hzero p hp)
  | receive env hdr payload =>
    refine ⟨fun ch => ?_, fun hstate ch entry hentry => ?_⟩
    · rw [traceCall, connectionCall]
      dsimp only
      rw [receiveOn_pending]
      split_ifs
      · rw [← h.agree ch, List.filter_map]
        rfl
      · exact h.agree ch
    · rw [traceCall] at hentry
      dsimp only at hentry
      refine h.counted (hbefore hstate) ch entry ?_
      split_ifs at hentry
      · exact List.mem_of_mem_filter hentry
      · exact hentry
  | service io t =>
    by_cases hconnected : x.conn.state = .connected
    · obtain ⟨hlists, hstates⟩ := traceChannels_spec io t (List.finRange 4) x.entries x.conn h.agree
      obtain ⟨hstate, hchannels⟩ := serviceConnection_resend io t hconnected
      have hcounted := (traceChannels_counted io t (List.finRange 4) x.entries x.conn
        (h.counted (by rw [hconnected]; decide))).1
      rw [traceCall, connectionCall, if_pos hconnected]
      refine ⟨fun ch => ?_, fun halive => hcounted ?_⟩
      · rw [hchannels]
        exact hlists ch
      · by_contra hsome
        refine halive (hstate.trans (hstates.trans (if_pos ?_)))
        exact Option.isSome_iff_ne_none.mpr hsome
    · rw [traceCall, connectionCall, serviceConnection, if_neg hconnected, if_neg hconnected]
      exact h
  | limitConnection n => exact ⟨h.agree, h.counted⟩
  | limitChannel r n =>
    refine ⟨fun ch => ?_, h.counted⟩
    have hsame : SamePending x.conn (x.conn.setChannel r.index
        { x.conn.channels r.index with bandwidthLimit := n }) := (SamePending.refl x.conn).setChannel rfl
    exact (h.agree ch).trans (hsame ch).symm

theorem tracks_run {x : Traced} (h : Tracks x) (calls : List ConnectionCall) :
    Tracks (calls.foldl traceCall x) := by
  induction calls generalizing x with
  | nil => exact h
  | cons c calls ih => exact ih (tracks_call h c)

/-- The trace does not disturb the connection. -/
theorem trace_conn (conn : Connection) (calls : List ConnectionCall) :
    (trace conn calls).conn = runConnection conn calls := by
  have hfold : ∀ x : Traced, (calls.foldl traceCall x).conn = calls.foldl connectionCall x.conn := by
    induction calls with
    | nil => exact fun _ => rfl
    | cons c calls ih => exact fun x => ih (traceCall x c)
  exact hfold _

/-- A message is blamed in a poll exactly if `resend_pending` gives the connection up in it. -/
theorem isSome_blamed_iff {x : Traced} (h : Tracks x) :
    (blamed io t x).isSome ↔
      x.conn.state = .connected ∧ (resendPending io t x.conn).1.state = .disconnecting := by
  have hstate := (traceChannels_spec io t (List.finRange 4) x.entries x.conn h.agree).2
  rw [blamed, resendPending, hstate]
  split_ifs <;> simp_all

/-! ### Giving up -/

/-- The message because of which the connection is given up was handed to `send_raw` ten times by
`resend_pending`, each packet of it. -/
def HandedTenTimes (x : Traced) : Prop :=
  ∀ entry ∈ blamed io t x, ∀ i < pieces entry.1, 10 ≤ handed i entry.2

/-- No packet of that message was refused by `check_and_consume_bandwidth`. -/
def NeverRefused (x : Traced) : Prop :=
  ∀ entry ∈ blamed io t x, ∀ i < pieces entry.1, .refused i ∉ entry.2

theorem refusals_eq_zero_iff {i : ℕ} {past : List Attempt} :
    refusals i past = 0 ↔ .refused i ∉ past := by
  rw [refusals, List.countP_eq_zero]
  constructor
  · intro h hmem
    exact h _ hmem (decide_eq_true rfl)
  · rintro h e he hrefused
    cases e with
    | refused j => exact h ((of_decide_eq_true hrefused : j = i) ▸ he)
    | reset | first | again => cases hrefused

/-- In every run of a connection the retries of the blamed message were transmissions exactly if none
was refused. -/
theorem handedTenTimes_iff (address : Address) (now : Time) (calls : List ConnectionCall) :
    HandedTenTimes io t (trace { address := address, lastRecvTime := now } calls) ↔
      NeverRefused io t (trace { address := address, lastRecvTime := now } calls) := by
  have htracks := tracks_run (tracks_new address now) calls
  rw [← trace] at htracks
  generalize trace { address := address, lastRecvTime := now } calls = x at htracks
  refine forall₂_congr fun entry hentry => forall₂_congr fun i hi => ?_
  have htried : handed i entry.2 + refusals i entry.2 = 10 := by
    rw [blamed] at hentry
    split_ifs at hentry with hconnected
    · exact (traceChannels_counted io t _ x.entries x.conn
        (htracks.counted (by rw [hconnected]; decide))).2 entry hentry i hi
    · cases hentry
  rw [← refusals_eq_zero_iff]
  omega

/-- Second `n` · 0.4, with every datagram accepted. -/
def tick (n : ℕ) : Io := ⟨⟨n * (2 / 5), fun _ => true⟩, true⟩

/-- A connected peer, a limit of one byte a second, one reliable message, and ten polls. -/
def starved : List ConnectionCall :=
  [.receive (tick 0).toEnv (controlHeader .handshake 0 0) [], .limitConnection 1,
    .send (tick 0) [0] .reliableOrdered 0] ++
  (List.range 10).map fun n => .service (tick (n + 1)) (tick (n + 1)).now

theorem not_handedTenTimes : ¬ ∀ (io : Io) (t : Time) (address : Address) (now : Time)
    (calls : List ConnectionCall),
    HandedTenTimes io t (trace { address := address, lastRecvTime := now } calls) := by
  intro h
  have hstarved := h (tick 11) (tick 11).now (.inet 7777 #v[192, 0, 2, 1]) 0 starved
  unfold HandedTenTimes at hstarved
  revert hstarved
  decide +kernel

end CampelloNet.Transport.Udp
