import CampelloNet.Transport.Udp.Retries
import CampelloNet.Transport.Udp.World

/-!
# Messages that are not answered

A packet acknowledges messages of its own channel only, and a keepalive is a packet of channel 0, on which
nothing is ever pending. Two ends on a network that loses nothing are followed here with the retries of
what they send each other: a message that has been sent again ten times has to be acknowledged by a packet
of its channel before it is due once more (`spares_iff_answered`).
-/

namespace CampelloNet.Transport.Udp

open Lib World

/-! ### A network that delivers -/

/-- Two ends, and the datagrams on their way to each of them. -/
structure Line where
  node : End → Impl
  inbox : End → List Datagram

/-- A call at one end. A poll reads the clock when it begins, for each datagram, and after the last. -/
inductive Move
  | send (e : End) (now : Time) (data : Bytes) (r : PacketReliability)
  | sendWithPriority (e : End) (now : Time) (data : Bytes) (r : PacketReliability) (priority : UInt8)
  | poll (e : End) (t : Time) (during : ℕ → Time) (after : Time)

namespace Line

variable (P : Platform) (addr : End → Address)

/-- Everything that is on its way to the end, in order. -/
def arrivals (line : Line) (e : End) (during : ℕ → Time) : List Arrival :=
  (line.inbox e).zipIdx.map fun x => ⟨addr e.peer, x.1.bytes, goodEnv (during x.2)⟩

/-- The line after a call at end `e`: what it sent to its peer is on its way. -/
def put (line : Line) (e : End) (impl : Impl) (ds : List Datagram) : Line where
  node := Function.update line.node e impl
  inbox := Function.update line.inbox e.peer
    (line.inbox e.peer ++ ds.filter fun d => d.dest = addr e.peer)

/-- Nothing is on its way to the end any more. -/
def emptied (line : Line) (e : End) : Line := { line with inbox := Function.update line.inbox e [] }

/-- What the receive loop of a poll makes of the end. -/
def received (line : Line) (e : End) (during : ℕ → Time) : Option (Impl × List Datagram) :=
  receiveLoop P (line.node e) (line.arrivals addr e during)

def step (line : Line) : Move → Option Line
  | .send e now data r =>
    let (impl, ds, _) := Udp.send (goodEnv now) data r (line.node e)
    some (line.put addr e impl ds)
  | .sendWithPriority e now data r priority =>
    let (impl, ds, _) :=
      Udp.sendWithPriority (goodEnv now) (addr e.peer) data r priority (line.node e)
    some (line.put addr e impl ds)
  | .poll e t during after =>
    (Udp.poll P (goodEnv after) t (line.arrivals addr e during) (line.node e)).map fun out =>
      (line.emptied e).put addr e out.1 out.2

/-! ### The law and its condition -/

/-- `resend_pending` does not give the connection to the peer up. -/
def Spares (line : Line) : Move → Prop
  | .poll e t during after => ∀ out ∈ line.received P addr e during,
      let conn := out.1.conn (addr e.peer)
      conn.state = .connected →
        (resendPending (out.1.io (goodEnv after)) t conn).1.state ≠ .disconnecting
  | .send _ _ _ _ | .sendWithPriority _ _ _ _ _ => True

/-- A packet of the message's own channel that acknowledges it. -/
def Acknowledges (ch : Fin 4) (p : Pending) (d : Datagram) : Prop :=
  ∃ x ∈ packet d.bytes, x.1.protocolId = PacketHeader.PROTOCOL_ID ∧ x.1.channel = ch ∧
    (PacketReliability.ofIndex ch).isReliable ∧ isAcked p.sequence x.1.ack x.1.ackBits

/-- Each message that was sent again ten times and is due once more has an acknowledgement waiting. -/
def Answered (line : Line) : Move → Prop
  | .poll e t during _ => ∀ out ∈ line.received P addr e during,
      let conn := out.1.conn (addr e.peer)
      conn.state = .connected →
        ∀ ch, ∀ p ∈ (((line.node e).conn (addr e.peer)).channels ch).pending, p.retries = 10 →
          t - p.sendTime > timeout conn → ∃ d ∈ line.inbox e, Acknowledges ch p d
  | .send _ _ _ _ | .sendWithPriority _ _ _ _ _ => True

end Line

/-- Two ends that are connected to each other. -/
structure JoinedEnds (addr : End → Address) where
  line : Line
  socketOpen : ∀ e, (line.node e).socketOpen = true
  reached : ∀ e, AllReached (line.node e)
  connected : ∀ e, ((line.node e).conn (addr e.peer)).state = .connected

/-- No bandwidth limit is set. -/
def JoinedEnds.Unlimited {addr : End → Address} (ends : JoinedEnds addr) : Prop :=
  ∀ e, ∀ conn ∈ (ends.line.node e).connections,
    conn.globalBandwidthLimit = 0 ∧ ∀ ch, (conn.channels ch).bandwidthLimit = 0

/-! ### What `resend_pending` gives up -/

section
variable (io : Io) (t : Time)

/-- The timeout is the same, and so is the time of the last packet. -/
structure SameTimes (conn conn' : Connection) : Prop where
  timeout : timeout conn' = timeout conn
  lastRecvTime : conn'.lastRecvTime = conn.lastRecvTime

theorem SameTimes.trans {conn conn' conn'' : Connection} (h : SameTimes conn conn')
    (h' : SameTimes conn' conn'') : SameTimes conn conn'' :=
  ⟨h'.timeout.trans h.timeout, h'.lastRecvTime.trans h.lastRecvTime⟩

theorem checkAndConsumeBandwidth_times (conn : Connection) (ch : Fin 4) (size : ℕ) :
    SameTimes conn (checkAndConsumeBandwidth io conn ch size).1 := by
  unfold checkAndConsumeBandwidth resetBandwidthCounters
  dsimp only
  split_ifs <;> exact ⟨rfl, rfl⟩

theorem resendFragments_times (ch : Fin 4) (p : Pending) (is : List ℕ) (conn : Connection) :
    SameTimes conn (resendFragments io ch p is conn).1 := by
  induction is generalizing conn with
  | nil => exact ⟨rfl, rfl⟩
  | cons i is ih =>
    have hask := checkAndConsumeBandwidth_times io conn ch (PacketHeader.SIZE + MAX_PAYLOAD_SIZE)
    rw [resendFragments]
    rcases hcheck : checkAndConsumeBandwidth io conn ch (PacketHeader.SIZE + MAX_PAYLOAD_SIZE)
      with ⟨conn₁, ok⟩
    rw [hcheck] at hask
    cases ok with
    | false => exact hask.trans (ih conn₁)
    | true => exact hask.trans (ih conn₁)

theorem resendEntry_times (ch : Fin 4) (p : Pending) (conn : Connection) :
    SameTimes conn (resendEntry io ch p conn).1 := by
  rw [resendEntry]
  split_ifs
  · exact resendFragments_times io ch p _ conn
  · have hask := checkAndConsumeBandwidth_times io conn ch (PacketHeader.SIZE + p.data.length)
    rcases hcheck : checkAndConsumeBandwidth io conn ch (PacketHeader.SIZE + p.data.length)
      with ⟨conn₁, ok⟩
    rw [hcheck] at hask
    cases ok with
    | false => exact hask
    | true => exact hask

/-- The message is due and has no retry left. -/
def Spent (limit : Time) (p : Pending) : Prop := t - p.sendTime > limit ∧ p.retries + 1 > 10

theorem resendChannel_stop (ch : Fin 4) (ps : List Pending) (conn : Connection) :
    ((resendChannel io t ch ps conn).2.2.2 = true ↔ ∃ p ∈ ps, Spent t (timeout conn) p) ∧
      SameTimes conn (resendChannel io t ch ps conn).1 := by
  induction ps generalizing conn with
  | nil => exact ⟨by simp [resendChannel], rfl, rfl⟩
  | cons p ps ih =>
    rw [resendChannel, List.exists_mem_cons_iff]
    by_cases hdue : t - p.sendTime > timeout conn
    · rw [if_pos hdue]
      dsimp only
      by_cases hretries : p.retries + 1 > 10
      · rw [if_pos hretries]
        exact ⟨iff_of_true rfl (Or.inl ⟨hdue, hretries⟩), rfl, rfl⟩
      · rw [if_neg hretries]
        have hentry := resendEntry_times io ch { p with sendTime := t, retries := p.retries + 1 } conn
        obtain ⟨hstop, htimes⟩ :=
          ih (resendEntry io ch { p with sendTime := t, retries := p.retries + 1 } conn).1
        rw [hentry.timeout] at hstop
        exact ⟨hstop.trans (or_iff_right fun h => hretries h.2).symm, hentry.trans htimes⟩
    · rw [if_neg hdue]
      obtain ⟨hstop, htimes⟩ := ih conn
      exact ⟨hstop.trans (or_iff_right fun h => hdue h.1).symm, htimes⟩

/-- The rest of what the loop over one channel does to the connection. -/
theorem resendChannel_state (ch : Fin 4) (ps : List Pending) (conn : Connection) :
    SamePending conn (resendChannel io t ch ps conn).1 ∧
      (resendChannel io t ch ps conn).1.state =
        if (resendChannel io t ch ps conn).2.2.2 then .disconnecting else conn.state := by
  obtain ⟨hsame, -, hstop, hstate⟩ := traceChannel_spec io t ch (ps.map fun p => (p, [])) conn
  rw [List.map_map, show Prod.fst ∘ (fun p : Pending => (p, ([] : List Attempt))) = id from rfl,
    List.map_id] at hsame hstop hstate
  rw [← hstop] at hstate
  exact ⟨hsame, hstate⟩

theorem resendChannels_disconnecting_iff {chs : List (Fin 4)} (hchs : chs.Nodup) (conn : Connection) :
    (resendChannels io t chs conn).1.state = .disconnecting ↔ conn.state = .disconnecting ∨
      ∃ ch ∈ chs, ∃ p ∈ (conn.channels ch).pending, Spent t (timeout conn) p := by
  induction chs generalizing conn with
  | nil => simp [resendChannels]
  | cons ch chs ih =>
    obtain ⟨hch, hchs⟩ := List.nodup_cons.mp hchs
    obtain ⟨hstop, htimes⟩ := resendChannel_stop io t ch (conn.channels ch).pending conn
    obtain ⟨hsame, hstate⟩ := resendChannel_state io t ch (conn.channels ch).pending conn
    rw [resendChannels, List.exists_mem_cons_iff, ← hstop]
    rcases hresend : resendChannel io t ch (conn.channels ch).pending conn
      with ⟨conn₁, pending, out, stop⟩
    rw [hresend] at htimes hsame hstate
    dsimp only at htimes hsame hstate ⊢
    cases stop with
    | true => exact iff_of_true hstate (Or.inr (Or.inl rfl))
    | false =>
      have hrest := ih hchs (conn₁.setChannel ch { conn₁.channels ch with pending := pending })
      rw [Connection.state_setChannel, hstate] at hrest
      refine hrest.trans (or_congr_right ?_)
      rw [or_iff_right Bool.false_ne_true]
      refine exists_congr fun c => and_congr_right fun hc => ?_
      have hne : c ≠ ch := fun heq => hch (heq ▸ hc)
      rw [Connection.channels_setChannel_ne _ _ _ hne, hsame c]
      show (∃ p ∈ (conn.channels c).pending, Spent t (timeout conn₁) p) ↔ _
      rw [htimes.timeout]

theorem resendPending_disconnecting_iff {conn : Connection} (h : conn.state = .connected) :
    (resendPending io t conn).1.state = .disconnecting ↔
      ∃ ch, ∃ p ∈ (conn.channels ch).pending, Spent t (timeout conn) p := by
  rw [resendPending, resendChannels_disconnecting_iff io t (List.nodup_finRange 4) conn, h]
  simp

/-- A connection that was not given up counts up to ten retries. -/
theorem Reached.retries_le {conn : Connection} (h : Reached conn) (hstate : conn.state ≠ .disconnecting)
    {ch : Fin 4} {p : Pending} (hp : p ∈ (conn.channels ch).pending) : p.retries ≤ 10 := by
  obtain ⟨address, now, calls, rfl⟩ := h
  have htracks := tracks_run (tracks_new address now) calls
  rw [← trace] at htracks
  rw [← trace_conn] at hstate hp
  rw [← htracks.agree ch] at hp
  obtain ⟨entry, hentry, rfl⟩ := List.mem_map.mp hp
  exact (htracks.counted hstate ch entry hentry).retries

end

/-! ### What a receive loop acknowledges -/

section
variable {P : Platform} {impl impl' : Impl} {a : Address}

theorem AllReached.conn (h : AllReached impl) (a : Address) : Reached (impl.conn a) := by
  rw [Impl.conn]
  cases hfind : findConnection impl a with
  | none => exact reached_new a 0
  | some conn => exact h conn (lookup_mem hfind)

/-- A datagram takes those messages off the pending lists of its sender that it acknowledges. -/
theorem pending_receiveOne {x : Arrival} {ds : List Datagram}
    (h : receiveOne P impl x = some (impl', ds)) (ch : Fin 4) (p : Pending) (dest : Address) :
    p ∈ ((impl'.conn x.sender).channels ch).pending ↔
      p ∈ ((impl.conn x.sender).channels ch).pending ∧ ¬Line.Acknowledges ch p ⟨dest, x.bytes⟩ := by
  rw [receiveOne_eq] at h
  unfold Line.Acknowledges
  dsimp only
  rcases hpacket : packet x.bytes with _ | ⟨hdr, payload⟩
  · rw [hpacket] at h
    cases h
    simp
  rw [hpacket] at h
  dsimp only at h
  simp only [Option.mem_some_iff, exists_eq_left']
  have hconns := processPacket_receiveOn h
  by_cases hid : hdr.protocolId = PacketHeader.PROTOCOL_ID
  · have hfind : impl'.conn x.sender =
        receiveOn x.env (getOrCreateConnection impl x.env.now x.sender) hdr payload := by
      rw [if_neg (not_not.mpr hid)] at hconns
      rw [Impl.conn, findConnection, hconns, ← findConnection, findConnection_putConnection_self]
      · rfl
      · rw [receiveOn_address, getOrCreateConnection_address]
    rw [hfind, receiveOn_pending, getOrCreateConnection_channels]
    split_ifs with hacks
    · obtain ⟨-, rfl, hrel⟩ := hacks
      rw [List.mem_filter]
      simp [hid, hrel]
    · have hnone : ¬(hdr.protocolId = PacketHeader.PROTOCOL_ID ∧ hdr.channel = ch ∧
          (PacketReliability.ofIndex ch).isReliable ∧ isAcked p.sequence hdr.ack hdr.ackBits) :=
        fun hacked => hacks ⟨hacked.1, hacked.2.1.symm, hacked.2.2.1⟩
      exact (and_iff_left hnone).symm
  · rw [if_pos hid] at hconns
    rw [Impl.conn, findConnection, hconns, ← findConnection, ← Impl.conn]
    exact (and_iff_left fun hacked => hid hacked.1).symm

/-- What is left of the pending lists when every datagram of the loop came from one peer. -/
theorem pending_receiveLoop {xs : List Arrival} (hxs : ∀ x ∈ xs, x.sender = a) {ds : List Datagram}
    (h : receiveLoop P impl xs = some (impl', ds)) (ch : Fin 4) (p : Pending) (dest : Address) :
    p ∈ ((impl'.conn a).channels ch).pending ↔ p ∈ ((impl.conn a).channels ch).pending ∧
      ∀ x ∈ xs, ¬Line.Acknowledges ch p ⟨dest, x.bytes⟩ := by
  induction xs generalizing impl ds with
  | nil =>
    cases h
    simp
  | cons x xs ih =>
    obtain ⟨hx, hxs⟩ := List.forall_mem_cons.mp hxs
    obtain ⟨⟨impl₁, ds₁⟩, hone, h⟩ := Option.bind_eq_some_iff.mp h
    obtain ⟨⟨impl₂, ds₂⟩, hrest, h⟩ := Option.bind_eq_some_iff.mp h
    cases h
    have hfirst := pending_receiveOne hone ch p dest
    rw [hx] at hfirst
    rw [ih hxs hrest, hfirst, List.forall_mem_cons, and_assoc]

theorem AllReached.receiveLoop (h : AllReached impl) {xs : List Arrival} {ds : List Datagram}
    (hloop : Udp.receiveLoop P impl xs = some (impl', ds)) : AllReached impl' := by
  induction xs generalizing impl ds with
  | nil =>
    cases hloop
    exact h
  | cons x xs ih =>
    obtain ⟨⟨impl₁, ds₁⟩, hone, hloop⟩ := Option.bind_eq_some_iff.mp hloop
    obtain ⟨⟨impl₂, ds₂⟩, hrest, hloop⟩ := Option.bind_eq_some_iff.mp hloop
    cases hloop
    have hturn : Udp.turn P impl (.receive x) = some impl₁ := by
      rw [Udp.turn, hone]
      rfl
    exact ih (h.turn hturn) hrest

end

/-! ### Runs -/

namespace Line

variable {P : Platform} {addr : End → Address}

/-- A packet without payload, a keepalive among them, acknowledges nothing. -/
theorem not_acknowledges_control (ch : Fin 4) (p : Pending) (dest : Address) (type : PacketType)
    (ack : UInt16) (ackBits : UInt32) :
    ¬Acknowledges ch p ⟨dest, (controlHeader type ack ackBits).serialize ++ []⟩ := by
  rintro ⟨x, hx, -, hchannel, hreliable, -⟩
  dsimp only at hx
  rw [packet_serialize_append _ (by decide)] at hx
  cases hx
  rw [channel_controlHeader] at hchannel
  rw [← hchannel] at hreliable
  cases hreliable

theorem acknowledges_arrivals (line : Line) (e : End) (during : ℕ → Time) (ch : Fin 4) (p : Pending)
    (dest : Address) : (∀ x ∈ line.arrivals addr e during, ¬Acknowledges ch p ⟨dest, x.bytes⟩) ↔
      ¬∃ d ∈ line.inbox e, Acknowledges ch p d := by
  have hfst : (line.inbox e).zipIdx.map Prod.fst = line.inbox e := List.zipIdx_map_fst 0 _
  calc (∀ x ∈ line.arrivals addr e during, ¬Acknowledges ch p ⟨dest, x.bytes⟩)
    _ ↔ ∀ x ∈ (line.inbox e).zipIdx, ¬Acknowledges ch p x.1 := List.forall_mem_map
    _ ↔ ∀ d ∈ (line.inbox e).zipIdx.map Prod.fst, ¬Acknowledges ch p d :=
      (List.forall_mem_map (P := fun d => ¬Acknowledges ch p d)).symm
    _ ↔ ¬∃ d ∈ line.inbox e, Acknowledges ch p d := by simp [hfst]

theorem spares_iff {line : Line} (h : ∀ e, AllReached (line.node e)) (move : Move) :
    line.Spares P addr move ↔ line.Answered P addr move := by
  cases move with
  | send => exact Iff.rfl
  | sendWithPriority => exact Iff.rfl
  | poll e t during after =>
    refine forall₂_congr fun out hout => forall_congr' fun hstate => ?_
    have hreached := ((h e).receiveLoop hout).conn (addr e.peer)
    have hsender : ∀ x ∈ line.arrivals addr e during, x.sender = addr e.peer := by
      rw [arrivals, List.forall_mem_map]
      exact fun _ _ => rfl
    -- what is pending after the receive loop was pending before, and nothing acknowledged it
    have hleft : ∀ ch p, p ∈ ((out.1.conn (addr e.peer)).channels ch).pending ↔
        p ∈ (((line.node e).conn (addr e.peer)).channels ch).pending ∧
          ¬∃ d ∈ line.inbox e, Acknowledges ch p d := by
      intro ch p
      rw [← acknowledges_arrivals line e during ch p (addr e)]
      exact pending_receiveLoop hsender hout ch p (addr e)
    rw [Ne, resendPending_disconnecting_iff _ t hstate]
    constructor
    · intro hnone ch p hp hretries hdue
      by_contra hunanswered
      refine hnone ⟨ch, p, (hleft ch p).mpr ⟨hp, hunanswered⟩, hdue, ?_⟩
      rw [hretries]
      decide
    · rintro hanswered ⟨ch, p, hp, hdue, hlast⟩
      obtain ⟨hbefore, hunanswered⟩ := (hleft ch p).mp hp
      have hle := hreached.retries_le (by rw [hstate]; decide) hp
      have hten : p.retries = 10 := by
        have hlast' := UInt8.lt_iff_toNat_lt.mp hlast
        have hle' := UInt8.le_iff_toNat_le.mp hle
        rw [UInt8.toNat_add] at hlast'
        rw [← UInt8.toNat_inj]
        have hone : (1 : UInt8).toNat = 1 := rfl
        have hten : (10 : UInt8).toNat = 10 := rfl
        omega
      exact hunanswered (hanswered ch p hbefore hten hdue)

theorem allReached_put (line : Line) (h : ∀ e, AllReached (line.node e)) (e : End) {impl : Impl}
    (himpl : AllReached impl) (ds : List Datagram) (x : End) :
    AllReached ((line.put addr e impl ds).node x) := by
  unfold put
  dsimp only
  rcases End.eq_or_eq_peer e x with rfl | rfl
  · rw [Function.update_self]
    exact himpl
  · rw [Function.update_of_ne e.peer_ne]
    exact h e.peer

theorem allReached_step {line line' : Line} {move : Move} (h : ∀ e, AllReached (line.node e))
    (hstep : line.step P addr move = some line') (x : End) : AllReached (line'.node x) := by
  cases move with
  | send e now data r =>
    cases hstep
    have hcall : Udp.call P (line.node e) (.send (goodEnv now) data r) = some _ := rfl
    exact allReached_put line h e ((h e).call hcall) _ x
  | sendWithPriority e now data r priority =>
    cases hstep
    have hcall : Udp.call P (line.node e)
      (.sendWithPriority (goodEnv now) (addr e.peer) data r priority) = some _ := rfl
    exact allReached_put line h e ((h e).call hcall) _ x
  | poll e t during after =>
    obtain ⟨out, hout, rfl⟩ := Option.map_eq_some_iff.mp hstep
    have hcall : Udp.call P (line.node e) (.poll (goodEnv after) t (line.arrivals addr e during)) =
        some out.1 := by
      rw [Udp.call, hout]
      rfl
    exact allReached_put (line.emptied e) h e ((h e).call hcall) out.2 x

end Line

/-! ### One end speaks -/

/-- When the call begins and when it returns. -/
def Move.began : Move → Time
  | .send _ now _ _ | .sendWithPriority _ now _ _ _ => now
  | .poll _ t _ _ => t

def Move.returned : Move → Time
  | .send _ now _ _ | .sendWithPriority _ now _ _ _ => now
  | .poll _ _ _ after => after

/-- When each end last began a poll. -/
def Move.polled (polled : End → Time) : Move → End → Time
  | .send _ _ _ _ | .sendWithPriority _ _ _ _ _ => polled
  | .poll e t _ _ => Function.update polled e t

/-- A message of one packet; a clock that does not go back. -/
def Move.Fits : Move → Prop
  | .send _ _ data _ | .sendWithPriority _ _ data _ _ => data.length ≤ MAX_PAYLOAD_SIZE
  | .poll _ t during after => Monotone during ∧ t ≤ during 0 ∧ ∀ i, during i ≤ after

/-- The calls follow each other in time, and no end goes for more than 50 ms without a poll. -/
def Timely : (End → Time) → Time → List Move → Prop
  | _, _, [] => True
  | polled, clock, move :: moves =>
    move.Fits ∧ clock ≤ move.began ∧ (∀ e, move.began - polled e ≤ 1 / 20) ∧
      Timely (move.polled polled) move.returned moves

/-- Both ends poll, `n` times. -/
def ticks : ℕ → Time → List Move
  | 0, _ => []
  | n + 1, t => .poll .right t (fun _ => t) t :: .poll .left t (fun _ => t) t :: ticks n (t + 1 / 20)

theorem timely_ticks (n : ℕ) {polled : End → Time} {clock t : Time} (hclock : clock ≤ t)
    (hpolled : ∀ e, t - polled e ≤ 1 / 20) : Timely polled clock (ticks n t) := by
  induction n generalizing polled clock t with
  | zero => trivial
  | succ n ih =>
    have hfits : ∀ e, (Move.poll e t (fun _ => t) t).Fits := fun _ =>
      ⟨monotone_const, le_rfl, fun _ => le_rfl⟩
    refine ⟨hfits .right, hclock, hpolled, hfits .left, le_rfl, fun e => ?_, ?_⟩
    · rcases e with _ | _
      · exact hpolled .left
      · show t - t ≤ 1 / 20
        norm_num
    · refine ih (by norm_num [Move.returned]) fun e => ?_
      rcases e with _ | _
      all_goals
        show t + 1 / 20 - t ≤ 1 / 20
        rw [add_sub_cancel_left]

/-- In a run of two connected ends `resend_pending` gives no connection up if and only if each message that
was sent again ten times is acknowledged on its own channel before it is due once more. -/
theorem spares_iff_answered (P : Platform) {addr : End → Address} (ends : JoinedEnds addr)
    (moves : List Move) :
    Run.Admits (Line.step P addr) (Line.Spares P addr) ends.line moves ↔
      Run.Admits (Line.step P addr) (Line.Answered P addr) ends.line moves := by
  refine Run.admits_iff_of_invariant (I := fun line => ∀ e, AllReached (line.node e)) ?_ ?_ moves
    ends.reached
  · exact fun line move line' h hstep => Line.allReached_step h hstep
  · exact fun line move h => Line.spares_iff h move

/-- Both ends as the handshake leaves them. -/
def justJoined : JoinedEnds localAddr where
  line := ⟨(connected localAddr).node, fun _ => []⟩
  socketOpen _ := rfl
  reached e conn hconn := by
    rw [List.mem_singleton.mp hconn]
    exact ⟨localAddr e.peer, 0, [.receive (goodEnv 0) (controlHeader .handshake 0 0) []], rfl⟩
  connected e := by
    rw [Impl.conn, findConnection, connected, lookup_cons, if_pos rfl]
    rfl

instance (P : Platform) (addr : End → Address) (line : Line) :
    DecidablePred (line.Spares P addr)
  | .poll e t during after => inferInstanceAs (Decidable (∀ out ∈ line.received P addr e during,
      (out.1.conn (addr e.peer)).state = .connected → (resendPending (out.1.io (goodEnv after)) t
        (out.1.conn (addr e.peer))).1.state ≠ .disconnecting))
  | .send _ _ _ _ | .sendWithPriority _ _ _ _ _ => isTrue trivial

/-- Of two ends that poll every 50 ms one sends a message, the other nothing but keepalives: the 77th poll
gives the connection up. -/
theorem not_spares_oneWay : ¬∀ (P : Platform) (addr : End → Address) (ends : JoinedEnds addr)
    (since : Time) (moves : List Move), ends.Unlimited → Timely (fun _ => since) since moves →
    Run.Admits (Line.step P addr) (Line.Spares P addr) ends.line moves := by
  intro hspares
  have hticks : Timely (fun _ => 0) 0 (ticks 77 (1 / 20)) :=
    timely_ticks 77 (by norm_num) fun _ => by norm_num
  have htimely : Timely (fun _ => 0) 0 (.send .left 0 [0] .reliableOrdered :: ticks 77 (1 / 20)) :=
    ⟨(by decide : ([0] : Bytes).length ≤ MAX_PAYLOAD_SIZE), le_rfl, fun _ => by norm_num [Move.began],
      hticks⟩
  have hunlimited : justJoined.Unlimited := by
    intro e conn hconn
    rw [List.mem_singleton.mp hconn]
    exact ⟨rfl, fun _ => rfl⟩
  have hrun := hspares maskedShift localAddr justJoined 0 _ hunlimited htimely
  revert hrun
  decide +kernel

end CampelloNet.Transport.Udp
