import CampelloNet.Transport.Udp.Interface
import CampelloNet.Transport.Udp.Unanswered
import Mathlib.Tactic.Linarith

/-!
# Which connections a poll keeps

A poll drops the connections of peers that take their leave, that have been silent for more than five
seconds, and that have left a message unanswered which was sent again ten times. Which these are follows
from the connections before the poll and from the datagrams that it finds (`mem_peers_poll_iff`).
-/

namespace CampelloNet.Transport

open Lib

namespace Udp

/-! ### What a connection hears -/

/-- A packet of the protocol, and the world when it is processed. -/
structure Heard where
  env : Env
  hdr : PacketHeader
  payload : Bytes
  valid : hdr.protocolId = PacketHeader.PROTOCOL_ID

def Arrival.heard (x : Arrival) : Option Heard :=
  match packet x.bytes with
  | none => none
  | some (hdr, payload) =>
    if valid : hdr.protocolId = PacketHeader.PROTOCOL_ID then some ⟨x.env, hdr, payload, valid⟩
    else none

/-- What the datagrams are to the connection with an address, in order. -/
def heardFrom (a : Address) (xs : List Arrival) : List Heard :=
  (xs.filter fun x => x.sender = a).filterMap Arrival.heard

namespace Connection

def hear (conn : Connection) (h : Heard) : Connection := receiveOn h.env conn h.hdr h.payload

/-- The connection after the acknowledgements alone. -/
def acked (conn : Connection) (hs : List Heard) : Connection :=
  hs.foldl (fun conn h => processAcks h.env.now conn h.hdr.channel h.hdr.ack h.hdr.ackBits) conn

/-- When the peer was heard last. -/
def lastHeard (conn : Connection) (hs : List Heard) : Time :=
  (hs.getLast?.map fun h => h.env.now).getD conn.lastRecvTime

/-- The connection outlasts a poll that begins at time `t` and hears `hs`. -/
structure Lasts (t : Time) (hs : List Heard) (conn : Connection) : Prop where
  stays : conn.state ≠ .disconnecting ∧ ∀ h ∈ hs, h.hdr.packetType ≠ PacketType.disconnect.toUInt8
  heard : t - conn.lastHeard hs ≤ 5
  /-- no message that was sent again ten times is due, as the acknowledgements leave them -/
  answered : conn.state = .connected ∨
      (∃ h ∈ hs, h.hdr.packetType = PacketType.handshake.toUInt8) →
    ∀ ch, ∀ p ∈ ((conn.acked hs).channels ch).pending, ¬Spent t (timeout (conn.acked hs)) p

/-! ### The estimate of the round trip -/

def rtt (conn : Connection) : Time × Time := (conn.smoothedRtt, conn.rttVariance)

theorem rtt_eq_iff {conn conn' : Connection} : conn.rtt = conn'.rtt ↔
    conn.smoothedRtt = conn'.smoothedRtt ∧ conn.rttVariance = conn'.rttVariance := Prod.ext_iff

theorem timeout_congr {conn conn' : Connection} (h : conn.rtt = conn'.rtt) :
    timeout conn = timeout conn' := by
  obtain ⟨hsmoothed, hvariance⟩ := rtt_eq_iff.mp h
  unfold timeout
  rw [hsmoothed, hvariance]

/-- Two connections with the same estimate and the same messages waiting. -/
structure Follows (conn conn' : Connection) : Prop where
  rtt : conn.rtt = conn'.rtt
  pending : ∀ ch, (conn.channels ch).pending = (conn'.channels ch).pending

theorem foldl_sampleRtt_rtt (now : Time) (ps : List Pending) {conn conn' : Connection}
    (h : conn.rtt = conn'.rtt) :
    (ps.foldl (sampleRtt now) conn).rtt = (ps.foldl (sampleRtt now) conn').rtt ∧
      (ps.foldl (sampleRtt now) conn).lastRecvTime = conn.lastRecvTime := by
  induction ps generalizing conn conn' with
  | nil => exact ⟨h, rfl⟩
  | cons p ps ih =>
    obtain ⟨hsmoothed, hvariance⟩ := rtt_eq_iff.mp h
    have hsample : (sampleRtt now conn p).rtt = (sampleRtt now conn' p).rtt := by
      unfold sampleRtt Connection.rtt
      rw [hsmoothed, hvariance]
    exact ih hsample

theorem Follows.processAcks {conn conn' : Connection} (h : Follows conn conn') (now : Time)
    (c : Fin 4) (ack : UInt16) (ackBits : UInt32) :
    Follows (processAcks now conn c ack ackBits) (processAcks now conn' c ack ackBits) := by
  refine ⟨?_, fun ch => ?_⟩
  · unfold Udp.processAcks
    split_ifs
    · exact h.rtt
    · dsimp only
      rw [h.pending]
      exact (foldl_sampleRtt_rtt now _ h.rtt).1
  · rw [processAcks_pending, processAcks_pending, h.pending]

theorem processAcks_lastRecvTime (now : Time) (conn : Connection) (c : Fin 4) (ack : UInt16)
    (ackBits : UInt32) : (Udp.processAcks now conn c ack ackBits).lastRecvTime = conn.lastRecvTime := by
  unfold Udp.processAcks
  split_ifs
  · rfl
  · exact (foldl_sampleRtt_rtt now _ (rfl : conn.rtt = conn.rtt)).2

/-- What one packet does to the connection. -/
structure HearSpec (conn : Connection) (h : Heard) (conn' : Connection) : Prop where
  follows : Follows conn'
    (Udp.processAcks h.env.now { conn with lastRecvTime := h.env.now } h.hdr.channel h.hdr.ack h.hdr.ackBits)
  lastRecvTime : conn'.lastRecvTime = h.env.now
  state : conn'.state =
    if h.hdr.packetType = PacketType.handshake.toUInt8 then
      if conn.state = .connecting then .connected else conn.state
    else if h.hdr.packetType = PacketType.disconnect.toUInt8 then .disconnecting
    else conn.state

theorem hear_spec (conn : Connection) (h : Heard) : HearSpec conn h (conn.hear h) := by
  have hpending := fun ch => receiveOn_pending h.env conn h.hdr h.payload ch
  have hacked := fun ch => processAcks_pending h.env.now { conn with lastRecvTime := h.env.now }
    h.hdr.channel ch h.hdr.ack h.hdr.ackBits
  have htime := processAcks_lastRecvTime h.env.now { conn with lastRecvTime := h.env.now }
    h.hdr.channel h.hdr.ack h.hdr.ackBits
  have hstate := processAcks_state h.env.now { conn with lastRecvTime := h.env.now } h.hdr.channel
    h.hdr.ack h.hdr.ackBits
  refine ⟨⟨?_, fun ch => ?_⟩, ?_, ?_⟩
  · unfold hear receiveOn
    rw [if_neg (not_not.mpr h.valid)]
    dsimp only
    split_ifs <;> rfl
  · show ((receiveOn h.env conn h.hdr h.payload).channels ch).pending = _
    rw [hpending, hacked]
    simp only [h.valid, true_and]
  · unfold hear receiveOn
    rw [if_neg (not_not.mpr h.valid)]
    dsimp only
    split_ifs <;> exact htime
  · unfold hear receiveOn
    rw [if_neg (not_not.mpr h.valid)]
    dsimp only
    rw [hstate]
    split_ifs
    · rfl
    · exact hstate
    · rfl
    · exact hstate
    · exact hstate

theorem hear_disconnecting_iff (conn : Connection) (h : Heard) :
    (conn.hear h).state = .disconnecting ↔
      conn.state = .disconnecting ∨ h.hdr.packetType = PacketType.disconnect.toUInt8 := by
  rw [(hear_spec conn h).state]
  split_ifs with hhandshake hconnecting hdisconnect
  · rw [hhandshake, hconnecting]
    decide
  · rw [hhandshake]
    exact (or_iff_left (by decide)).symm
  · exact iff_of_true rfl (.inr hdisconnect)
  · exact (or_iff_left hdisconnect).symm

theorem hear_connected_iff {conn : Connection} {h : Heard}
    (hlive : (conn.hear h).state ≠ .disconnecting) : (conn.hear h).state = .connected ↔
      conn.state = .connected ∨ h.hdr.packetType = PacketType.handshake.toUInt8 := by
  rw [Ne, hear_disconnecting_iff, not_or] at hlive
  rw [(hear_spec conn h).state, if_neg hlive.2]
  split_ifs with hhandshake hconnecting
  · exact iff_of_true rfl (.inr hhandshake)
  · refine iff_of_true ?_ (.inr hhandshake)
    rcases hstate : conn.state with _ | _ | _
    · exact absurd hstate hconnecting
    · rfl
    · exact absurd hstate hlive.1
  · exact (or_iff_left hhandshake).symm

/-! ### What a connection hears in a poll -/

theorem Follows.foldl_hear {conn conn' : Connection} (h : Follows conn conn') (hs : List Heard) :
    Follows (hs.foldl hear conn) (conn'.acked hs) := by
  induction hs generalizing conn conn' with
  | nil => exact h
  | cons x hs ih =>
    have hheard := (hear_spec conn x).follows
    have hsame : Follows { conn with lastRecvTime := x.env.now } conn' := ⟨h.rtt, h.pending⟩
    have hacked := hsame.processAcks x.env.now x.hdr.channel x.hdr.ack x.hdr.ackBits
    exact ih ⟨hheard.rtt.trans hacked.rtt, fun ch => (hheard.pending ch).trans (hacked.pending ch)⟩

theorem foldl_hear_lastRecvTime (conn : Connection) (hs : List Heard) :
    (hs.foldl hear conn).lastRecvTime = conn.lastHeard hs := by
  induction hs generalizing conn with
  | nil => rfl
  | cons h hs ih =>
    rw [List.foldl_cons, ih]
    unfold lastHeard
    rw [(hear_spec conn h).lastRecvTime, List.getLast?_cons]
    rcases hs.getLast? with _ | last <;> rfl

theorem foldl_hear_disconnecting_iff (conn : Connection) (hs : List Heard) :
    (hs.foldl hear conn).state = .disconnecting ↔ conn.state = .disconnecting ∨
      ∃ h ∈ hs, h.hdr.packetType = PacketType.disconnect.toUInt8 := by
  induction hs generalizing conn with
  | nil => simp
  | cons h hs ih =>
    rw [List.foldl_cons, ih, hear_disconnecting_iff, List.exists_mem_cons_iff, or_assoc]

theorem foldl_hear_connected_iff {conn : Connection} {hs : List Heard}
    (hlive : (hs.foldl hear conn).state ≠ .disconnecting) :
    (hs.foldl hear conn).state = .connected ↔ conn.state = .connected ∨
      ∃ h ∈ hs, h.hdr.packetType = PacketType.handshake.toUInt8 := by
  induction hs generalizing conn with
  | nil => simp
  | cons h hs ih =>
    rw [List.foldl_cons] at hlive ⊢
    have hfirst : (conn.hear h).state ≠ .disconnecting := fun hdone =>
      hlive ((foldl_hear_disconnecting_iff _ _).mpr (.inl hdone))
    rw [ih hlive, hear_connected_iff hfirst, List.exists_mem_cons_iff, or_assoc]

/-! ### What the second half of a poll does -/

theorem resendChannels_times (io : Io) (t : Time) (chs : List (Fin 4)) (conn : Connection) :
    SameTimes conn (resendChannels io t chs conn).1 := by
  induction chs generalizing conn with
  | nil => exact ⟨rfl, rfl⟩
  | cons ch chs ih =>
    obtain ⟨-, htimes⟩ := resendChannel_stop io t ch (conn.channels ch).pending conn
    rw [resendChannels]
    rcases hresend : resendChannel io t ch (conn.channels ch).pending conn
      with ⟨conn₁, pending, out, stop⟩
    rw [hresend] at htimes
    have hset : SameTimes conn (conn₁.setChannel ch { conn₁.channels ch with pending := pending }) :=
      ⟨htimes.timeout, htimes.lastRecvTime⟩
    cases stop with
    | true => exact hset
    | false => exact hset.trans (ih _)

theorem service_times (io : Io) (t : Time) (conn : Connection) :
    SameTimes conn (serviceConnection io t conn).1 := by
  have htimes := resendChannels_times io t (List.finRange 4) conn
  unfold serviceConnection resendPending
  split_ifs
  · dsimp only
    split_ifs
    · exact ⟨htimes.timeout, htimes.lastRecvTime⟩
    · exact htimes
  · exact ⟨rfl, rfl⟩

/-- What `cleanup_connections` erases, in terms of the connection before it was serviced. -/
theorem expired_service_iff (io : Io) (t : Time) (conn : Connection) :
    (serviceConnection io t conn).1.expired t = true ↔ conn.state = .disconnecting ∨
      (conn.state = .connected ∧ ∃ ch, ∃ p ∈ (conn.channels ch).pending, Spent t (timeout conn) p) ∨
      t - conn.lastRecvTime > 5 := by
  have htime := (service_times io t conn).lastRecvTime
  unfold expired
  rw [decide_eq_true_iff, htime]
  by_cases hconnected : conn.state = .connected
  · rw [(serviceConnection_resend io t hconnected).1, resendPending_disconnecting_iff io t hconnected]
    simp [hconnected]
  · have hsame : serviceConnection io t conn = (conn, []) := by
      rw [serviceConnection, if_neg hconnected]
    rw [hsame]
    simp [hconnected]

/-- A connection outlasts the poll if and only if what it is when it has heard its peer does. -/
theorem lasts_iff (io : Io) (t : Time) (conn : Connection) (hs : List Heard) :
    conn.Lasts t hs ↔ (serviceConnection io t (hs.foldl hear conn)).1.expired t = false := by
  have hfollows : Follows (hs.foldl hear conn) (conn.acked hs) :=
    Follows.foldl_hear ⟨rfl, fun _ => rfl⟩ hs
  have hspent : (∃ ch, ∃ p ∈ ((hs.foldl hear conn).channels ch).pending,
      Spent t (timeout (hs.foldl hear conn)) p) ↔
      ∃ ch, ∃ p ∈ ((conn.acked hs).channels ch).pending, Spent t (timeout (conn.acked hs)) p := by
    rw [timeout_congr hfollows.rtt]
    simp only [hfollows.pending]
  rw [← Bool.not_eq_true, expired_service_iff, foldl_hear_lastRecvTime, hspent, not_or, not_or,
    not_lt]
  constructor
  · intro h
    have hlive : (hs.foldl hear conn).state ≠ .disconnecting := by
      rw [Ne, foldl_hear_disconnecting_iff, not_or, not_exists]
      exact ⟨h.stays.1, fun x hx => h.stays.2 x hx.1 hx.2⟩
    refine ⟨hlive, ?_, h.heard⟩
    rintro ⟨hconnected, ch, p, hp, hdue⟩
    exact h.answered ((foldl_hear_connected_iff hlive).mp hconnected) ch p hp hdue
  · rintro ⟨hlive, hanswered, hheard⟩
    have hstays := hlive
    rw [foldl_hear_disconnecting_iff, not_or, not_exists] at hstays
    refine ⟨⟨hstays.1, fun x hx htype => hstays.2 x ⟨hx, htype⟩⟩, hheard, fun hjoined ch p hp hdue => ?_⟩
    exact hanswered ⟨(foldl_hear_connected_iff hlive).mpr hjoined, ch, p, hp, hdue⟩

/-! ### What is left to resend -/

theorem timeout_pos (conn : Connection) : 0 < timeout conn := by
  unfold timeout
  dsimp only
  split_ifs <;> linarith

/-- When the loop over a channel goes through, none of its messages is due any more. -/
theorem resendChannel_rested (io : Io) (t : Time) (ch : Fin 4) (ps : List Pending)
    (conn : Connection) (hstop : (resendChannel io t ch ps conn).2.2.2 = false) :
    ∀ p ∈ (resendChannel io t ch ps conn).2.1, ¬t - p.sendTime > timeout conn := by
  induction ps generalizing conn with
  | nil => simp [resendChannel]
  | cons p ps ih =>
    rw [resendChannel] at hstop ⊢
    by_cases hdue : t - p.sendTime > timeout conn
    · rw [if_pos hdue] at hstop ⊢
      dsimp only at hstop ⊢
      by_cases hretries : p.retries + 1 > 10
      · rw [if_pos hretries] at hstop
        cases hstop
      · rw [if_neg hretries] at hstop ⊢
        have hentry := resendEntry_times io ch { p with sendTime := t, retries := p.retries + 1 } conn
        have hrest := ih (resendEntry io ch { p with sendTime := t, retries := p.retries + 1 } conn).1
          hstop
        rw [hentry.timeout] at hrest
        refine List.forall_mem_cons.mpr ⟨?_, hrest⟩
        rw [sub_self]
        exact not_lt.mpr (timeout_pos conn).le
    · rw [if_neg hdue] at hstop ⊢
      exact List.forall_mem_cons.mpr ⟨hdue, ih conn hstop⟩

theorem resendChannels_pending (io : Io) (t : Time) {chs : List (Fin 4)} {c : Fin 4} (hc : c ∉ chs)
    (conn : Connection) :
    ((resendChannels io t chs conn).1.channels c).pending = (conn.channels c).pending := by
  induction chs generalizing conn with
  | nil => rfl
  | cons ch chs ih =>
    rw [List.mem_cons, not_or] at hc
    obtain ⟨hne, hc⟩ := hc
    obtain ⟨hsame, -⟩ := resendChannel_state io t ch (conn.channels ch).pending conn
    rw [resendChannels]
    rcases hresend : resendChannel io t ch (conn.channels ch).pending conn
      with ⟨conn₁, pending, out, stop⟩
    rw [hresend] at hsame
    have hset : ((conn₁.setChannel ch { conn₁.channels ch with pending := pending }).channels c).pending =
        (conn.channels c).pending := by
      rw [Connection.channels_setChannel_ne _ _ _ hne]
      exact hsame c
    cases stop with
    | true => exact hset
    | false => exact (ih hc _).trans hset

theorem resendChannels_rested (io : Io) (t : Time) {chs : List (Fin 4)} (hchs : chs.Nodup)
    (conn : Connection) (hlive : (resendChannels io t chs conn).1.state ≠ .disconnecting) :
    ∀ c ∈ chs, ∀ p ∈ ((resendChannels io t chs conn).1.channels c).pending,
      ¬t - p.sendTime > timeout conn := by
  induction chs generalizing conn with
  | nil => exact fun c hc => absurd hc List.not_mem_nil
  | cons ch chs ih =>
    obtain ⟨hch, hchs⟩ := List.nodup_cons.mp hchs
    have hrested := resendChannel_rested io t ch (conn.channels ch).pending conn
    obtain ⟨-, htimes⟩ := resendChannel_stop io t ch (conn.channels ch).pending conn
    obtain ⟨-, hstate⟩ := resendChannel_state io t ch (conn.channels ch).pending conn
    rw [resendChannels] at hlive ⊢
    rcases hresend : resendChannel io t ch (conn.channels ch).pending conn
      with ⟨conn₁, pending, out, stop⟩
    rw [hresend] at hrested htimes hstate hlive
    dsimp only at hrested htimes hstate hlive ⊢
    cases stop with
    | true => exact absurd hstate hlive
    | false =>
      have hrest := ih hchs (conn₁.setChannel ch { conn₁.channels ch with pending := pending }) hlive
      refine List.forall_mem_cons.mpr ⟨?_, ?_⟩
      · rw [if_neg Bool.false_ne_true]
        show ∀ p ∈ ((resendChannels io t chs _).1.channels ch).pending, _
        rw [resendChannels_pending io t hch, Connection.channels_setChannel_self]
        exact hrested rfl
      · intro c hc
        have htimeout : timeout (conn₁.setChannel ch { conn₁.channels ch with pending := pending }) =
            timeout conn := htimes.timeout
        rw [← htimeout]
        exact hrest c hc

/-- A connection that outlasted a poll outlasts one that hears nothing at the same time. -/
theorem lasts_again (io : Io) (t : Time) (conn : Connection)
    (h : (serviceConnection io t conn).1.expired t = false) :
    (serviceConnection io t conn).1.Lasts t [] := by
  have htimes := service_times io t conn
  have hlive : (serviceConnection io t conn).1.state ≠ .disconnecting ∧
      t - (serviceConnection io t conn).1.lastRecvTime ≤ 5 := by
    unfold expired at h
    rwa [decide_eq_false_iff_not, not_or, not_lt] at h
  refine ⟨⟨hlive.1, fun x hx => absurd hx List.not_mem_nil⟩, hlive.2, fun hjoined ch p hp hdue => ?_⟩
  have hconnected : (serviceConnection io t conn).1.state = .connected := by simpa using hjoined
  change p ∈ ((serviceConnection io t conn).1.channels ch).pending at hp
  change Spent t (timeout (serviceConnection io t conn).1) p at hdue
  rw [htimes.timeout] at hdue
  by_cases hbefore : conn.state = .connected
  · obtain ⟨hstate, hchannels⟩ := serviceConnection_resend io t hbefore
    rw [hchannels] at hp
    rw [hstate] at hlive
    exact resendChannels_rested io t (List.nodup_finRange 4) conn hlive.1 ch (List.mem_finRange ch) p
      hp hdue.1
  · have hsame : serviceConnection io t conn = (conn, []) := by
      rw [serviceConnection, if_neg hbefore]
    rw [hsame] at hconnected
    exact hbefore hconnected

end Connection

/-! ### What a poll leaves of the connections with an address -/

/-- The connections with address `a` when its peer has been heard: the first one hears it, a new one if
there is none. -/
def attend (a : Address) : List Connection → Heard → List Connection
  | [], h => [({ address := a } : Connection).hear h]
  | conn :: conns, h => conn.hear h :: conns

def Impl.at (impl : Impl) (a : Address) : List Connection :=
  impl.connections.filter fun conn => conn.address = a

theorem foldl_attend_cons (a : Address) (conn : Connection) (conns : List Connection)
    (hs : List Heard) : hs.foldl (attend a) (conn :: conns) = hs.foldl Connection.hear conn :: conns := by
  induction hs generalizing conn with
  | nil => rfl
  | cons h hs ih => exact ih (conn.hear h)

/-- The peer's packet is what a connection without any has to say. -/
theorem hear_new (a : Address) (h : Heard) (now : Time) :
    ({ address := a, lastRecvTime := now } : Connection).hear h =
      ({ address := a } : Connection).hear h := by
  unfold Connection.hear receiveOn
  rw [if_neg (not_not.mpr h.valid), if_neg (not_not.mpr h.valid)]

/-- The first connection with the address hears the peer, or one that is made for it. -/
theorem hear_getOrCreate (impl : Impl) (a : Address) (h : Heard) (now : Time) :
    (getOrCreateConnection impl now a).hear h :: (impl.at a).tail = attend a (impl.at a) h := by
  have hfind : findConnection impl a = (impl.at a).head? := lookup_eq_head? a impl.connections
  rw [getOrCreateConnection, hfind]
  rcases impl.at a with _ | ⟨first, rest⟩
  · exact congrArg (fun conn => [conn]) (hear_new a h now)
  · rfl

theorem receiveOne_at {P : Platform} {impl impl' : Impl} {x : Arrival} {ds : List Datagram}
    (h : receiveOne P impl x = some (impl', ds)) (a : Address) :
    impl'.at a = (heardFrom a [x]).foldl (attend a) (impl.at a) := by
  rw [receiveOne_eq] at h
  unfold heardFrom Arrival.heard
  rcases hpacket : packet x.bytes with _ | ⟨hdr, payload⟩
  · rw [hpacket] at h
    obtain rfl : impl = impl' := congrArg Prod.fst (Option.some.inj h)
    by_cases hsender : x.sender = a <;> simp [hsender, hpacket]
  · rw [hpacket] at h
    have hconnections := processPacket_receiveOn h
    by_cases hvalid : hdr.protocolId = PacketHeader.PROTOCOL_ID
    · rw [if_neg (not_not.mpr hvalid)] at hconnections
      set conn := getOrCreateConnection impl x.env.now x.sender with hconn
      have haddress : (receiveOn x.env conn hdr payload).address = x.sender := by
        rw [receiveOn_address, hconn, getOrCreateConnection_address]
      unfold Impl.at
      rw [hconnections]
      by_cases hsender : x.sender = a
      · have hself := @filter_upsert_self _ _ _ Connection.address (receiveOn x.env conn hdr payload)
          impl.connections
        rw [haddress, hsender] at hself
        refine hself.trans ?_
        simp only [hsender, hpacket, hvalid, decide_true, List.filter_cons_of_pos, List.filter_nil,
          List.filterMap_cons, List.filterMap_nil, dif_pos, List.foldl_cons, List.foldl_nil]
        rw [hconn, hsender]
        exact hear_getOrCreate impl a ⟨x.env, hdr, payload, hvalid⟩ x.env.now
      · have hne := @filter_upsert_ne _ _ _ Connection.address a (receiveOn x.env conn hdr payload)
          impl.connections (haddress.trans_ne hsender)
        have hnone : [x].filter (fun x => x.sender = a) = [] := by simp [hsender]
        rw [hnone]
        exact hne
    · rw [if_pos hvalid] at hconnections
      unfold Impl.at
      rw [hconnections]
      by_cases hsender : x.sender = a <;> simp [hsender, hpacket, hvalid]

theorem receiveLoop_at {P : Platform} {impl impl' : Impl} {xs : List Arrival} {ds : List Datagram}
    (h : receiveLoop P impl xs = some (impl', ds)) (a : Address) :
    impl'.at a = (heardFrom a xs).foldl (attend a) (impl.at a) := by
  induction xs generalizing impl ds with
  | nil =>
    obtain rfl : impl = impl' := congrArg Prod.fst (Option.some.inj h)
    rfl
  | cons x xs ih =>
    obtain ⟨⟨impl₁, ds₁⟩, hone, h⟩ := Option.bind_eq_some_iff.mp h
    obtain ⟨⟨impl₂, ds₂⟩, hrest, h⟩ := Option.bind_eq_some_iff.mp h
    obtain rfl : impl₂ = impl' := congrArg Prod.fst (Option.some.inj h)
    have hsplit : heardFrom a (x :: xs) = heardFrom a [x] ++ heardFrom a xs := by
      unfold heardFrom
      rw [← List.filterMap_append, ← List.filter_append, List.singleton_append]
    rw [hsplit, List.foldl_append, ← receiveOne_at hone a]
    exact ih hrest

theorem finishPoll_at (env : Env) (t : Time) (impl : Impl) (a : Address) :
    (finishPoll env t impl).1.at a = ((impl.at a).map fun conn =>
      (serviceConnection (impl.io env) t conn).1).filter fun conn => !conn.expired t := by
  have haddress : ∀ conn, (serviceConnection (impl.io env) t conn).1.address = conn.address :=
    fun conn => (serviceConnection_spec (impl.io env) t conn).1.address
  unfold Impl.at
  rw [finishPoll, service_eq, List.filter_map]
  change ((impl.connections.map _).filter _).filter _ = _
  rw [List.filter_filter, List.filter_map, List.filter_filter]
  refine congrArg (List.map _) (List.filter_congr fun conn _ => ?_)
  simp only [Function.comp_apply, haddress, Bool.and_comm]

/-- After a poll at time `t` that hears `hs` from `a` there is a connection with it. -/
def StaysWith (t : Time) (a : Address) (hs : List Heard) : List Connection → Prop
  | [] => hs ≠ [] ∧ ({ address := a } : Connection).Lasts t hs
  | conn :: conns => conn.Lasts t hs ∨ ∃ other ∈ conns, other.Lasts t []

theorem staysWith_iff (io : Io) (t : Time) (a : Address) (hs : List Heard) (conns : List Connection) :
    StaysWith t a hs conns ↔ ∃ conn ∈ hs.foldl (attend a) conns,
      (serviceConnection io t conn).1.expired t = false := by
  rcases conns with _ | ⟨conn, conns⟩
  · rcases hs with _ | ⟨h, hs⟩
    · simp [StaysWith]
    · have hfirst : (h :: hs).foldl (attend a) [] =
          [(h :: hs).foldl Connection.hear { address := a }] :=
        foldl_attend_cons a _ [] hs
      rw [hfirst]
      simp [StaysWith, Connection.lasts_iff io]
  · rw [foldl_attend_cons, List.exists_mem_cons_iff]
    exact or_congr (Connection.lasts_iff io t conn hs)
      (exists_congr fun other => and_congr_right fun _ => Connection.lasts_iff io t other [])

end Udp

namespace UdpTransport

open Udp (Impl heardFrom receiveLoop finishPoll)

/-- The addresses that the transport has a connection with. -/
def peers (host : UdpHost) : List Address := host.impl.connections.map Udp.Connection.address

theorem mem_peers_iff (host : UdpHost) (a : Address) : a ∈ peers host ↔ host.impl.at a ≠ [] := by
  unfold peers Impl.at
  rw [Ne, List.filter_eq_nil_iff]
  simp

/-- What `poll` asks of a peer to keep a connection with it, if the poll has a defined result. -/
def Keeps (host : UdpHost) (a : Address) : Prop :=
  if host.impl.socketOpen ∧ (receiveLoop host.platform host.impl host.incoming).isSome then
    Udp.StaysWith host.env.now a (heardFrom a host.incoming) (host.impl.at a)
  else a ∈ peers host

theorem mem_peers_poll_iff (host : UdpHost) (a : Address) : a ∈ peers (poll host) ↔ Keeps host a := by
  unfold poll Keeps Udp.poll
  by_cases hopen : host.impl.socketOpen
  · rcases hloop : receiveLoop host.platform host.impl host.incoming with _ | ⟨impl, ds⟩
    · simp [hopen]
    · rw [if_neg (by simp [hopen]), if_pos ⟨hopen, rfl⟩, mem_peers_iff]
      change (finishPoll host.env host.env.now impl).1.at a ≠ [] ↔ _
      rw [Udp.finishPoll_at, Udp.receiveLoop_at hloop, Udp.staysWith_iff (impl.io host.env), Ne,
        List.filter_eq_nil_iff, List.forall_mem_map]
      simp
  · rw [if_pos (by simpa using hopen), if_neg (fun h => hopen h.1)]
    simp [peers, put]

/-- Whom a poll keeps, another poll at once keeps too. -/
theorem keeps_poll_iff (host : UdpHost) (a : Address) :
    Keeps (poll host) a ↔ a ∈ peers (poll host) := by
  unfold Keeps
  split_ifs with hdefined
  · rw [mem_peers_iff]
    unfold poll Udp.poll at hdefined ⊢
    by_cases hopen : host.impl.socketOpen
    · rcases hloop : receiveLoop host.platform host.impl host.incoming with _ | ⟨impl, ds⟩
      · simp [hopen, hloop] at hdefined
      · rw [if_neg (by simp [hopen])]
        change Udp.StaysWith host.env.now a [] ((finishPoll host.env host.env.now impl).1.at a) ↔
          (finishPoll host.env host.env.now impl).1.at a ≠ []
        have hlasts : ∀ conn ∈ (finishPoll host.env host.env.now impl).1.at a,
            conn.Lasts host.env.now [] := by
          intro conn hconn
          rw [Udp.finishPoll_at, List.mem_filter, List.mem_map] at hconn
          obtain ⟨⟨before, -, rfl⟩, hkept⟩ := hconn
          exact before.lasts_again _ _ (by simpa using hkept)
        rcases hat : (finishPoll host.env host.env.now impl).1.at a with _ | ⟨conn, conns⟩
        · exact iff_of_false (fun h => h.1 rfl) (fun h => h rfl)
        · rw [hat] at hlasts
          exact iff_of_true (.inl (hlasts conn List.mem_cons_self)) (List.cons_ne_nil _ _)
    · simp [hopen, put] at hdefined
  · exact Iff.rfl

end UdpTransport

end CampelloNet.Transport
