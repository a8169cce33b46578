import CampelloNet.Transport.Udp.PollSpec

/-!
# What a connection hands to `send_raw`

For the functions of a connection that send user data, the log of what they do on the way: the resets
of the bandwidth counters, the packets handed to `send_raw`, whether it accepts them or not, and the
packets that `check_and_consume_bandwidth` refuses. The logs follow the functions step by step; the
datagrams that a function returns are what `send_raw` makes of the packets in its log.
-/

namespace CampelloNet.Transport.Udp

open Lib

inductive Attempt
  /-- the bandwidth counters were reset -/
  | reset
  /-- a packet was handed to `send_raw` by `send_to_connection` -/
  | first (hdr : PacketHeader) (payload : Bytes)
  /-- piece `i` of a pending message was handed to `send_raw` by `resend_pending` -/
  | again (i : ℕ) (hdr : PacketHeader) (payload : Bytes)
  /-- the bandwidth did not suffice for piece `i` of a message -/
  | refused (i : ℕ)
  deriving DecidableEq

namespace Attempt

def packet : Attempt → Option (PacketHeader × Bytes)
  | first hdr payload | again _ hdr payload => some (hdr, payload)
  | reset | refused _ => none

/-- What `send_raw` makes of it. -/
def datagram (io : Io) (dest : Address) (e : Attempt) : Option Datagram :=
  e.packet.bind fun p => sendRaw io dest p.1 p.2

end Attempt

variable (io : Io)

/-- What `check_and_consume_bandwidth` does first. -/
def resetLog (conn : Connection) : List Attempt :=
  if io.now - conn.lastBandwidthReset ≥ 1 then [.reset] else []

/-! ### The logs -/

def sendFragmentsLog (r : PacketReliability) (base : UInt16) (data : Bytes) :
    List Nat → Connection → List Attempt
  | [], _ => []
  | i :: is, conn =>
    let log := if r.isReliable then [] else resetLog io conn
    let (conn, ok) :=
      if r.isReliable then (conn, true)
      else checkAndConsumeBandwidth io conn r.index (PacketHeader.SIZE + MAX_PAYLOAD_SIZE)
    if ok = false then log ++ [.refused i]
    else
      let frag := fragmentOf data i
      let hdr := fragmentHeader r.index (conn.channels r.index) base i (numFragments data) frag.length
      let conn := { conn with lastSendTime := io.now }
      log ++ .first hdr frag ::
        match sendRaw io conn.address hdr frag with
        | none => []
        | some _ => sendFragmentsLog r base data is conn

def sendLog (conn : Connection) (data : Bytes) (r : PacketReliability) (priority : UInt8) :
    List Attempt :=
  if conn.state ≠ .connected ∧ conn.state ≠ .connecting then []
  else
    let channel := conn.channels r.index
    let seq := channel.localSeq
    if data.length ≤ MAX_PAYLOAD_SIZE then
      let hdr := userHeader r.index channel seq data.length
      if r.isReliable then [.first hdr data]
      else
        let conn := conn.setChannel r.index { channel with localSeq := seq + 1 }
        let (_, ok) := checkAndConsumeBandwidth io conn r.index (PacketHeader.SIZE + data.length)
        resetLog io conn ++ [if ok = false then .refused 0 else .first hdr data]
    else if numFragments data > 255 then []
    else
      let conn := conn.setChannel r.index
        { channel with
          localSeq := seq + 1
          pending := if r.isReliable then
              channel.pending ++ [⟨seq, io.now, 0, data, true, priority⟩]
            else channel.pending }
      sendFragmentsLog io r seq data (List.range (numFragments data)) conn

def resendFragmentsLog (ch : Fin 4) (p : Pending) : List Nat → Connection → List Attempt
  | [], _ => []
  | i :: is, conn =>
    resetLog io conn ++
      match checkAndConsumeBandwidth io conn ch (PacketHeader.SIZE + MAX_PAYLOAD_SIZE) with
      | (conn, false) => .refused i :: resendFragmentsLog ch p is conn
      | (conn, true) =>
        let frag := fragmentOf p.data i
        let hdr := fragmentHeader ch (conn.channels ch) p.sequence i (numFragments p.data) frag.length
        .again i hdr frag :: resendFragmentsLog ch p is conn

def resendEntryLog (ch : Fin 4) (p : Pending) (conn : Connection) : List Attempt :=
  if p.fragmented then resendFragmentsLog io ch p (List.range (numFragments p.data)) conn
  else
    resetLog io conn ++
      match checkAndConsumeBandwidth io conn ch (PacketHeader.SIZE + p.data.length) with
      | (_, false) => [.refused 0]
      | (conn, true) => [.again 0 (userHeader ch (conn.channels ch) p.sequence p.data.length) p.data]

def resendChannelLog (t : Time) (ch : Fin 4) : List Pending → Connection → List Attempt
  | [], _ => []
  | p :: ps, conn =>
    if t - p.sendTime > timeout conn then
      let p := { p with sendTime := t, retries := p.retries + 1 }
      if p.retries > 10 then []
      else resendEntryLog io ch p conn ++ resendChannelLog t ch ps (resendEntry io ch p conn).1
    else resendChannelLog t ch ps conn

def resendChannelsLog (t : Time) : List (Fin 4) → Connection → List Attempt
  | [], _ => []
  | ch :: chs, conn =>
    let log := resendChannelLog io t ch (conn.channels ch).pending conn
    let (conn, pending, _, stop) := resendChannel io t ch (conn.channels ch).pending conn
    let conn := conn.setChannel ch { conn.channels ch with pending := pending }
    if stop then log else log ++ resendChannelsLog t chs conn

def resendPendingLog (t : Time) (conn : Connection) : List Attempt :=
  resendChannelsLog io t (List.finRange 4) conn

/-! ### The datagrams -/

section
variable {io}

@[simp] theorem datagram_reset (dest : Address) : Attempt.reset.datagram io dest = none := rfl
@[simp] theorem datagram_refused (dest : Address) (i : ℕ) : (Attempt.refused i).datagram io dest = none := rfl
@[simp] theorem datagram_first (dest : Address) (hdr : PacketHeader) (payload : Bytes) :
    (Attempt.first hdr payload).datagram io dest = sendRaw io dest hdr payload := rfl
@[simp] theorem datagram_again (dest : Address) (i : ℕ) (hdr : PacketHeader) (payload : Bytes) :
    (Attempt.again i hdr payload).datagram io dest = sendRaw io dest hdr payload := rfl

@[simp] theorem filterMap_resetLog (conn : Connection) (dest : Address) :
    (resetLog io conn).filterMap (Attempt.datagram io dest) = [] := by
  rw [resetLog]
  split_ifs <;> rfl

theorem filterMap_datagram_singleton (e : Attempt) (dest : Address) :
    [e].filterMap (Attempt.datagram io dest) = (e.datagram io dest).toList := by
  rw [List.filterMap_cons, List.filterMap_nil]
  cases e.datagram io dest <;> rfl

theorem sendFragments_datagrams (r : PacketReliability) (base : UInt16) (data : Bytes) (is : List ℕ)
    (conn : Connection) : (sendFragments io r base data is conn).2.1 =
      (sendFragmentsLog io r base data is conn).filterMap (Attempt.datagram io conn.address) := by
  induction is generalizing conn with
  | nil => rfl
  | cons i is ih =>
    rw [sendFragments, sendFragmentsLog]
    -- the connection after the bandwidth check, whether or not there was one
    have haddress : (if r.isReliable then (conn, true)
        else checkAndConsumeBandwidth io conn r.index
          (PacketHeader.SIZE + MAX_PAYLOAD_SIZE)).1.address = conn.address := by
      split_ifs
      · rfl
      · exact (checkAndConsumeBandwidth_alike io conn _ _).address
    have hreset : (if r.isReliable then [] else resetLog io conn).filterMap
        (Attempt.datagram io conn.address) = [] := by
      split_ifs
      · rfl
      · exact filterMap_resetLog conn _
    rcases hcheck : (if r.isReliable then (conn, true)
        else checkAndConsumeBandwidth io conn r.index (PacketHeader.SIZE + MAX_PAYLOAD_SIZE))
      with ⟨conn₁, ok⟩
    rw [hcheck] at haddress
    dsimp only at haddress ⊢
    cases ok with
    | false => simp [hreset]
    | true =>
      rw [if_neg (by simp), if_neg (by simp), List.filterMap_append, hreset, List.nil_append,
        List.filterMap_cons, datagram_first, haddress]
      cases hraw : sendRaw io conn.address (fragmentHeader r.index (conn₁.channels r.index) base i
        (numFragments data) (fragmentOf data i).length) (fragmentOf data i) with
      | none => rfl
      | some d =>
        have hrest := ih { conn₁ with lastSendTime := io.now }
        simp only [haddress] at hrest
        simp only [hrest]

theorem sendToConnection_datagrams (conn : Connection) (data : Bytes) (r : PacketReliability)
    (priority : UInt8) : (sendToConnection io conn data r priority).2.1 =
      (sendLog io conn data r priority).filterMap (Attempt.datagram io conn.address) := by
  rw [sendToConnection, sendLog]
  by_cases hstate : conn.state ≠ .connected ∧ conn.state ≠ .connecting
  · rw [if_pos hstate, if_pos hstate]
    rfl
  rw [if_neg hstate, if_neg hstate]
  dsimp only
  by_cases hlen : data.length ≤ MAX_PAYLOAD_SIZE
  · rw [if_pos hlen, if_pos hlen]
    by_cases hrel : r.isReliable = true
    · rw [if_pos hrel, if_pos hrel, filterMap_datagram_singleton, datagram_first]
      rfl
    · rw [if_neg hrel, if_neg hrel]
      have haddress := (checkAndConsumeBandwidth_alike io (conn.setChannel r.index
        { conn.channels r.index with localSeq := (conn.channels r.index).localSeq + 1 }) r.index
        (PacketHeader.SIZE + data.length)).address
      rcases hcheck : checkAndConsumeBandwidth io (conn.setChannel r.index
        { conn.channels r.index with localSeq := (conn.channels r.index).localSeq + 1 }) r.index
        (PacketHeader.SIZE + data.length) with ⟨conn₁, ok⟩
      rw [hcheck] at haddress
      rw [List.filterMap_append, filterMap_resetLog, List.nil_append, filterMap_datagram_singleton]
      cases ok with
      | false => rfl
      | true =>
        dsimp only at haddress ⊢
        rw [if_neg (by simp), if_neg (by simp), datagram_first, haddress]
        rfl
  · rw [if_neg hlen, if_neg hlen]
    by_cases hbig : numFragments data > 255
    · rw [if_pos hbig, if_pos hbig]
      rfl
    · rw [if_neg hbig, if_neg hbig]
      exact sendFragments_datagrams r _ data _ _

theorem resendFragments_datagrams (ch : Fin 4) (p : Pending) (is : List ℕ) (conn : Connection) :
    (resendFragments io ch p is conn).2 =
      (resendFragmentsLog io ch p is conn).filterMap (Attempt.datagram io conn.address) := by
  induction is generalizing conn with
  | nil => rfl
  | cons i is ih =>
    rw [resendFragments, resendFragmentsLog, List.filterMap_append, filterMap_resetLog, List.nil_append]
    have haddress := (checkAndConsumeBandwidth_alike io conn ch
      (PacketHeader.SIZE + MAX_PAYLOAD_SIZE)).address
    rcases hcheck : checkAndConsumeBandwidth io conn ch (PacketHeader.SIZE + MAX_PAYLOAD_SIZE)
      with ⟨conn₁, ok⟩
    rw [hcheck] at haddress
    cases ok with
    | false =>
      dsimp only
      rw [ih conn₁, haddress, List.filterMap_cons, datagram_refused]
    | true =>
      dsimp only
      rw [ih conn₁, haddress, List.filterMap_cons, datagram_again]
      cases sendRaw io conn.address (fragmentHeader ch (conn₁.channels ch) p.sequence i
        (numFragments p.data) (fragmentOf p.data i).length) (fragmentOf p.data i) <;> rfl

theorem resendEntry_datagrams (ch : Fin 4) (p : Pending) (conn : Connection) :
    (resendEntry io ch p conn).2 =
      (resendEntryLog io ch p conn).filterMap (Attempt.datagram io conn.address) := by
  rw [resendEntry, resendEntryLog]
  by_cases hfrag : p.fragmented = true
  · rw [if_pos hfrag, if_pos hfrag]
    exact resendFragments_datagrams ch p _ conn
  · rw [if_neg hfrag, if_neg hfrag, List.filterMap_append, filterMap_resetLog, List.nil_append]
    have haddress := (checkAndConsumeBandwidth_alike io conn ch
      (PacketHeader.SIZE + p.data.length)).address
    rcases hcheck : checkAndConsumeBandwidth io conn ch (PacketHeader.SIZE + p.data.length)
      with ⟨conn₁, ok⟩
    rw [hcheck] at haddress
    cases ok with
    | false => rfl
    | true =>
      dsimp only
      rw [filterMap_datagram_singleton, datagram_again, haddress]

theorem resendChannel_datagrams (t : Time) (ch : Fin 4) (ps : List Pending) (conn : Connection) :
    (resendChannel io t ch ps conn).2.2.1 =
      (resendChannelLog io t ch ps conn).filterMap (Attempt.datagram io conn.address) := by
  induction ps generalizing conn with
  | nil => rfl
  | cons p ps ih =>
    rw [resendChannel, resendChannelLog]
    by_cases hdue : t - p.sendTime > timeout conn
    · rw [if_pos hdue, if_pos hdue]
      by_cases hretries : p.retries + 1 > 10
      · rw [if_pos hretries, if_pos hretries]
        rfl
      · rw [if_neg hretries, if_neg hretries, List.filterMap_append]
        dsimp only
        rw [resendEntry_datagrams, ih, (resendEntry_spec io ch _ conn).1.address]
    · rw [if_neg hdue, if_neg hdue]
      exact ih conn

theorem resendChannels_datagrams (t : Time) (chs : List (Fin 4)) (conn : Connection) :
    (resendChannels io t chs conn).2 =
      (resendChannelsLog io t chs conn).filterMap (Attempt.datagram io conn.address) := by
  induction chs generalizing conn with
  | nil => rfl
  | cons ch chs ih =>
    rw [resendChannels, resendChannelsLog]
    have hds : (resendChannel io t ch (conn.channels ch).pending conn).2.2.1 = _ :=
      resendChannel_datagrams t ch (conn.channels ch).pending conn
    have haddress := (resendChannel_spec io t ch (conn.channels ch).pending conn).1.address
    rcases hresend : resendChannel io t ch (conn.channels ch).pending conn
      with ⟨conn₁, pending, out, stop⟩
    rw [hresend] at hds haddress
    dsimp only at hds haddress ⊢
    split_ifs
    · exact hds
    · rw [List.filterMap_append, ← hds, ih, Connection.address_setChannel, haddress]

/-- The datagrams of `resend_pending` are what `send_raw` makes of its packets. -/
theorem resendPending_datagrams (t : Time) (conn : Connection) :
    (resendPending io t conn).2 =
      (resendPendingLog io t conn).filterMap (Attempt.datagram io conn.address) :=
  resendChannels_datagrams t _ conn

end

end CampelloNet.Transport.Udp
