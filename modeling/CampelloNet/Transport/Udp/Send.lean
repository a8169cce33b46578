import CampelloNet.Transport.Udp.State

/-!
# Sending, acknowledging and resending on a connection

`send_to_connection` with its fragment loop, the control packets, `process_acks`, and
`resend_pending` with its loops over the channels, their pending entries and the fragments of one
entry. Each loop is a recursion over what is left of it.
-/

namespace CampelloNet.Transport.Udp

open Lib

/-! ### Sending -/

/-- The header of an unfragmented payload sent or resent on channel `ch`. -/
def userHeader (ch : Fin 4) (channel : Channel) (sequence : UInt16) (len : Nat) : PacketHeader :=
  ({ packetType := PacketType.user.toUInt8, sequence := sequence, ack := channel.remoteSeq,
     ackBits := channel.ackBits, payloadLen := .ofNat len : PacketHeader }.setReliability
      (.ofIndex ch)).setChannel ch

/-- The header of fragment `i` (from 0) of `n`. -/
def fragmentHeader (ch : Fin 4) (channel : Channel) (sequence : UInt16) (i n len : Nat) :
    PacketHeader :=
  ({ packetType := PacketType.fragment.toUInt8, sequence := sequence, ack := channel.remoteSeq,
     ackBits := channel.ackBits, payloadLen := .ofNat len, fragIndex := .ofNat (i + 1),
     fragCount := .ofNat n : PacketHeader }.setReliability (.ofIndex ch)).setChannel ch

/-- A packet without payload on channel 0. -/
def controlHeader (type : PacketType) (ack : UInt16) (ackBits : UInt32) : PacketHeader :=
  ({ packetType := type.toUInt8, ack := ack, ackBits := ackBits : PacketHeader }.setReliability
      .unreliable).setChannel PacketReliability.unreliable.index

def numFragments (data : Bytes) : Nat := (data.length + MAX_PAYLOAD_SIZE - 1) / MAX_PAYLOAD_SIZE

/-- The bytes of fragment `i` (from 0). -/
def fragmentOf (data : Bytes) (i : Nat) : Bytes :=
  (data.drop (i * MAX_PAYLOAD_SIZE)).take MAX_PAYLOAD_SIZE

/-- The fragment loop of `send_to_connection`, from the fragment indices that are left. -/
def sendFragments (io : Io) (r : PacketReliability) (base : UInt16) (data : Bytes) :
    List Nat → Connection → Connection × List Datagram × Bool
  | [], conn => (conn, [], true)
  | i :: is, conn =>
    let (conn, ok) :=
      if r.isReliable then (conn, true)
      else checkAndConsumeBandwidth io conn r.index (PacketHeader.SIZE + MAX_PAYLOAD_SIZE)
    if ok = false then (conn, [], false)
    else
      let frag := fragmentOf data i
      let hdr := fragmentHeader r.index (conn.channels r.index) base i (numFragments data) frag.length
      let conn := { conn with lastSendTime := io.now }
      match sendRaw io conn.address hdr frag with
      | none => (conn, [], false)
      | some d =>
        let (conn, ds, ok) := sendFragments io r base data is conn
        (conn, d :: ds, ok)

def sendToConnection (io : Io) (conn : Connection) (data : Bytes) (r : PacketReliability)
    (priority : UInt8) : Connection × List Datagram × Bool :=
  if conn.state ≠ .connected ∧ conn.state ≠ .connecting then (conn, [], false)
  else
    let channel := conn.channels r.index
    let seq := channel.localSeq
    if data.length ≤ MAX_PAYLOAD_SIZE then
      let hdr := userHeader r.index channel seq data.length
      if r.isReliable then
        let conn := conn.setChannel r.index
          { channel with
            localSeq := seq + 1
            pending := channel.pending ++ [⟨seq, io.now, 0, data, false, priority⟩] }
        let out := sendRaw io conn.address hdr data
        ({ conn with lastSendTime := io.now }, out.toList, out.isSome)
      else
        let conn := conn.setChannel r.index { channel with localSeq := seq + 1 }
        let (conn, ok) :=
          checkAndConsumeBandwidth io conn r.index (PacketHeader.SIZE + data.length)
        if ok = false then (conn, [], false)
        else
          let out := sendRaw io conn.address hdr data
          ({ conn with lastSendTime := io.now }, out.toList, out.isSome)
    else if numFragments data > 255 then (conn, [], false)
    else
      let conn := conn.setChannel r.index
        { channel with
          localSeq := seq + 1
          pending := if r.isReliable then
              channel.pending ++ [⟨seq, io.now, 0, data, true, priority⟩]
            else channel.pending }
      sendFragments io r seq data (List.range (numFragments data)) conn

def sendHandshake (io : Io) (dest : Address) : List Datagram :=
  (sendRaw io dest (controlHeader .handshake 0 0) []).toList

def sendDisconnect (io : Io) (dest : Address) : List Datagram :=
  (sendRaw io dest (controlHeader .disconnect 0 0) []).toList

/-- A keepalive carries the acknowledgement of channel 0. -/
def sendKeepalive (io : Io) (conn : Connection) : List Datagram :=
  let channel := conn.channels PacketReliability.unreliable.index
  (sendRaw io conn.address (controlHeader .ack channel.remoteSeq channel.ackBits) []).toList

/-! ### Acks and resends -/

/-- The test of `process_acks` on one pending sequence number. `ack - seq` is an `int`. -/
def isAcked (seq ack : UInt16) (ackBits : UInt32) : Bool :=
  if seq = ack then true
  else
    let diff : Int := (ack.toNat : Int) - seq.toNat
    if diff > 0 ∧ diff ≤ 32 then (ackBits &&& (1 <<< UInt32.ofNat (diff - 1).toNat)) ≠ 0 else false

/-- What one acknowledged entry does to the RTT estimate. -/
def sampleRtt (now : Time) (conn : Connection) (p : Pending) : Connection :=
  let rttSample := now - p.sendTime
  let smoothed := conn.smoothedRtt * (7 / 8) + rttSample * (1 / 8)
  { conn with
    smoothedRtt := smoothed
    rttVariance := conn.rttVariance * (7 / 8) + |rttSample - smoothed| * (1 / 8) }

/-- Erase the acknowledged entries, sampling the RTT of each in order. -/
def processAcks (now : Time) (conn : Connection) (ch : Fin 4) (ack : UInt16) (ackBits : UInt32) :
    Connection :=
  if (PacketReliability.ofIndex ch).isReliable = false then conn
  else
    let channel := conn.channels ch
    let acked := channel.pending.filter fun p => isAcked p.sequence ack ackBits
    let kept := channel.pending.filter fun p => !isAcked p.sequence ack ackBits
    (acked.foldl (sampleRtt now) conn).setChannel ch { channel with pending := kept }

/-- The retransmission timeout, between 50 ms and 1 s. -/
def timeout (conn : Connection) : Time :=
  let timeout := conn.smoothedRtt + 4 * conn.rttVariance
  let timeout := if timeout < 1 / 20 then 1 / 20 else timeout
  if timeout > 1 then 1 else timeout

/-- The fragment loop of `resend_pending`: a fragment that exceeds the bandwidth is skipped. -/
def resendFragments (io : Io) (ch : Fin 4) (p : Pending) :
    List Nat → Connection → Connection × List Datagram
  | [], conn => (conn, [])
  | i :: is, conn =>
    match checkAndConsumeBandwidth io conn ch (PacketHeader.SIZE + MAX_PAYLOAD_SIZE) with
    | (conn, false) => resendFragments io ch p is conn
    | (conn, true) =>
      let frag := fragmentOf p.data i
      let hdr := fragmentHeader ch (conn.channels ch) p.sequence i (numFragments p.data) frag.length
      let out := (sendRaw io conn.address hdr frag).toList
      let (conn, ds) := resendFragments io ch p is conn
      (conn, out ++ ds)

/-- Hand one timed-out entry to the network again. -/
def resendEntry (io : Io) (ch : Fin 4) (p : Pending) (conn : Connection) :
    Connection × List Datagram :=
  if p.fragmented then resendFragments io ch p (List.range (numFragments p.data)) conn
  else
    match checkAndConsumeBandwidth io conn ch (PacketHeader.SIZE + p.data.length) with
    | (conn, false) => (conn, [])
    | (conn, true) =>
      let hdr := userHeader ch (conn.channels ch) p.sequence p.data.length
      (conn, (sendRaw io conn.address hdr p.data).toList)

/-- The loop of `resend_pending` over one channel's pending list. Its results are the connection,
the list as updated in place, the datagrams, and whether the function returned from inside. -/
def resendChannel (io : Io) (t : Time) (ch : Fin 4) :
    List Pending → Connection → Connection × List Pending × List Datagram × Bool
  | [], conn => (conn, [], [], false)
  | p :: ps, conn =>
    if t - p.sendTime > timeout conn then
      let p := { p with sendTime := t, retries := p.retries + 1 }
      if p.retries > 10 then ({ conn with state := .disconnecting }, p :: ps, [], true)
      else
        let (conn, out) := resendEntry io ch p conn
        let (conn, ps, out', stop) := resendChannel io t ch ps conn
        (conn, p :: ps, out ++ out', stop)
    else
      let (conn, ps, out, stop) := resendChannel io t ch ps conn
      (conn, p :: ps, out, stop)

/-- The outer loop of `resend_pending`, from the channels that are left. -/
def resendChannels (io : Io) (t : Time) : List (Fin 4) → Connection → Connection × List Datagram
  | [], conn => (conn, [])
  | ch :: chs, conn =>
    let (conn, pending, out, stop) := resendChannel io t ch (conn.channels ch).pending conn
    let conn := conn.setChannel ch { conn.channels ch with pending := pending }
    if stop then (conn, out)
    else
      let (conn, out') := resendChannels io t chs conn
      (conn, out ++ out')

def resendPending (io : Io) (t : Time) (conn : Connection) : Connection × List Datagram :=
  resendChannels io t (List.finRange 4) conn

end CampelloNet.Transport.Udp
