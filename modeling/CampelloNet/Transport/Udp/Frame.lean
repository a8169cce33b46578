import CampelloNet.Transport.Udp.Receive
import Mathlib.Tactic.Common

/-!
# What each operation of a connection does

One lemma per operation: what it leaves of a connection and what it hands to the network. Timers,
retry counts, bandwidth counters and the connection's state do not matter for delivery, so a
channel is looked at through its `view`: the next sequence number, the messages waiting for an
acknowledgement, and the receiver's half.
-/

namespace CampelloNet.Transport.Udp

open Lib

/-! ### Channels of a connection -/

namespace Connection

variable (conn : Connection) (ch : Fin 4) (channel : Channel)

@[simp] theorem channels_setChannel_self : (conn.setChannel ch channel).channels ch = channel := by
  simp [setChannel]

@[simp] theorem channels_setChannel_ne {c : Fin 4} (h : c ≠ ch) :
    (conn.setChannel ch channel).channels c = conn.channels c := by
  simp [setChannel, h]

theorem channels_setChannel (c : Fin 4) :
    (conn.setChannel ch channel).channels c = if c = ch then channel else conn.channels c := by
  by_cases h : c = ch <;> simp [h]

@[simp] theorem address_setChannel : (conn.setChannel ch channel).address = conn.address := rfl
@[simp] theorem state_setChannel : (conn.setChannel ch channel).state = conn.state := rfl

end Connection

/-- The half of a channel that `process_packet` works on. -/
structure Receiver where
  remoteSeq : UInt16 := 0xFFFF
  ackBits : UInt32 := 0
  receiveBuffer : List BufferedPacket := []

def Channel.receiver (channel : Channel) : Receiver :=
  ⟨channel.remoteSeq, channel.ackBits, channel.receiveBuffer⟩

/-- A pending entry without its timer: sequence number, data, and whether it was fragmented. -/
abbrev Message := UInt16 × Bytes × Bool

def Pending.message (p : Pending) : Message := (p.sequence, p.data, p.fragmented)

structure ChannelView where
  localSeq : UInt16 := 0
  pending : List Message := []
  receiver : Receiver := {}

def Channel.view (channel : Channel) : ChannelView :=
  ⟨channel.localSeq, channel.pending.map Pending.message, channel.receiver⟩

@[simp] theorem Channel.view_localSeq (channel : Channel) : channel.view.localSeq = channel.localSeq :=
  rfl
@[simp] theorem Channel.view_pending (channel : Channel) :
    channel.view.pending = channel.pending.map Pending.message := rfl
@[simp] theorem Channel.view_receiver (channel : Channel) : channel.view.receiver = channel.receiver :=
  rfl

/-- The two connections differ at most in state, timers and counters. -/
structure Alike (conn conn' : Connection) : Prop where
  address : conn'.address = conn.address
  view : ∀ ch, (conn'.channels ch).view = (conn.channels ch).view

namespace Alike

variable {conn conn' conn'' : Connection}

theorem rfl : Alike conn conn := ⟨Eq.refl _, fun _ => Eq.refl _⟩

theorem trans (h : Alike conn conn') (h' : Alike conn' conn'') : Alike conn conn'' :=
  ⟨h'.address.trans h.address, fun ch => (h'.view ch).trans (h.view ch)⟩

theorem receiver (h : Alike conn conn') (ch : Fin 4) :
    (conn'.channels ch).receiver = (conn.channels ch).receiver :=
  congrArg ChannelView.receiver (h.view ch)

/-- Writing back a channel with an unchanged view. -/
theorem setChannel {channel : Channel} {ch : Fin 4} (h : Alike conn conn')
    (hc : channel.view = (conn.channels ch).view) : Alike conn (conn'.setChannel ch channel) := by
  refine ⟨h.address, fun c => ?_⟩
  rw [Connection.channels_setChannel]
  split_ifs with hcc
  · rw [hcc, hc]
  · exact h.view c

end Alike

/-! ### Bandwidth -/

theorem resetBandwidthCounters_alike (conn : Connection) (t : Time) :
    Alike conn (resetBandwidthCounters conn t) := by
  rw [resetBandwidthCounters]
  split_ifs
  · exact ⟨rfl, fun _ => rfl⟩
  · exact Alike.rfl

theorem checkAndConsumeBandwidth_alike (io : Io) (conn : Connection) (ch : Fin 4) (size : Nat) :
    Alike conn (checkAndConsumeBandwidth io conn ch size).1 := by
  have h := resetBandwidthCounters_alike conn io.now
  simp only [checkAndConsumeBandwidth]
  split_ifs
  · exact h
  · exact h
  · refine ⟨h.address, (h.setChannel ?_).view⟩
    exact h.view ch

theorem resetBandwidthCounters_state (conn : Connection) (t : Time) :
    (resetBandwidthCounters conn t).state = conn.state := by
  rw [resetBandwidthCounters]
  split_ifs <;> rfl

theorem checkAndConsumeBandwidth_state (io : Io) (conn : Connection) (ch : Fin 4) (size : Nat) :
    (checkAndConsumeBandwidth io conn ch size).1.state = conn.state := by
  simp only [checkAndConsumeBandwidth]
  split_ifs <;> exact resetBandwidthCounters_state conn io.now

/-! ### Headers and datagrams -/

section
variable (ch : Fin 4) (channel : Channel) (sequence : UInt16) (i n len : Nat) (type : PacketType)
  (ack : UInt16) (ackBits : UInt32)

@[simp] theorem channel_userHeader : (userHeader ch channel sequence len).channel = ch := by
  have := PacketHeader.channel_setChannel_setReliability
    { packetType := PacketType.user.toUInt8, sequence := sequence, ack := channel.remoteSeq,
      ackBits := channel.ackBits, payloadLen := .ofNat len } (.ofIndex ch) rfl
  rwa [PacketReliability.index_ofIndex] at this

@[simp] theorem reliability_userHeader :
    (userHeader ch channel sequence len).reliability = .ofIndex ch := by
  have := PacketHeader.reliability_setChannel_setReliability
    { packetType := PacketType.user.toUInt8, sequence := sequence, ack := channel.remoteSeq,
      ackBits := channel.ackBits, payloadLen := .ofNat len } (.ofIndex ch) rfl
  rwa [PacketReliability.index_ofIndex] at this

@[simp] theorem channel_fragmentHeader :
    (fragmentHeader ch channel sequence i n len).channel = ch := by
  have := PacketHeader.channel_setChannel_setReliability
    { packetType := PacketType.fragment.toUInt8, sequence := sequence, ack := channel.remoteSeq,
      ackBits := channel.ackBits, payloadLen := .ofNat len, fragIndex := .ofNat (i + 1),
      fragCount := .ofNat n } (.ofIndex ch) rfl
  rwa [PacketReliability.index_ofIndex] at this

@[simp] theorem reliability_fragmentHeader :
    (fragmentHeader ch channel sequence i n len).reliability = .ofIndex ch := by
  have := PacketHeader.reliability_setChannel_setReliability
    { packetType := PacketType.fragment.toUInt8, sequence := sequence, ack := channel.remoteSeq,
      ackBits := channel.ackBits, payloadLen := .ofNat len, fragIndex := .ofNat (i + 1),
      fragCount := .ofNat n } (.ofIndex ch) rfl
  rwa [PacketReliability.index_ofIndex] at this

@[simp] theorem channel_controlHeader : (controlHeader type ack ackBits).channel = 0 :=
  PacketHeader.channel_setChannel_setReliability
    { packetType := type.toUInt8, ack := ack, ackBits := ackBits } .unreliable rfl

end

/-- The header and the payload that `poll` finds in the bytes of a datagram. -/
def packet (bytes : Bytes) : Option (PacketHeader × Bytes) :=
  (PacketHeader.deserialize (bytes.take MAX_PACKET_SIZE)).map fun hdr =>
    (hdr, (bytes.take MAX_PACKET_SIZE).drop PacketHeader.SIZE)

theorem packet_serialize_append (hdr : PacketHeader) {payload : Bytes}
    (h : payload.length ≤ MAX_PAYLOAD_SIZE) :
    packet (hdr.serialize ++ payload) = some (hdr, payload) := by
  have hlen : (hdr.serialize ++ payload).length ≤ MAX_PACKET_SIZE := by
    rw [List.length_append, PacketHeader.length_serialize]
    simp only [MAX_PAYLOAD_SIZE, MAX_PACKET_SIZE, PacketHeader.SIZE] at h ⊢
    omega
  rw [packet, List.take_of_length_le hlen, PacketHeader.deserialize_serialize_append,
    PacketHeader.drop_serialize_append, Option.map_some]

theorem receiveOne_eq (P : Platform) (impl : Impl) (a : Arrival) :
    receiveOne P impl a =
      match packet a.bytes with
      | none => some (impl, [])
      | some (hdr, payload) => processPacket P a.env impl a.sender hdr payload := by
  have hshort : ∀ l : Bytes, l.length < PacketHeader.SIZE → PacketHeader.deserialize l = none := by
    intro l hl
    rcases l with _ | ⟨_, _ | ⟨_, _ | ⟨_, _ | ⟨_, _ | ⟨_, _ | ⟨_, _ | ⟨_, _ | ⟨_, _ | ⟨_, _ | ⟨_,
      _ | ⟨_, _ | ⟨_, _ | ⟨_, _ | ⟨_, _ | ⟨_, _ | ⟨_, _⟩⟩⟩⟩⟩⟩⟩⟩⟩⟩⟩⟩⟩⟩⟩⟩ <;>
      first
      | rfl
      | (simp only [List.length_cons, PacketHeader.SIZE] at hl; omega)
  rw [receiveOne, packet]
  split_ifs with h
  · rw [hshort _ h, Option.map_none]
  · cases PacketHeader.deserialize (a.bytes.take MAX_PACKET_SIZE) <;> rfl

/-- What a connection hands to the network: packets and fragments of messages that `known` admits,
with the acknowledgement of their channel, and packets without payload. -/
inductive Emits (x : Connection) (known : Fin 4 → Message → Prop) : Datagram → Prop
  | user {ch channel sequence data} (hch : channel.receiver = (x.channels ch).receiver)
      (hknown : known ch (sequence, data, false)) (hlen : data.length ≤ MAX_PAYLOAD_SIZE) :
      Emits x known
        ⟨x.address, (userHeader ch channel sequence data.length).serialize ++ data⟩
  | fragment {ch channel sequence data i n frag}
      (hch : channel.receiver = (x.channels ch).receiver)
      (hknown : known ch (sequence, data, true)) (hlen : frag.length ≤ MAX_PAYLOAD_SIZE) :
      Emits x known
        ⟨x.address, (fragmentHeader ch channel sequence i n frag.length).serialize ++ frag⟩
  | control (type : PacketType) (ack : UInt16) (ackBits : UInt32) :
      Emits x known ⟨x.address, (controlHeader type ack ackBits).serialize ++ []⟩

theorem Emits.of_alike {conn conn' : Connection} {known known' : Fin 4 → Message → Prop}
    {d : Datagram} (h : Emits conn' known' d) (ha : Alike conn conn')
    (hk : ∀ ch m, known' ch m → known ch m) : Emits conn known d := by
  cases h with
  | user hch hknown hlen =>
    rw [ha.address]
    exact .user (hch.trans (ha.receiver _)) (hk _ _ hknown) hlen
  | fragment hch hknown hlen =>
    rw [ha.address]
    exact .fragment (hch.trans (ha.receiver _)) (hk _ _ hknown) hlen
  | control type ack ackBits =>
    rw [ha.address]
    exact .control type ack ackBits

theorem sendRaw_eq_some {io : Io} {dest : Address} {hdr : PacketHeader} {payload : Bytes}
    {d : Datagram} (h : sendRaw io dest hdr payload = some d) :
    d = ⟨dest, hdr.serialize ++ payload⟩ ∧ payload.length ≤ MAX_PAYLOAD_SIZE := by
  rw [sendRaw] at h
  split_ifs at h with _ hlen
  · cases h
    refine ⟨rfl, ?_⟩
    simp only [MAX_PAYLOAD_SIZE]
    omega

theorem mem_toList_sendRaw {io : Io} {dest : Address} {hdr : PacketHeader} {payload : Bytes}
    {d : Datagram} (h : d ∈ (sendRaw io dest hdr payload).toList) :
    d = ⟨dest, hdr.serialize ++ payload⟩ ∧ payload.length ≤ MAX_PAYLOAD_SIZE :=
  sendRaw_eq_some (Option.mem_toList.mp h)

/-! ### Sending -/

theorem sendFragments_spec (io : Io) (r : PacketReliability) (base : UInt16) (data : Bytes)
    (is : List Nat) (conn : Connection) (known : Fin 4 → Message → Prop)
    (hknown : known r.index (base, data, true)) :
    Alike conn (sendFragments io r base data is conn).1 ∧
      (sendFragments io r base data is conn).1.state = conn.state ∧
      ∀ d ∈ (sendFragments io r base data is conn).2.1, Emits conn known d := by
  induction is generalizing conn with
  | nil => exact ⟨Alike.rfl, rfl, fun d hd => by cases hd⟩
  | cons i is ih =>
    -- the connection after the bandwidth check, whether or not there was one
    obtain ⟨conn₁, ok, hcheck, h₁, hs₁⟩ : ∃ conn₁ ok,
        (if r.isReliable then (conn, true)
          else checkAndConsumeBandwidth io conn r.index (PacketHeader.SIZE + MAX_PAYLOAD_SIZE)) =
          (conn₁, ok) ∧ Alike conn conn₁ ∧ conn₁.state = conn.state := by
      split_ifs
      · exact ⟨conn, true, rfl, Alike.rfl, rfl⟩
      · exact ⟨_, _, rfl, checkAndConsumeBandwidth_alike io conn _ _,
          checkAndConsumeBandwidth_state io conn _ _⟩
    have h₂ : Alike conn { conn₁ with lastSendTime := io.now } := ⟨h₁.address, h₁.view⟩
    rw [sendFragments, hcheck]
    dsimp only
    split_ifs with hok
    · exact ⟨h₁, hs₁, fun d hd => by cases hd⟩
    · cases hraw : sendRaw io conn₁.address (fragmentHeader r.index (conn₁.channels r.index) base i
        (numFragments data) (fragmentOf data i).length) (fragmentOf data i) with
      | none => exact ⟨h₂, hs₁, fun d hd => by cases hd⟩
      | some d =>
        obtain ⟨ha, hs, hd⟩ := ih { conn₁ with lastSendTime := io.now }
        obtain ⟨rfl, hlen⟩ := sendRaw_eq_some hraw
        refine ⟨h₂.trans ha, hs.trans hs₁, fun d hd' => ?_⟩
        rcases List.mem_cons.mp hd' with rfl | hd'
        · rw [h₁.address]
          exact .fragment (h₁.receiver _) hknown hlen
        · exact (hd d hd').of_alike h₂ fun _ _ h => h

/-- Whether `send_to_connection` takes a message of this length at all. -/
def Sendable (data : Bytes) : Prop := data.length ≤ MAX_PAYLOAD_SIZE ∨ numFragments data ≤ 255

/-- A channel that has taken a message. -/
def ChannelView.send (view : ChannelView) (data : Bytes) (r : PacketReliability) : ChannelView :=
  { view with
    localSeq := view.localSeq + 1
    pending := if r.isReliable then
        view.pending ++ [(view.localSeq, data, decide (MAX_PAYLOAD_SIZE < data.length))]
      else view.pending }

/-- What `send_to_connection` does to a connection that is not Disconnecting. -/
structure Sent (conn : Connection) (data : Bytes) (r : PacketReliability) (conn' : Connection)
    (ds : List Datagram) : Prop where
  address : conn'.address = conn.address
  state : conn'.state = conn.state
  self : Sendable data → (conn'.channels r.index).view = (conn.channels r.index).view.send data r
  other : ∀ c ≠ r.index, (conn'.channels c).view = (conn.channels c).view
  emits : ∀ d ∈ ds, Emits conn (fun c m => c = r.index ∧
    m = ((conn.channels r.index).localSeq, data, decide (MAX_PAYLOAD_SIZE < data.length))) d

/-- A connection that was given the view of a sent message, and then changed no further. -/
theorem Sent.of_alike {conn conn₁ conn' : Connection} {data : Bytes} {r : PacketReliability}
    {ds : List Datagram} (h : Sent conn data r conn₁ []) (ha : Alike conn₁ conn')
    (hs : conn'.state = conn₁.state)
    (hd : ∀ d ∈ ds, Emits conn (fun c m => c = r.index ∧
      m = ((conn.channels r.index).localSeq, data, decide (MAX_PAYLOAD_SIZE < data.length))) d) :
    Sent conn data r conn' ds where
  address := ha.address.trans h.address
  state := hs.trans h.state
  self hsend := (ha.view _).trans (h.self hsend)
  other c hc := (ha.view c).trans (h.other c hc)
  emits := hd

/-- Giving out a sequence number, and keeping the message if the channel is reliable. -/
theorem sent_setChannel {conn : Connection} {data : Bytes} {r : PacketReliability}
    {channel : Channel} (h : channel.view = (conn.channels r.index).view.send data r) :
    Sent conn data r (conn.setChannel r.index channel) [] where
  address := rfl
  state := rfl
  self _ := by rw [Connection.channels_setChannel_self, h]
  other c hc := by rw [Connection.channels_setChannel_ne _ _ _ hc]
  emits d hd := by cases hd

theorem receiver_setChannel_of_eq {conn : Connection} {ch : Fin 4} {channel : Channel}
    (h : channel.receiver = (conn.channels ch).receiver) (c : Fin 4) :
    ((conn.setChannel ch channel).channels c).receiver = (conn.channels c).receiver := by
  rw [Connection.channels_setChannel]
  split_ifs with hc
  · rw [hc, h]
  · rfl

/-- The fragments of a message that was given the number `localSeq`. -/
theorem sent_fragments (io : Io) {conn : Connection} {data : Bytes} {r : PacketReliability}
    {channel : Channel} (hlong : MAX_PAYLOAD_SIZE < data.length)
    (h : channel.view = (conn.channels r.index).view.send data r) (is : List Nat) :
    Sent conn data r
      (sendFragments io r (conn.channels r.index).localSeq data is
        (conn.setChannel r.index channel)).1
      (sendFragments io r (conn.channels r.index).localSeq data is
        (conn.setChannel r.index channel)).2.1 := by
  have hrecv : channel.receiver = (conn.channels r.index).receiver :=
    congrArg ChannelView.receiver h
  obtain ⟨ha, hs, hd⟩ := sendFragments_spec io r (conn.channels r.index).localSeq data is
    (conn.setChannel r.index channel)
    (fun c m => c = r.index ∧ m = ((conn.channels r.index).localSeq, data, true)) ⟨rfl, rfl⟩
  refine (sent_setChannel h).of_alike ha hs fun d hd' => ?_
  rw [decide_eq_true hlong]
  cases hd d hd' with
  | user hch hknown hlen => exact absurd hknown.2 (by simp)
  | fragment hch hknown hlen =>
    exact Emits.fragment (x := conn) (hch.trans (receiver_setChannel_of_eq hrecv _)) hknown hlen
  | control type ack ackBits => exact Emits.control (x := conn) type ack ackBits

theorem sendToConnection_spec (io : Io) {conn : Connection} (data : Bytes) (r : PacketReliability)
    (priority : UInt8) (hst : conn.state ≠ .disconnecting) :
    Sent conn data r (sendToConnection io conn data r priority).1
      (sendToConnection io conn data r priority).2.1 := by
  have hstate : ¬(conn.state ≠ .connected ∧ conn.state ≠ .connecting) := by
    rintro ⟨h, h'⟩
    cases hc : conn.state <;> simp_all
  rw [sendToConnection, if_neg hstate]
  dsimp only
  by_cases hlen : data.length ≤ MAX_PAYLOAD_SIZE
  · have hshort : decide (MAX_PAYLOAD_SIZE < data.length) = false := by simpa using hlen
    rw [if_pos hlen]
    by_cases hrel : r.isReliable = true
    · rw [if_pos hrel]
      refine (sent_setChannel ?_).of_alike ⟨rfl, fun _ => rfl⟩ rfl fun d hd => ?_
      · simp [Channel.view, ChannelView.send, hrel, hshort, Pending.message, Channel.receiver]
      · obtain ⟨rfl, -⟩ := mem_toList_sendRaw hd
        exact Emits.user (x := conn) rfl ⟨rfl, by rw [hshort]⟩ hlen
    · rw [if_neg hrel]
      have base : Sent conn data r (conn.setChannel r.index
          { conn.channels r.index with localSeq := (conn.channels r.index).localSeq + 1 }) [] :=
        sent_setChannel (by simp [Channel.view, ChannelView.send, hrel, Channel.receiver])
      have ha := checkAndConsumeBandwidth_alike io (conn.setChannel r.index
        { conn.channels r.index with localSeq := (conn.channels r.index).localSeq + 1 }) r.index
        (PacketHeader.SIZE + data.length)
      have hs := checkAndConsumeBandwidth_state io (conn.setChannel r.index
        { conn.channels r.index with localSeq := (conn.channels r.index).localSeq + 1 }) r.index
        (PacketHeader.SIZE + data.length)
      split_ifs with hok
      · exact base.of_alike ha hs fun d hd => by cases hd
      · refine base.of_alike ⟨ha.address, ha.view⟩ hs fun d hd => ?_
        obtain ⟨rfl, -⟩ := mem_toList_sendRaw hd
        rw [ha.address]
        exact Emits.user (x := conn) rfl ⟨rfl, by rw [hshort]⟩ hlen
  · have hlong : MAX_PAYLOAD_SIZE < data.length := not_le.mp hlen
    rw [if_neg hlen]
    by_cases hbig : numFragments data > 255
    · rw [if_pos hbig]
      refine ⟨rfl, rfl, fun h => ?_, fun _ _ => rfl, fun d hd => by cases hd⟩
      exact absurd h (by simp only [Sendable]; omega)
    · rw [if_neg hbig]
      refine sent_fragments io hlong ?_ _
      by_cases hrel : r.isReliable = true <;>
        simp [Channel.view, ChannelView.send, hrel, hlong, Pending.message, Channel.receiver]

end CampelloNet.Transport.Udp
