import CampelloNet.Transport.Udp.PollSpec

/-!
# What each public call does to the connection with one address

The lemmas of the previous modules lifted to a whole transport. A transport's channel to an address
is `Impl.view`; to an address it has no connection with, it is the view of a new connection.
Connections have distinct addresses in every transport (`Distinct`), so that looking one up after a
loop over all of them finds what the loop made of it.
-/

namespace CampelloNet.Transport.Udp

open Lib

/-! ### Connections by address -/

def Impl.conn (impl : Impl) (addr : Address) : Connection :=
  (findConnection impl addr).getD { address := addr }

def Impl.view (impl : Impl) (addr : Address) (ch : Fin 4) : ChannelView :=
  ((impl.conn addr).channels ch).view

def Impl.Distinct (impl : Impl) : Prop := (impl.connections.map Connection.address).Nodup

theorem Impl.conn_of_find {impl : Impl} {addr : Address} {x : Connection}
    (h : findConnection impl addr = some x) : impl.conn addr = x := by
  rw [Impl.conn, h, Option.getD_some]

theorem getOrCreateConnection_address (impl : Impl) (now : Time) (addr : Address) :
    (getOrCreateConnection impl now addr).address = addr := by
  rw [getOrCreateConnection]
  cases h : findConnection impl addr with
  | none => rfl
  | some conn => exact lookup_key h

theorem getOrCreateConnection_channels (impl : Impl) (now : Time) (addr : Address) :
    (getOrCreateConnection impl now addr).channels = (impl.conn addr).channels := by
  rw [getOrCreateConnection, Impl.conn]
  cases findConnection impl addr <;> rfl

theorem findConnection_putConnection_self (impl : Impl) {conn : Connection} {addr : Address}
    (h : conn.address = addr) : findConnection (putConnection impl conn) addr = some conn := by
  subst h
  exact lookup_upsert_self conn impl.connections

theorem findConnection_putConnection_ne (impl : Impl) {conn : Connection} {addr : Address}
    (h : conn.address ≠ addr) :
    findConnection (putConnection impl conn) addr = findConnection impl addr :=
  lookup_upsert_ne conn impl.connections h

theorem Impl.Distinct.putConnection {impl : Impl} (h : impl.Distinct) (conn : Connection) :
    (putConnection impl conn).Distinct :=
  nodup_map_key_upsert conn h

/-! ### The gate -/

/-- The gate of `process_packet` on the receiver's half of a channel. -/
def Receiver.accept (receiver : Receiver) (hdr : PacketHeader) (payload : Bytes) : Receiver × Bool :=
  let (channel, deliver) := acceptPacket
    { remoteSeq := receiver.remoteSeq, ackBits := receiver.ackBits,
      receiveBuffer := receiver.receiveBuffer } hdr payload
  (channel.receiver, deliver)

theorem acceptPacket_eq (channel : Channel) (hdr : PacketHeader) (payload : Bytes) :
    (acceptPacket channel hdr payload).1.view =
        { channel.view with receiver := (channel.receiver.accept hdr payload).1 } ∧
      (acceptPacket channel hdr payload).2 = (channel.receiver.accept hdr payload).2 := by
  rw [Receiver.accept, acceptPacket, acceptPacket]
  cases hdr.reliability with
  | unreliable => exact ⟨rfl, rfl⟩
  | reliableUnordered => exact ⟨rfl, rfl⟩
  | reliableOrdered =>
    by_cases heq : hdr.sequence = channel.remoteSeq + 1
    · simp [heq, Channel.receiver, Channel.view]
    · by_cases hgt : hdr.sequence > channel.remoteSeq + 1
      · by_cases hbuf : hdr.fragCount ≤ 1 ∧ ∀ p ∈ channel.receiveBuffer, p.sequence ≠ hdr.sequence
        · have hnew : ∀ p ∈ channel.receiveBuffer, ¬p.sequence = hdr.sequence := hbuf.2
          simp [heq, hgt, hbuf.1, eq_true hnew, Channel.receiver, Channel.view]
        · simp [heq, hgt, hbuf, Channel.receiver, Channel.view]
      · simp [heq, hgt, Channel.receiver, Channel.view]
  | unreliableSequenced =>
    by_cases hle : hdr.sequence ≤ channel.remoteSeq <;>
      simp [hle, Channel.receiver, Channel.view]

theorem acceptPacket_pending (channel : Channel) (hdr : PacketHeader) (payload : Bytes) :
    (acceptPacket channel hdr payload).1.pending = channel.pending := by
  simp only [acceptPacket]
  cases hdr.reliability with
  | unreliable => rfl
  | reliableUnordered => rfl
  | reliableOrdered =>
    dsimp only
    split_ifs <;> rfl
  | unreliableSequenced =>
    dsimp only
    split_ifs <;> rfl

/-! ### One packet -/

/-- `process_payload` works on the receive queue and the reassembly table only. -/
theorem processPayload_frame {P : Platform} {now : Time} {impl impl' : Impl} {addr : Address}
    {hdr : PacketHeader} {payload : Bytes}
    (h : processPayload P now impl addr hdr payload = some impl') :
    impl'.connections = impl.connections ∧ impl'.mode = impl.mode ∧
      impl'.socketOpen = impl.socketOpen := by
  rw [processPayload] at h
  by_cases hcount : hdr.fragCount > 1
  · rw [if_pos hcount] at h
    dsimp only at h
    by_cases hindex : hdr.fragIndex = 0
    · rw [if_pos hindex] at h
      cases h
    · rw [if_neg hindex] at h
      split at h
      · cases h
      · cases h
        exact ⟨rfl, rfl, rfl⟩
      · split at h <;> cases h <;> exact ⟨rfl, rfl, rfl⟩
  · rw [if_neg hcount] at h
    cases h
    exact ⟨rfl, rfl, rfl⟩

theorem processPayload_whole {P : Platform} {now : Time} {impl : Impl} {addr : Address}
    {hdr : PacketHeader} {payload : Bytes} (h : hdr.fragCount = 0) :
    processPayload P now impl addr hdr payload = some (pushReceive impl addr payload) := by
  rw [processPayload, if_neg (by rw [h]; decide)]

theorem ackedConnection_address (env : Env) (impl : Impl) (sender : Address) (hdr : PacketHeader) :
    (ackedConnection env impl sender hdr).address = sender := by
  rw [ackedConnection, processAcks_address]
  exact getOrCreateConnection_address impl env.now sender

theorem ackedConnection_channels_ne (env : Env) (impl : Impl) (sender : Address)
    (hdr : PacketHeader) {c : Fin 4} (h : c ≠ hdr.channel) :
    (ackedConnection env impl sender hdr).channels c = (impl.conn sender).channels c := by
  rw [ackedConnection, processAcks_channels_ne _ _ _ _ h]
  exact congrFun (getOrCreateConnection_channels impl env.now sender) c

theorem ackedConnection_channels_self (env : Env) (impl : Impl) (sender : Address)
    (hdr : PacketHeader) (h : (PacketReliability.ofIndex hdr.channel).isReliable = true) :
    (ackedConnection env impl sender hdr).channels hdr.channel =
      { (impl.conn sender).channels hdr.channel with
        pending := ((impl.conn sender).channels hdr.channel).pending.filter fun p =>
          !isAcked p.sequence hdr.ack hdr.ackBits } := by
  rw [ackedConnection, processAcks_channels_self _ _ _ _ h]
  dsimp only
  rw [getOrCreateConnection_channels]

/-- A packet changes nothing of the connections with others, and of the connection with its sender
only the channel it names; all it can be answered with is a packet without payload. -/
structure Received (impl : Impl) (sender : Address) (hdr : PacketHeader) (impl' : Impl)
    (ds : List Datagram) : Prop where
  other : ∀ a, a ≠ sender → findConnection impl' a = findConnection impl a
  channel : ∀ c, c ≠ hdr.channel →
    (impl'.conn sender).channels c = (impl.conn sender).channels c
  alive : (findConnection impl sender).isSome → (findConnection impl' sender).isSome
  distinct : impl.Distinct → impl'.Distinct
  mode : impl'.mode = impl.mode
  socketOpen : impl'.socketOpen = impl.socketOpen
  replies : ∀ d ∈ ds, ∃ type ack ackBits,
    d = ⟨sender, (controlHeader type ack ackBits).serialize ++ []⟩

/-- Writing back the sender's connection with one channel changed. -/
theorem received_putConnection {impl : Impl} {sender : Address} {hdr : PacketHeader}
    {x : Connection} (haddr : x.address = sender)
    (hch : ∀ c, c ≠ hdr.channel → x.channels c = (impl.conn sender).channels c)
    {ds : List Datagram} (hds : ∀ d ∈ ds, ∃ type ack ackBits,
      d = ⟨sender, (controlHeader type ack ackBits).serialize ++ []⟩) :
    Received impl sender hdr (putConnection impl x) ds where
  other a ha := findConnection_putConnection_ne impl (by rw [haddr]; exact Ne.symm ha)
  channel c hc := by
    rw [Impl.conn_of_find (findConnection_putConnection_self impl haddr), hch c hc]
  alive _ := by rw [findConnection_putConnection_self impl haddr]; rfl
  distinct h := h.putConnection x
  mode := rfl
  socketOpen := rfl
  replies := hds

theorem Received.of_connections {impl impl' impl'' : Impl} {sender : Address} {hdr : PacketHeader}
    {ds : List Datagram} (h : Received impl sender hdr impl' ds)
    (hc : impl''.connections = impl'.connections) (hm : impl''.mode = impl'.mode)
    (hs : impl''.socketOpen = impl'.socketOpen) : Received impl sender hdr impl'' ds := by
  have hfind : ∀ a, findConnection impl'' a = findConnection impl' a := fun a => by
    rw [findConnection, hc, findConnection]
  refine ⟨fun a ha => (hfind a).trans (h.other a ha), fun c hc' => ?_, fun halive => ?_,
    fun hd => ?_, hm.trans h.mode, hs.trans h.socketOpen, h.replies⟩
  · rw [Impl.conn, hfind sender]
    exact h.channel c hc'
  · rw [hfind sender]
    exact h.alive halive
  · rw [Impl.Distinct, hc]
    exact h.distinct hd

/-- What `process_packet` can do with a packet of this protocol: a control packet sets the state of
the connection, any other goes through the gate of its channel. -/
theorem processPacket_cases {P : Platform} {env : Env} {impl impl' : Impl} {sender : Address}
    {hdr : PacketHeader} {payload : Bytes} {ds : List Datagram}
    (h : processPacket P env impl sender hdr payload = some (impl', ds))
    (hid : hdr.protocolId = PacketHeader.PROTOCOL_ID) :
    (∃ conn, conn.address = sender ∧ conn.channels = (ackedConnection env impl sender hdr).channels ∧
      impl' = putConnection impl conn ∧
      ∀ d ∈ ds, d = ⟨sender, (controlHeader .handshake 0 0).serialize ++ []⟩) ∨
    (ds = [] ∧ ∃ channel deliver impl₁,
      acceptPacket ((ackedConnection env impl sender hdr).channels hdr.channel) hdr payload =
        (channel, deliver) ∧
      impl₁ = putConnection impl
        ((ackedConnection env impl sender hdr).setChannel hdr.channel channel) ∧
      (deliver = true ∧ processPayload P env.now impl₁ sender hdr payload = some impl' ∨
        deliver = false ∧ impl' = impl₁)) := by
  have haddr := ackedConnection_address env impl sender hdr
  rw [processPacket, if_neg (not_not.mpr hid)] at h
  dsimp only at h
  by_cases hhand : hdr.packetType = PacketType.handshake.toUInt8
  · rw [if_pos hhand] at h
    cases h
    refine .inl ⟨_, ?_, ?_, rfl, fun d hd => (mem_toList_sendRaw hd).1⟩
    · split <;> exact haddr
    · split <;> rfl
  · rw [if_neg hhand] at h
    by_cases hdisc : hdr.packetType = PacketType.disconnect.toUInt8
    · rw [if_pos hdisc] at h
      cases h
      exact .inl ⟨{ ackedConnection env impl sender hdr with state := .disconnecting }, haddr, rfl,
        rfl, fun d hd => by cases hd⟩
    · rw [if_neg hdisc] at h
      by_cases hack : hdr.packetType = PacketType.ack.toUInt8
      · rw [if_pos hack] at h
        cases h
        exact .inl ⟨_, haddr, rfl, rfl, fun d hd => by cases hd⟩
      · rw [if_neg hack] at h
        rcases hacc : acceptPacket ((ackedConnection env impl sender hdr).channels hdr.channel) hdr
          payload with ⟨channel, deliver⟩
        rw [hacc] at h
        cases deliver with
        | true =>
          obtain ⟨impl₁, hpay, heq⟩ := Option.map_eq_some_iff.mp h
          cases heq
          exact .inr ⟨rfl, channel, true, _, rfl, rfl, .inl ⟨rfl, hpay⟩⟩
        | false =>
          cases h
          exact .inr ⟨rfl, channel, false, _, rfl, rfl, .inr ⟨rfl, rfl⟩⟩

theorem processPacket_frame {P : Platform} {env : Env} {impl impl' : Impl} {sender : Address}
    {hdr : PacketHeader} {payload : Bytes} {ds : List Datagram}
    (h : processPacket P env impl sender hdr payload = some (impl', ds)) :
    Received impl sender hdr impl' ds := by
  have haddr := ackedConnection_address env impl sender hdr
  have hch := fun c hc => ackedConnection_channels_ne env impl sender hdr (c := c) hc
  by_cases hid : hdr.protocolId = PacketHeader.PROTOCOL_ID
  · obtain ⟨conn, hconn, hchan, rfl, hds⟩ | ⟨rfl, channel, deliver, impl₁, -, rfl, hdel⟩ :=
      processPacket_cases h hid
    · refine received_putConnection hconn (fun c hc => ?_) fun d hd => ⟨_, _, _, hds d hd⟩
      rw [hchan, hch c hc]
    · have hput : Received impl sender hdr (putConnection impl
          ((ackedConnection env impl sender hdr).setChannel hdr.channel channel)) [] := by
        refine received_putConnection (x := (ackedConnection env impl sender hdr).setChannel
          hdr.channel channel) haddr (fun c hc => ?_) fun d hd => absurd hd List.not_mem_nil
        rw [Connection.channels_setChannel_ne _ _ _ hc, hch c hc]
      rcases hdel with ⟨-, hpay⟩ | ⟨-, rfl⟩
      · obtain ⟨hc, hm, hs⟩ := processPayload_frame hpay
        exact hput.of_connections hc hm hs
      · exact hput
  · rw [processPacket, if_pos hid] at h
    cases h
    exact ⟨fun _ _ => rfl, fun _ _ => rfl, id, id, rfl, rfl, fun d hd => by cases hd⟩

/-- What a packet of a reliable channel leaves pending on it, whatever its type. -/
theorem processPacket_pending {P : Platform} {env : Env} {impl impl' : Impl} {sender : Address}
    {hdr : PacketHeader} {payload : Bytes} {ds : List Datagram}
    (h : processPacket P env impl sender hdr payload = some (impl', ds))
    (hid : hdr.protocolId = PacketHeader.PROTOCOL_ID)
    (hrel : (PacketReliability.ofIndex hdr.channel).isReliable = true) :
    ((impl'.conn sender).channels hdr.channel).pending =
      ((impl.conn sender).channels hdr.channel).pending.filter fun p =>
        !isAcked p.sequence hdr.ack hdr.ackBits := by
  have haddr := ackedConnection_address env impl sender hdr
  have hself := congrArg Channel.pending (ackedConnection_channels_self env impl sender hdr hrel)
  obtain ⟨conn, hconn, hchan, rfl, -⟩ | ⟨-, channel, deliver, impl₁, hacc, rfl, hdel⟩ :=
    processPacket_cases h hid
  · rw [Impl.conn_of_find (findConnection_putConnection_self impl hconn), hchan]
    exact hself
  · have hpend : channel.pending =
        ((ackedConnection env impl sender hdr).channels hdr.channel).pending := by
      have := acceptPacket_pending ((ackedConnection env impl sender hdr).channels hdr.channel) hdr
        payload
      rwa [hacc] at this
    have hput : ((((putConnection impl ((ackedConnection env impl sender hdr).setChannel hdr.channel
        channel)).conn sender).channels hdr.channel).pending) =
        ((impl.conn sender).channels hdr.channel).pending.filter fun p =>
          !isAcked p.sequence hdr.ack hdr.ackBits := by
      rw [Impl.conn_of_find (x := (ackedConnection env impl sender hdr).setChannel hdr.channel
        channel) (findConnection_putConnection_self impl haddr),
        Connection.channels_setChannel_self, hpend, hself]
    rcases hdel with ⟨-, hpay⟩ | ⟨-, rfl⟩
    · rw [Impl.conn, findConnection, (processPayload_frame hpay).1]
      exact hput
    · exact hput

/-- A packet that is no control packet goes through the gate of its channel. -/
theorem processPacket_data (P : Platform) (env : Env) (impl : Impl) (sender : Address)
    {hdr : PacketHeader} (payload : Bytes) (hid : hdr.protocolId = PacketHeader.PROTOCOL_ID)
    {type : PacketType} (htype : hdr.packetType = type.toUInt8)
    (hdata : type = .user ∨ type = .fragment) :
    processPacket P env impl sender hdr payload =
      let conn := ackedConnection env impl sender hdr
      let accepted := acceptPacket (conn.channels hdr.channel) hdr payload
      let impl := putConnection impl (conn.setChannel hdr.channel accepted.1)
      if accepted.2 then
        (processPayload P env.now impl sender hdr payload).map fun impl => (impl, [])
      else some (impl, []) := by
  have hne : ∀ other : PacketType, other ≠ .user → other ≠ .fragment →
      hdr.packetType ≠ other.toUInt8 := by
    intro other h h'
    rw [htype]
    rcases hdata with rfl | rfl <;> cases other <;> first | contradiction | decide
  rw [processPacket, if_neg (not_not.mpr hid)]
  dsimp only
  rw [if_neg (hne _ (by decide) (by decide)), if_neg (hne _ (by decide) (by decide)),
    if_neg (hne _ (by decide) (by decide))]

/-- What such a packet of a reliable channel makes of the connection it came on. -/
theorem view_putConnection_accept (env : Env) (impl : Impl) (sender : Address)
    {hdr : PacketHeader} (payload : Bytes)
    (hrel : (PacketReliability.ofIndex hdr.channel).isReliable = true) :
    (putConnection impl ((ackedConnection env impl sender hdr).setChannel hdr.channel
      (acceptPacket ((ackedConnection env impl sender hdr).channels hdr.channel) hdr payload).1)).view
        sender hdr.channel =
      { (impl.view sender hdr.channel).ack hdr.ack hdr.ackBits with
        receiver := ((impl.view sender hdr.channel).receiver.accept hdr payload).1 } ∧
    (acceptPacket ((ackedConnection env impl sender hdr).channels hdr.channel) hdr payload).2 =
      ((impl.view sender hdr.channel).receiver.accept hdr payload).2 := by
  have haddr := ackedConnection_address env impl sender hdr
  have hview : ((ackedConnection env impl sender hdr).channels hdr.channel).view =
      (impl.view sender hdr.channel).ack hdr.ack hdr.ackBits := by
    rw [ackedConnection_channels_self env impl sender hdr hrel]
    simp [Impl.view, Channel.view, ChannelView.ack, Channel.receiver, List.filter_map,
      Function.comp_def, Pending.message]
  obtain ⟨hacc, hdel⟩ := acceptPacket_eq ((ackedConnection env impl sender hdr).channels hdr.channel)
    hdr payload
  have hrecv : ((ackedConnection env impl sender hdr).channels hdr.channel).receiver =
      (impl.view sender hdr.channel).receiver := congrArg ChannelView.receiver hview
  rw [hrecv] at hacc hdel
  rw [hview] at hacc
  refine ⟨?_, hdel⟩
  rw [Impl.view, Impl.conn_of_find (x := (ackedConnection env impl sender hdr).setChannel
    hdr.channel (acceptPacket ((ackedConnection env impl sender hdr).channels hdr.channel) hdr
    payload).1) (findConnection_putConnection_self impl haddr),
    Connection.channels_setChannel_self, hacc]

/-- An unfragmented user packet of a reliable channel. -/
theorem processPacket_user (P : Platform) (env : Env) (impl : Impl) (sender : Address)
    {hdr : PacketHeader} (payload : Bytes) (hid : hdr.protocolId = PacketHeader.PROTOCOL_ID)
    (htype : hdr.packetType = PacketType.user.toUInt8) (hfrag : hdr.fragCount = 0)
    (hrel : (PacketReliability.ofIndex hdr.channel).isReliable = true) :
    ∃ impl', processPacket P env impl sender hdr payload = some (impl', []) ∧
      impl'.view sender hdr.channel =
        { (impl.view sender hdr.channel).ack hdr.ack hdr.ackBits with
          receiver := ((impl.view sender hdr.channel).receiver.accept hdr payload).1 } ∧
      impl'.receiveQueue = impl.receiveQueue ++
        if ((impl.view sender hdr.channel).receiver.accept hdr payload).2 then [⟨sender, payload⟩]
        else [] := by
  obtain ⟨hview, hdel⟩ := view_putConnection_accept env impl sender payload hrel
  rw [processPacket_data P env impl sender payload hid htype (.inl rfl)]
  dsimp only
  rw [hdel]
  split_ifs with hd
  · rw [processPayload_whole hfrag, Option.map_some]
    exact ⟨_, rfl, hview, rfl⟩
  · exact ⟨_, rfl, hview, (List.append_nil _).symm⟩

end CampelloNet.Transport.Udp
