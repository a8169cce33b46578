import CampelloNet.Transport.Udp.Refinement

/-!
# The UnreliableSequenced channel delivers nothing

The gate of the sequenced channel drops a packet whose number is not above `remote_seq`, which
starts at 65535, and no number is above that. Over any network the receiver stays as it began: what
is delivered is a subsequence of what was sent, the empty one.
-/

namespace CampelloNet.Transport.Udp

open Lib PacketReliability

/-- The gate of the sequenced channel, as it begins and stays. -/
theorem accept_sequenced {channel : Channel} {hdr : PacketHeader} (payload : Bytes)
    (hseq : channel.remoteSeq = 0xFFFF) (hrel : hdr.reliability = unreliableSequenced) :
    acceptPacket channel hdr payload = (channel, false) := by
  have hle : hdr.sequence ≤ channel.remoteSeq := by
    rw [hseq]
    exact UInt16.le_iff_toNat_le.mpr (Nat.le_of_lt_succ hdr.sequence.toNat_lt)
  unfold acceptPacket
  rw [hrel]
  exact if_pos hle

theorem ackedConnection_remoteSeq (env : Env) (impl : Impl) (sender : Address) (hdr : PacketHeader)
    (c : Fin 4) : ((ackedConnection env impl sender hdr).channels c).remoteSeq =
      ((impl.conn sender).channels c).remoteSeq := by
  by_cases hc : c = hdr.channel
  · subst hc
    by_cases hrel : (PacketReliability.ofIndex hdr.channel).isReliable = true
    · rw [ackedConnection_channels_self env impl sender hdr hrel]
    · unfold ackedConnection processAcks
      rw [if_pos (eq_false_of_ne_true hrel), getOrCreateConnection_channels]
  · rw [ackedConnection_channels_ne env impl sender hdr hc]

variable {P : Platform} {addr : End → Address} {w w' : World}

/-- A packet of the channel that says so itself. -/
theorem emits_reliability {conn : Connection} {known : Fin 4 → Message → Prop} {d : Datagram}
    {ch : Fin 4} (h : Emits conn known d) (h0 : ch ≠ 0) {hdr : PacketHeader} {payload : Bytes}
    (hp : packet d.bytes = some (hdr, payload)) (hch : hdr.channel = ch) :
    hdr.reliability = .ofIndex ch := by
  cases h with
  | user _ _ hlen =>
    rw [packet_serialize_append _ hlen] at hp
    cases hp
    rw [channel_userHeader] at hch
    rw [reliability_userHeader, hch]
  | fragment _ _ hlen =>
    rw [packet_serialize_append _ hlen] at hp
    cases hp
    rw [channel_fragmentHeader] at hch
    rw [reliability_fragmentHeader, hch]
  | control type ack ackBits =>
    rw [packet_serialize_append _ (Nat.zero_le _)] at hp
    cases hp
    rw [channel_controlHeader] at hch
    exact absurd hch.symm h0

/-- The sequenced channel between the two ends is as it began. -/
structure Deaf (addr : End → Address) (w : World) : Prop where
  distinct : ∀ e, (w.node e).Distinct
  remoteSeq : ∀ e, (((w.node e).conn (addr e.peer)).channels unreliableSequenced.index).remoteSeq =
    0xFFFF
  queued : ∀ e, w.queued e unreliableSequenced.index = []
  wire : ∀ e d, (e, d) ∈ w.wire → d.dest = addr e.peer → ∀ hdr payload,
    packet d.bytes = some (hdr, payload) → hdr.channel = unreliableSequenced.index →
      hdr.reliability = unreliableSequenced

/-- What a call at end `e` has to leave as it is. -/
theorem Deaf.put (h : Deaf addr w) (e : End) {impl : Impl} {ds : List Datagram}
    {events : List Event} (hdistinct : impl.Distinct)
    (hseq : ((impl.conn (addr e.peer)).channels unreliableSequenced.index).remoteSeq = 0xFFFF)
    (hqueued : ∀ x, queuedIn events x unreliableSequenced.index = [])
    (hwire : ∀ d ∈ ds, d.dest = addr e.peer → ∀ hdr payload,
      packet d.bytes = some (hdr, payload) → hdr.channel = unreliableSequenced.index →
        hdr.reliability = unreliableSequenced) : Deaf addr (w.put e impl ds events) := by
  have ofEnds : ∀ {p : End → Prop}, p e → p e.peer → ∀ x, p x := fun he hp x => by
    rcases End.eq_or_eq_peer e x with rfl | rfl
    · exact he
    · exact hp
  refine ⟨ofEnds ?_ ?_, ofEnds ?_ ?_, fun x => ?_, fun x d hd hdest => ?_⟩
  · rwa [World.node_put_self]
  · rw [World.node_put_peer]
    exact h.distinct e.peer
  · rwa [World.node_put_self]
  · rw [World.node_put_peer]
    exact h.remoteSeq e.peer
  · have hbefore : queuedIn w.log x unreliableSequenced.index = [] := h.queued x
    unfold World.queued World.put
    rw [queuedIn_append, hbefore, hqueued x]
    rfl
  · rcases (World.mem_wire_put w e impl ds events).mp hd with hd | ⟨hx, hds⟩
    · exact h.wire x d hd hdest
    · dsimp only at hx
      subst hx
      exact hwire d hds hdest

theorem Deaf.quiet (h : Deaf addr w) (e : End) {impl : Impl} {ds : List Datagram}
    (hdistinct : impl.Distinct) (hq : Quiet (w.node e) impl (addr e.peer) ds) :
    Deaf addr (w.put e impl ds []) := by
  refine h.put e hdistinct ?_ (fun _ => rfl) ?_
  · have hview := congrArg (fun v => v.receiver.remoteSeq) (hq.view unreliableSequenced.index)
    exact hview.trans (h.remoteSeq e)
  · intro d hd hdest hdr payload hp hch
    exact emits_reliability (hq.emits d hd hdest) (by decide) hp hch

theorem Deaf.send (h : Deaf addr w) (e : End) {out : Impl × List Datagram × Bool} {toPeer : Prop}
    [Decidable toPeer] {data : Bytes} {r : PacketReliability} (hdistinct : out.1.Distinct)
    (hspec : SendSpec (w.node e) out.1 (addr e.peer) data r out.2.1 toPeer)
    (hlen : r.index = unreliableSequenced.index → data.length ≤ MAX_PAYLOAD_SIZE) :
    Deaf addr (w.sent e out toPeer data r) := by
  unfold World.sent
  by_cases hto : toPeer
  · rw [if_pos hto]
    obtain ⟨-, ds, hsent, hds⟩ := hspec.sends hto
    refine h.put e hdistinct ?_ (fun _ => rfl) ?_
    · have hbefore := h.remoteSeq e
      by_cases hr : r.index = unreliableSequenced.index
      · have hview := hsent.self (.inl (hlen hr))
        rw [hr] at hview
        exact (congrArg (fun v => v.receiver.remoteSeq) hview).trans hbefore
      · have hview := hsent.other unreliableSequenced.index (Ne.symm hr)
        exact (congrArg (fun v => v.receiver.remoteSeq) hview).trans hbefore
    · intro d hd hdest hdr payload hp hch
      exact emits_reliability (hsent.emits d (hds d hd hdest)) (by decide) hp hch
  · rw [if_neg hto]
    obtain ⟨hconn, hds⟩ := hspec.quiet hto
    exact h.quiet e hdistinct (.of_conn hconn hds)

/-- A packet of the channel, from the peer, is dropped. -/
theorem processPacket_sequenced {env : Env} {impl impl' : Impl} {sender : Address}
    {hdr : PacketHeader} {payload : Bytes} {ds : List Datagram}
    (h : processPacket P env impl sender hdr payload = some (impl', ds))
    (hch : hdr.channel = unreliableSequenced.index) (hrel : hdr.reliability = unreliableSequenced)
    (hseq : ((impl.conn sender).channels unreliableSequenced.index).remoteSeq = 0xFFFF) :
    ((impl'.conn sender).channels unreliableSequenced.index).remoteSeq = 0xFFFF ∧
      impl'.receiveQueue = impl.receiveQueue := by
  have hacked : ((ackedConnection env impl sender hdr).channels
      unreliableSequenced.index).remoteSeq = 0xFFFF :=
    (ackedConnection_remoteSeq env impl sender hdr _).trans hseq
  have haddr := ackedConnection_address env impl sender hdr
  by_cases hid : hdr.protocolId = PacketHeader.PROTOCOL_ID
  · obtain ⟨conn, hconn, hchan, rfl, -⟩ | ⟨-, channel, deliver, impl₁, hacc, rfl, hdel⟩ :=
      processPacket_cases h hid
    · rw [Impl.conn_of_find (findConnection_putConnection_self impl hconn), hchan]
      exact ⟨hacked, rfl⟩
    · rw [hch, accept_sequenced payload hacked hrel] at hacc
      cases hacc
      obtain ⟨hno, -⟩ | ⟨-, rfl⟩ := hdel
      · cases hno
      · rw [Impl.conn_of_find (x := (ackedConnection env impl sender hdr).setChannel hdr.channel _)
          (findConnection_putConnection_self impl haddr), hch, Connection.channels_setChannel_self]
        exact ⟨hacked, rfl⟩
  · rw [processPacket, if_pos hid] at h
    cases h
    exact ⟨hseq, rfl⟩

/-- One turn of the receive loop. -/
theorem Deaf.receive (h : Deaf addr w) (e : End) {a : Arrival} (hgen : w.Genuine addr e a)
    (hw : w.receive P addr e a = some w') : Deaf addr w' := by
  obtain ⟨⟨impl, ds⟩, hrecv, rfl⟩ := Option.map_eq_some_iff.mp hw
  rw [receiveOne_eq] at hrecv
  unfold World.arrivalEvents
  rcases hp : packet a.bytes with _ | ⟨hdr, payload⟩
  · rw [hp] at hrecv
    cases hrecv
    refine h.put e (h.distinct e) (h.remoteSeq e) (fun x => ?_) fun d hd => absurd hd List.not_mem_nil
    split_ifs <;> rfl
  · rw [hp] at hrecv
    dsimp only at hrecv ⊢
    have hframe := processPacket_frame hrecv
    have hreplies : ∀ d ∈ ds, d.dest = addr e.peer → ∀ hdr' payload',
        packet d.bytes = some (hdr', payload') → hdr'.channel = unreliableSequenced.index →
          hdr'.reliability = unreliableSequenced := by
      intro d hd _ hdr' payload' hp' hch'
      obtain ⟨type, ack, ackBits, rfl⟩ := hframe.replies d hd
      rw [packet_serialize_append _ (Nat.zero_le _)] at hp'
      cases hp'
      exact absurd (hch'.symm.trans (channel_controlHeader type ack ackBits)) (by decide)
    by_cases hs : a.sender = addr e.peer
    · rw [if_pos hs]
      rw [hs] at hrecv hframe ⊢
      by_cases hch : hdr.channel = unreliableSequenced.index
      · have hrel := h.wire e.peer _ (hgen hs) (by rw [End.peer_peer]) hdr payload hp hch
        obtain ⟨hseq, hqueue⟩ := processPacket_sequenced hrecv hch hrel (h.remoteSeq e)
        refine h.put e (hframe.distinct (h.distinct e)) hseq (fun x => ?_) hreplies
        by_cases hx : e = x
        · subst hx
          rw [← hch, queuedIn_packetEvents, hqueue, List.drop_length, List.map_nil]
        · exact (silent_packetEvents e _ _ _ _ _ fun hno => hx hno.1).queued
      · refine h.put e (hframe.distinct (h.distinct e)) ?_ (fun x => ?_) hreplies
        · rw [hframe.channel _ (Ne.symm hch)]
          exact h.remoteSeq e
        · exact (silent_packetEvents e _ _ _ _ _ fun hno => hch hno.2).queued
    · rw [if_neg hs]
      refine h.put e (hframe.distinct (h.distinct e)) ?_ (fun x => rfl) hreplies
      rw [Impl.conn, hframe.other _ (Ne.symm hs)]
      exact h.remoteSeq e

variable {Q : World → End → Arrival → Prop}

theorem Deaf.receiveAll (h : Deaf addr w) (e : End) {arrivals : List Arrival}
    (hq : w.Along P addr (fun w a => w.Genuine addr e a ∧ Q w e a) e arrivals)
    (hw : w.receiveAll P addr e arrivals = some w') : Deaf addr w' := by
  induction arrivals generalizing w with
  | nil =>
    cases hw
    exact h
  | cons a arrivals ih =>
    obtain ⟨⟨hgen, -⟩, hrest⟩ := hq
    obtain ⟨w₁, hw₁, hw⟩ := Option.bind_eq_some_iff.mp hw
    exact ih (h.receive e hgen hw₁) (hrest w₁ hw₁) hw

theorem Deaf.step (h : Deaf addr w) (hsettled : ∀ e, (w.node e).Settled) {call : World.Call}
    (hadm : w.Admissible P addr unreliableSequenced.index Q call)
    (hstep : w.step P addr call = some w') :
    Deaf addr w' ∧ ∀ e, (w'.node e).Settled := by
  have hok : ∀ e, (w.node e).Ok := fun e => ⟨h.distinct e, hsettled e⟩
  have limits : ∀ {e impl}, Limits (w.node e) impl →
      Deaf addr (w.put e impl [] []) ∧ ∀ x, ((w.put e impl [] []).node x).Settled := by
    intro e impl hl
    have hok' := hl.ok (hok e)
    exact ⟨h.quiet e hok'.distinct ⟨hl.view _, fun d hd => absurd hd List.not_mem_nil⟩,
      settled_put hsettled hok'.settled⟩
  cases call with
  | send e env data r =>
    cases hstep
    have hok' := send_ok env data r (hok e)
    exact ⟨h.send e hok'.distinct (send_spec env data r (hok e) (addr e.peer)) hadm,
      settled_put hsettled hok'.settled⟩
  | sendWithPriority e env address data r priority =>
    cases hstep
    have hok' := sendWithPriority_ok env address data r priority (hok e)
    exact ⟨h.send e hok'.distinct
      (sendWithPriority_spec env address data r priority (hok e) (addr e.peer)) hadm,
      settled_put hsettled hok'.settled⟩
  | poll e env t arrivals =>
    rw [World.step] at hstep
    split_ifs at hstep with hsock
    · cases hstep
      exact ⟨h, hsettled⟩
    · obtain ⟨w₁, hw₁, rfl⟩ := Option.map_eq_some_iff.mp hstep
      obtain ⟨hq, halive⟩ := hadm
      have h₁ := h.receiveAll e hq hw₁
      have hfin := finishPoll_ok env t (h₁.distinct e)
      have hquiet := finishPoll_quiet env t (h₁.distinct e) (addr e.peer) fun hf => by
        have := halive w₁ hw₁ hf
        rwa [World.finish, World.node_put_self] at this
      refine ⟨h₁.quiet e hfin.distinct hquiet, fun x => ?_⟩
      rcases End.eq_or_eq_peer e x with rfl | rfl
      · rw [World.finish, World.node_put_self]
        exact hfin.settled
      · rw [World.finish, World.node_put_peer, World.receiveAll_node_peer P addr hw₁]
        exact hsettled e.peer
  | popReceive e maxLength =>
    cases hstep
    have hc := popReceive_connections maxLength (w.node e)
    refine ⟨h.quiet e ?_ (.of_conn ?_ fun d hd => absurd hd List.not_mem_nil),
      settled_put hsettled ?_⟩
    · rw [Impl.Distinct, hc]
      exact h.distinct e
    · rw [Impl.conn, findConnection, hc, Impl.conn, findConnection]
    · rw [Impl.Settled, hc]
      exact hsettled e
  | setConnectionBandwidthLimit e address n =>
    cases hstep
    exact limits (setConnectionBandwidthLimit_limits address n (w.node e))
  | setChannelBandwidthLimit e address r n =>
    cases hstep
    exact limits (setChannelBandwidthLimit_limits address r n (w.node e))

theorem World.Fresh.deaf (h : w.Fresh addr unreliableSequenced.index) : Deaf addr w where
  distinct e := (h.ok e).distinct
  remoteSeq e := congrArg (fun v => v.receiver.remoteSeq) (h.view e)
  queued e := by rw [World.queued, h.log]; rfl
  wire e d hd hdest hdr payload hp hch := absurd hch (h.wire e d hd hdest hdr payload hp)

/-- In every run, what an end has received from its peer on the UnreliableSequenced channel is a
subsequence of what the peer has sent; but it is all of it, over whatever network, only if the peer
has sent nothing. -/
theorem unreliableSequenced_delivery {w₀ : World} (hfresh : w₀.Fresh addr unreliableSequenced.index)
    (hrun : Run (World.step P addr) (World.Admissible P addr unreliableSequenced.index Q) w₀ w)
    (e : End) :
    List.Sublist ((w.queued e.peer unreliableSequenced.index).map Prod.snd)
        (w.handed e unreliableSequenced.index) ∧
      ((w.queued e.peer unreliableSequenced.index).map Prod.snd =
          w.handed e unreliableSequenced.index ↔
        w.handed e unreliableSequenced.index = []) := by
  have hdeaf := (hrun.invariant (I := fun w => Deaf addr w ∧ ∀ e, (w.node e).Settled)
    ⟨hfresh.deaf, fun e => (hfresh.ok e).settled⟩
    fun _ _ _ hI hadm hstep => hI.1.step hI.2 hadm hstep).1
  rw [hdeaf.queued e.peer]
  exact ⟨List.nil_sublist _, eq_comm⟩

/-- One message, whose datagram arrives at once. -/
def oneSequenced : List World.Call :=
  [.send .left (World.goodEnv 1) [7] unreliableSequenced,
    .poll .right (World.goodEnv 1) 1 [World.userArrival .right unreliableSequenced.index {} 0 [7] 1]]

def oneSequencedWorld : World :=
  (Run.exec (World.step World.maskedShift World.localAddr) (World.connected World.localAddr)
    oneSequenced).get (by decide +kernel)

theorem oneSequenced_run : Run (World.step World.maskedShift World.localAddr)
    (World.Admissible World.maskedShift World.localAddr unreliableSequenced.index
      fun _ _ _ => True) (World.connected World.localAddr) oneSequencedWorld :=
  .of_exec oneSequenced (Option.some_get _).symm (by decide +kernel)

theorem unreliableSequenced_delivery_one :
    oneSequencedWorld.handed .left 3 = [[7]] ∧
      ((oneSequencedWorld.queued .right 3).map Prod.snd = oneSequencedWorld.handed .left 3 ↔
        oneSequencedWorld.handed .left 3 = []) :=
  ⟨by decide +kernel, (unreliableSequenced_delivery (World.fresh_connected World.localAddr _)
    oneSequenced_run .left).2⟩

/-- The datagram that was sent arrived, and the message was not delivered. -/
theorem unreliableSequenced_drops :
    oneSequencedWorld.wire.filter (fun x => x.1 = .left) = [(.left, ⟨World.localAddr .right,
        (World.userArrival .right unreliableSequenced.index {} 0 [7] 1).bytes⟩)] ∧
      oneSequencedWorld.handed .left 3 = [[7]] ∧ oneSequencedWorld.queued .right 3 = [] := by
  decide +kernel

end CampelloNet.Transport.Udp
