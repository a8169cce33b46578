import CampelloNet.Transport.Udp.World
import CampelloNet.Lib.Arq

/-!
# A reliable channel is numbered messages over a lossy network

Each direction of a reliable channel between the two ends of a `World` refines the abstract channel
of `Lib.Arq`: `send_to_connection` is a send, the gate of `process_packet` an arrival, `process_acks`
an acknowledgement, and everything else (resends, keepalives, timers, other channels, other
connections) does nothing at all (`refines_run`). The two directions run together, because every
packet of the channel carries a message one way and an acknowledgement the other.
-/

namespace CampelloNet.Transport.Udp

open Lib

/-- The messages of a channel. A frame goes through the gate of `process_packet`, and the word the
receiver shows is what it puts into the header of every packet it sends on the channel. -/
def channelProtocol (ch : Fin 4) : Arq.Protocol UInt16 Bytes Receiver (UInt16 × UInt32) where
  seqOf n := UInt16.ofNat n
  gate receiver sequence data := receiver.accept (userHeader ch {} sequence data.length) data
  word receiver := (receiver.remoteSeq, receiver.ackBits)
  acks w sequence := isAcked sequence w.1 w.2

abbrev Flow := Arq.State UInt16 Bytes Receiver (UInt16 × UInt32)

theorem accept_congr {receiver : Receiver} {hdr hdr' : PacketHeader} {payload : Bytes}
    (hr : hdr.reliability = hdr'.reliability) (hs : hdr.sequence = hdr'.sequence)
    (hf : hdr.fragCount = hdr'.fragCount) :
    receiver.accept hdr payload = receiver.accept hdr' payload := by
  simp only [Receiver.accept, acceptPacket, hr, hs, hf]

/-- A packet of channel `ch` is one of the sender's messages, with an acknowledgement its receiver's
half of the channel has shown. -/
structure Carried (ch : Fin 4) (forth back : Flow) (hdr : PacketHeader) (payload : Bytes) : Prop where
  protocolId : hdr.protocolId = PacketHeader.PROTOCOL_ID
  packetType : hdr.packetType = PacketType.user.toUInt8
  fragCount : hdr.fragCount = 0
  reliability : hdr.reliability = .ofIndex ch
  genuine : Arq.Genuine (channelProtocol ch) forth.sent (hdr.sequence, payload)
  ack : (hdr.ack, hdr.ackBits) ∈ back.words

/-- The world as two flows: `A e` is the messages that end `e` sends its peer on channel `ch`. -/
structure Refines (addr : End → Address) (ch : Fin 4) (w : World) (A : End → Flow) : Prop where
  distinct : ∀ e, (w.node e).Distinct
  sent : ∀ e, (A e).sent = w.handed e ch
  localSeq : ∀ e, ((w.node e).view (addr e.peer) ch).localSeq = UInt16.ofNat (A e).sent.length
  pending : ∀ e, ((w.node e).view (addr e.peer) ch).pending =
    (A e).pending.map fun f => (f.1, f.2, false)
  receiver : ∀ e, ((w.node e).view (addr e.peer) ch).receiver = (A e.peer).receiver
  delivered : ∀ e, (A e.peer).delivered = w.queued e ch
  erased : ∀ e, (A e).erased = (w.erased e ch).map fun p => (p.sequence, p.data)
  genuine : ∀ e, Arq.AllGenuine (channelProtocol ch) (A e)
  word : ∀ e, (channelProtocol ch).word (A e).receiver ∈ (A e).words
  wire : ∀ e d, (e, d) ∈ w.wire → d.dest = addr e.peer →
    ∀ hdr payload, packet d.bytes = some (hdr, payload) → hdr.channel = ch →
      Carried ch (A e) (A e.peer) hdr payload

/-- The flows with `forth` for end `e` and `back` for its peer. -/
def flows (e : End) (forth back : Flow) (x : End) : Flow := if x = e then forth else back

@[simp] theorem flows_self (e : End) (forth back : Flow) : flows e forth back e = forth := if_pos rfl

@[simp] theorem flows_peer (e : End) (forth back : Flow) : flows e forth back e.peer = back :=
  if_neg e.peer_ne

theorem flows_eta (e : End) (A : End → Flow) : flows e (A e) (A e.peer) = A := by
  funext x
  rcases End.eq_or_eq_peer e x with rfl | rfl
  · exact flows_self _ _ _
  · exact flows_peer _ _ _

section
variable {P : Platform} {addr : End → Address} {ch : Fin 4} {w w' : World} {A : End → Flow}

/-- What a call at end `e` has to establish: it can add to what `e` has sent and take from what is
pending there, and it can move the receiver of the other direction. -/
theorem Refines.put (h : Refines addr ch w A) (e : End) {impl : Impl} {ds : List Datagram}
    {events : List Event} {sent : List Bytes} {pending erased delivered : List (UInt16 × Bytes)}
    {receiver : Receiver} {words : List (UInt16 × UInt32)} (forth back : Flow)
    (hforth : forth = { A e with sent := sent, pending := pending, erased := erased })
    (hback : back = { A e.peer with receiver := receiver, delivered := delivered, words := words })
    (hdistinct : impl.Distinct)
    (hview : impl.view (addr e.peer) ch =
      ⟨UInt16.ofNat sent.length, pending.map fun f => (f.1, f.2, false), receiver⟩)
    (hlocal : Silent events e.peer ch)
    (hsent : sent = (A e).sent ++ handedIn events e ch)
    (hdelivered : delivered = (A e.peer).delivered ++ queuedIn events e ch)
    (herased : erased = (A e).erased ++ (erasedIn events e ch).map fun p => (p.sequence, p.data))
    (hgenuine : Arq.AllGenuine (channelProtocol ch) forth)
    (hgenuine' : Arq.AllGenuine (channelProtocol ch) back)
    (hwords : (A e.peer).words ⊆ words) (hword : (channelProtocol ch).word receiver ∈ words)
    (hwire : ∀ d ∈ ds, d.dest = addr e.peer → ∀ hdr payload,
      packet d.bytes = some (hdr, payload) → hdr.channel = ch → Carried ch forth back hdr payload) :
    Refines addr ch (w.put e impl ds events) (flows e forth back) := by
  subst hforth hback
  have ofEnds : ∀ {p : End → Prop}, p e → p e.peer → ∀ x, p x := fun he hp x => by
    rcases End.eq_or_eq_peer e x with rfl | rfl
    · exact he
    · exact hp
  refine ⟨ofEnds ?_ ?_, ofEnds ?_ ?_, ofEnds ?_ ?_, ofEnds ?_ ?_, ofEnds ?_ ?_, ofEnds ?_ ?_,
    ofEnds ?_ ?_, ofEnds ?_ ?_, ofEnds ?_ ?_, ofEnds ?_ ?_⟩
  · rwa [World.node_put_self]
  · rw [World.node_put_peer]
    exact h.distinct e.peer
  · simp [World.handed, World.put, hsent, h.sent e]
  · simp [World.handed, World.put, hlocal.handed, h.sent e.peer]
  · rw [World.node_put_self, hview, flows_self]
  · rw [World.node_put_peer, h.localSeq e.peer, flows_peer]
  · rw [World.node_put_self, hview, flows_self]
  · rw [World.node_put_peer, h.pending e.peer, flows_peer]
  · rw [World.node_put_self, hview, flows_peer]
  · rw [World.node_put_peer, h.receiver e.peer, End.peer_peer, flows_self]
  · simp [World.queued, World.put, hdelivered, h.delivered e]
  · have hd := h.delivered e.peer
    rw [End.peer_peer] at hd
    simp [World.queued, World.put, hlocal.queued, hd]
  · simp [World.erased, World.put, herased, h.erased e]
  · simp [World.erased, World.put, hlocal.erased, h.erased e.peer]
  · rwa [flows_self]
  · rwa [flows_peer]
  · rw [flows_self]
    exact h.word e
  · rw [flows_peer]
    exact hword
  · intro d hd hdest hdr payload hp hch
    rw [flows_self, flows_peer]
    rcases (World.mem_wire_put w e impl ds events).mp hd with hd | ⟨-, hd⟩
    · obtain ⟨h₁, h₂, h₃, h₄, h₅, h₆⟩ := h.wire e d hd hdest hdr payload hp hch
      exact ⟨h₁, h₂, h₃, h₄, hsent ▸ h₅.append _, hwords h₆⟩
    · exact hwire d hd hdest hdr payload hp hch
  · intro d hd hdest hdr payload hp hch
    rw [End.peer_peer, flows_self, flows_peer]
    rcases (World.mem_wire_put w e impl ds events).mp hd with hd | ⟨hne, -⟩
    · obtain ⟨h₁, h₂, h₃, h₄, h₅, h₆⟩ := h.wire e.peer d hd hdest hdr payload hp hch
      rw [End.peer_peer] at h₆
      exact ⟨h₁, h₂, h₃, h₄, h₅, h₆⟩
    · exact absurd hne e.peer_ne

/-! ### What an end hands to the network -/

/-- A packet of channel `ch` that an end emits is one of its messages, under the acknowledgement of
its own receiver. -/
theorem Carried.of_emits {conn : Connection} {known : Fin 4 → Message → Prop} {d : Datagram}
    {forth back : Flow} (h : Emits conn known d) (h0 : ch ≠ 0)
    (hknown : ∀ m, known ch m → m.2.2 = false ∧
      Arq.Genuine (channelProtocol ch) forth.sent (m.1, m.2.1))
    (hword : (channelProtocol ch).word (conn.channels ch).receiver ∈ back.words) {hdr : PacketHeader}
    {payload : Bytes} (hp : packet d.bytes = some (hdr, payload)) (hch : hdr.channel = ch) :
    Carried ch forth back hdr payload := by
  cases h with
  | user hrecv hk hlen =>
    rw [packet_serialize_append _ hlen] at hp
    cases hp
    rw [channel_userHeader] at hch
    subst hch
    refine ⟨rfl, rfl, rfl, reliability_userHeader _ _ _ _, (hknown _ hk).2, ?_⟩
    rw [← hrecv] at hword
    exact hword
  | fragment hrecv hk hlen =>
    rw [packet_serialize_append _ hlen] at hp
    cases hp
    rw [channel_fragmentHeader] at hch
    subst hch
    exact absurd (hknown _ hk).1 (by simp)
  | control type ack ackBits =>
    rw [packet_serialize_append _ (Nat.zero_le _)] at hp
    cases hp
    rw [channel_controlHeader] at hch
    exact absurd hch.symm h0

/-- What waits at an end is genuine. -/
theorem Refines.waiting (h : Refines addr ch w A) {e : End} {m : Message}
    (hm : Waiting ((w.node e).conn (addr e.peer)) ch m) :
    m.2.2 = false ∧ Arq.Genuine (channelProtocol ch) (A e).sent (m.1, m.2.1) := by
  have hm' : m ∈ ((w.node e).view (addr e.peer) ch).pending := hm
  rw [h.pending e] at hm'
  obtain ⟨f, hf, rfl⟩ := List.mem_map.mp hm'
  exact ⟨rfl, (h.genuine e).pending f hf⟩

/-- The pending list itself, without retry counts and times. -/
theorem Refines.pending_frames (h : Refines addr ch w A) (e : End) :
    (A e).pending = (((w.node e).conn (addr e.peer)).channels ch).pending.map
      fun p => (p.sequence, p.data) := by
  have hp : (((w.node e).conn (addr e.peer)).channels ch).pending.map Pending.message =
      (A e).pending.map fun f => (f.1, f.2, false) := h.pending e
  have := congrArg (List.map fun m : Message => (m.1, m.2.1)) hp
  simpa [List.map_map, Function.comp_def, Pending.message] using this.symm

theorem Refines.word_conn (h : Refines addr ch w A) (e : End) :
    (channelProtocol ch).word (((w.node e).conn (addr e.peer)).channels ch).receiver ∈
      (A e.peer).words := by
  have hrecv : (((w.node e).conn (addr e.peer)).channels ch).receiver = (A e.peer).receiver :=
    h.receiver e
  rw [hrecv]
  exact h.word e.peer

/-! ### Calls that are no step of the channel -/

theorem Refines.idle (h : Refines addr ch w A) (e : End) {impl : Impl} {ds : List Datagram}
    {events : List Event} (hdistinct : impl.Distinct)
    (hview : impl.view (addr e.peer) ch = (w.node e).view (addr e.peer) ch)
    (hself : Silent events e ch) (hlocal : Silent events e.peer ch)
    (hwire : ∀ d ∈ ds, d.dest = addr e.peer → ∀ hdr payload,
      packet d.bytes = some (hdr, payload) → hdr.channel = ch →
      Carried ch (A e) (A e.peer) hdr payload) :
    Refines addr ch (w.put e impl ds events) A := by
  have hv : (w.node e).view (addr e.peer) ch = ⟨UInt16.ofNat (A e).sent.length,
      (A e).pending.map fun f => (f.1, f.2, false), (A e.peer).receiver⟩ := by
    rw [← h.localSeq e, ← h.pending e, ← h.receiver e]
  have key := h.put e (A e) (A e.peer) rfl rfl hdistinct (hview.trans hv) hlocal
    (by rw [hself.handed, List.append_nil]) (by rw [hself.queued, List.append_nil])
    (by rw [hself.erased, List.map_nil, List.append_nil]) (h.genuine e)
    (h.genuine e.peer) (List.Subset.refl _) (h.word e.peer) hwire
  rwa [flows_eta] at key

theorem Refines.quiet (h : Refines addr ch w A) (h0 : ch ≠ 0) (e : End) {impl : Impl}
    {ds : List Datagram} (hdistinct : impl.Distinct)
    (hq : Quiet (w.node e) impl (addr e.peer) ds) : Refines addr ch (w.put e impl ds []) A := by
  refine h.idle e hdistinct (hq.view ch) (silent_nil e ch) (silent_nil _ ch) ?_
  intro d hd hdest hdr payload hp hch
  exact .of_emits (hq.emits d hd hdest) h0 (fun m hm => h.waiting hm) (h.word_conn e) hp hch

/-! ### Sends -/

variable {ok : Flow → Arq.Act Bytes (UInt16 × UInt32) → Prop}

/-- The flows of a world after a step, and how they came about. -/
def Advances (addr : End → Address) (ch : Fin 4)
    (ok : Flow → Arq.Act Bytes (UInt16 × UInt32) → Prop) (A : End → Flow) (w' : World) : Prop :=
  ∃ A', Refines addr ch w' A' ∧ ∀ x, Run (Arq.step (channelProtocol ch)) ok (A x) (A' x)

theorem Refines.advances (h : Refines addr ch w A) : Advances addr ch ok A w :=
  ⟨A, h, fun x => .refl (A x)⟩

theorem run_flows {e : End} {forth back : Flow}
    (hforth : Run (Arq.step (channelProtocol ch)) ok (A e) forth)
    (hback : Run (Arq.step (channelProtocol ch)) ok (A e.peer) back) (x : End) :
    Run (Arq.step (channelProtocol ch)) ok (A x) (flows e forth back x) := by
  rcases End.eq_or_eq_peer e x with rfl | rfl
  · rwa [flows_self]
  · rwa [flows_peer]

theorem ne_zero_of_isReliable (hrel : (PacketReliability.ofIndex ch).isReliable = true) : ch ≠ 0 := by
  rintro rfl
  exact absurd hrel (by decide)

/-- A message given to the channel itself. -/
theorem Refines.send_self (h : Refines addr ch w A)
    (hrel : (PacketReliability.ofIndex ch).isReliable = true)
    (hsend : ∀ s a keep, ok s (.send a keep)) (e : End) {impl : Impl} {ds : List Datagram}
    {data : Bytes} {r : PacketReliability} (hdistinct : impl.Distinct)
    (hs : Sends (w.node e) impl (addr e.peer) data r ds) (hr : r.index = ch)
    (hlen : data.length ≤ MAX_PAYLOAD_SIZE) :
    Advances addr ch ok A (w.put e impl ds [.handed e r.index data]) := by
  obtain ⟨out, hsent, hout⟩ := hs
  subst hr
  have h0 := ne_zero_of_isReliable hrel
  rw [PacketReliability.ofIndex_index] at hrel
  have hshort : decide (MAX_PAYLOAD_SIZE < data.length) = false := by simpa using hlen
  have hstep : Arq.step (channelProtocol r.index) (A e) (.send data true) = some _ := rfl
  have hview := hsent.self (.inl hlen)
  have hold : (((w.node e).conn (addr e.peer)).channels r.index).view =
      ⟨UInt16.ofNat (A e).sent.length, (A e).pending.map fun f => (f.1, f.2, false),
        (A e.peer).receiver⟩ := by
    rw [← h.localSeq e, ← h.pending e, ← h.receiver e]
    rfl
  refine ⟨_, h.put e _ (A e.peer) rfl rfl hdistinct ?_
    (silent_handed fun hx => e.peer_ne hx.1.symm) ?_ (by simp [queuedIn])
    (by simp [erasedIn]) ((h.genuine e).step hstep) (h.genuine e.peer) (List.Subset.refl _)
    (h.word e.peer) ?_, run_flows (.single (hsend _ _ _) hstep) (.refl _)⟩
  · rw [Impl.view, hview, hold]
    simp [ChannelView.send, hrel, hshort, channelProtocol, UInt16.ofNat_add]
  · simp [handedIn]
  · intro d hd hdest hdr payload hp hch
    refine .of_emits (hsent.emits d (hout d hd hdest)) h0 ?_ (h.word_conn e) hp hch
    rintro m ⟨-, rfl⟩
    refine ⟨hshort, (A e).sent.length, ?_, by simp⟩
    exact congrArg ChannelView.localSeq hold

/-- A send of any message at end `e`, on any channel and to anyone. -/
theorem Refines.send (h : Refines addr ch w A)
    (hrel : (PacketReliability.ofIndex ch).isReliable = true)
    (hsend : ∀ s a keep, ok s (.send a keep)) (e : End) {out : Impl × List Datagram × Bool}
    {toPeer : Prop} [Decidable toPeer] {data : Bytes} {r : PacketReliability}
    (hdistinct : out.1.Distinct)
    (hspec : SendSpec (w.node e) out.1 (addr e.peer) data r out.2.1 toPeer)
    (hlen : r.index = ch → data.length ≤ MAX_PAYLOAD_SIZE) :
    Advances addr ch ok A (w.sent e out toPeer data r) := by
  rw [World.sent]
  by_cases hto : toPeer
  · rw [if_pos hto]
    obtain ⟨-, hs⟩ := hspec.sends hto
    by_cases hr : r.index = ch
    · exact h.send_self hrel hsend e hdistinct hs hr (hlen hr)
    · obtain ⟨ds, hsent, hds⟩ := hs
      refine (h.idle e hdistinct (hsent.other ch (Ne.symm hr)) (silent_handed fun hx => hr hx.2)
        (silent_handed fun hx => hr hx.2) ?_).advances
      intro d hd hdest hdr payload hp hch
      exact .of_emits (hsent.emits d (hds d hd hdest)) (ne_zero_of_isReliable hrel)
        (fun m hm => absurd hm.1.symm hr) (h.word_conn e) hp hch
  · rw [if_neg hto]
    obtain ⟨hconn, hds⟩ := hspec.quiet hto
    exact (h.quiet (ne_zero_of_isReliable hrel) e hdistinct (.of_conn hconn hds)).advances

/-! ### Arrivals -/

section
variable (e : End) (c : Fin 4) (sequence : UInt16) (pending pending' : List Pending)
  (pushed : List ReceivedPacket)

theorem handedIn_packetEvents (x : End) :
    handedIn (packetEvents e c sequence pending pending' pushed) x ch = [] := by
  simp [packetEvents, handedIn, List.filterMap_append, List.filterMap_map]

theorem silent_packetEvents {x : End} (h : ¬(e = x ∧ c = ch)) :
    Silent (packetEvents e c sequence pending pending' pushed) x ch := by
  refine ⟨handedIn_packetEvents _ _ _ _ _ _ x, ?_, ?_⟩ <;>
    simp [packetEvents, queuedIn, erasedIn, List.filterMap_append, List.filterMap_map, h]

theorem queuedIn_packetEvents : queuedIn (packetEvents e c sequence pending pending' pushed) e c =
    pushed.map fun pkt => (sequence, pkt.data) := by
  simp [packetEvents, queuedIn, List.filterMap_append, List.filterMap_map]

theorem erasedIn_packetEvents : erasedIn (packetEvents e c sequence pending pending' pushed) e c =
    pending.filter fun p => p ∉ pending' := by
  simp [packetEvents, erasedIn, List.filterMap_append, List.filterMap_map]

end

/-- A packet of the channel itself, from the peer. -/
theorem Refines.receive_self (h : Refines addr ch w A)
    (hrel : (PacketReliability.ofIndex ch).isReliable = true) (hack : ∀ s v, ok s (.ack v)) (e : End)
    {env : Env} {hdr : PacketHeader} {payload : Bytes} {impl : Impl} {ds : List Datagram}
    (hch : hdr.channel = ch) (hc : Carried ch (A e.peer) (A e) hdr payload)
    (harr : ∀ i, hdr.sequence = UInt16.ofNat i → ok (A e.peer) (.arrive i))
    (hp : processPacket P env (w.node e) (addr e.peer) hdr payload = some (impl, ds)) :
    Advances addr ch ok A (w.put e impl ds (packetEvents e hdr.channel hdr.sequence
      (((w.node e).conn (addr e.peer)).channels hdr.channel).pending
      ((impl.conn (addr e.peer)).channels hdr.channel).pending
      (impl.receiveQueue.drop (w.node e).receiveQueue.length))) := by
  have hframe := processPacket_frame hp
  subst hch
  have hpend := processPacket_pending hp hc.protocolId hrel
  obtain ⟨impl', hp', hview, hqueue⟩ := processPacket_user P env (w.node e) (addr e.peer) payload
    hc.protocolId hc.packetType hc.fragCount hrel
  obtain ⟨rfl, rfl⟩ : impl' = impl ∧ [] = ds := by
    rw [hp] at hp'
    cases hp'
    exact ⟨rfl, rfl⟩
  obtain ⟨i, hi, hsent⟩ := hc.genuine
  have hrecv := h.receiver e
  have hgate : ((w.node e).view (addr e.peer) hdr.channel).receiver.accept hdr payload =
      (channelProtocol hdr.channel).gate (A e.peer).receiver hdr.sequence payload := by
    rw [hrecv]
    refine accept_congr ?_ rfl hc.fragCount
    rw [hc.reliability, reliability_userHeader]
  rw [hgate] at hview hqueue
  have hackStep := Arq.step_ack (p := channelProtocol hdr.channel) hc.ack
  have harrStep := Arq.step_arrive (p := channelProtocol hdr.channel) hsent
  rw [← hi] at harrStep
  refine ⟨_, h.put e _ _ rfl rfl (hframe.distinct (h.distinct e)) ?_
    (silent_packetEvents _ _ _ _ _ _ fun hx => e.peer_ne hx.1.symm) ?_ ?_ ?_
    ((h.genuine e).step hackStep) ((h.genuine e.peer).step harrStep) (List.subset_cons_self _ _)
    List.mem_cons_self (fun d hd => by cases hd),
    run_flows (.single (hack _ _) hackStep) (.single (harr i hi) harrStep)⟩
  · rw [hview]
    have hold := h.pending e
    rw [ChannelView.ack, hold, h.localSeq e]
    simp [List.filter_map, Function.comp_def, channelProtocol]
  · rw [handedIn_packetEvents, List.append_nil]
  · rw [queuedIn_packetEvents, hqueue, List.drop_left]
    split_ifs <;> simp
  · rw [erasedIn_packetEvents, hpend, h.pending_frames e, List.filter_map]
    refine congrArg _ (congrArg _ (List.filter_congr fun p hpm => ?_))
    simp [hpm, channelProtocol]

/-- One turn of the receive loop. -/
theorem Refines.receive (h : Refines addr ch w A)
    (hrel : (PacketReliability.ofIndex ch).isReliable = true) (hack : ∀ s v, ok s (.ack v))
    (e : End) (a : Arrival) (hgen : w.Genuine addr e a)
    (harr : ∀ hdr payload i, a.sender = addr e.peer → packet a.bytes = some (hdr, payload) →
      hdr.channel = ch → hdr.sequence = UInt16.ofNat i → ok (A e.peer) (.arrive i))
    (hw : w.receive P addr e a = some w') : Advances addr ch ok A w' := by
  obtain ⟨⟨impl, ds⟩, hrecv, rfl⟩ := Option.map_eq_some_iff.mp hw
  have h0 := ne_zero_of_isReliable hrel
  rw [receiveOne_eq] at hrecv
  rw [World.arrivalEvents]
  cases hp : packet a.bytes with
  | none =>
    rw [hp] at hrecv
    cases hrecv
    refine (h.idle e (h.distinct e) rfl ?_ ?_ fun d hd => by cases hd).advances <;>
      split_ifs <;> exact silent_nil _ _
  | some pkt =>
    obtain ⟨hdr, payload⟩ := pkt
    rw [hp] at hrecv
    have hframe := processPacket_frame hrecv
    by_cases hs : a.sender = addr e.peer
    · rw [if_pos hs]
      rw [hs] at hrecv hframe
      by_cases hch : hdr.channel = ch
      · have hc := h.wire e.peer _ (hgen hs) (by rw [End.peer_peer]) hdr payload hp hch
        rw [End.peer_peer] at hc
        rw [hs]
        exact h.receive_self hrel hack e hch hc (fun i => harr hdr payload i hs hp hch) hrecv
      · refine (h.idle e (hframe.distinct (h.distinct e)) ?_
          (silent_packetEvents _ _ _ _ _ _ fun hx => hch hx.2)
          (silent_packetEvents _ _ _ _ _ _ fun hx => hch hx.2) ?_).advances
        · rw [Impl.view, hframe.channel ch (Ne.symm hch), Impl.view]
        · intro d hd _ hdr' payload' hp' hch'
          obtain ⟨type, ack, ackBits, rfl⟩ := hframe.replies d hd
          rw [packet_serialize_append _ (Nat.zero_le _)] at hp'
          cases hp'
          rw [channel_controlHeader] at hch'
          exact absurd hch'.symm h0
    · rw [if_neg hs]
      refine (h.quiet h0 e (hframe.distinct (h.distinct e)) (.of_conn ?_ fun d hd => ?_)).advances
      · rw [Impl.conn, hframe.other _ (Ne.symm hs), Impl.conn]
      · obtain ⟨type, ack, ackBits, rfl⟩ := hframe.replies d hd
        exact hs

/-! ### Runs -/

theorem Advances.trans {A' : End → Flow}
    (hrun : ∀ x, Run (Arq.step (channelProtocol ch)) ok (A x) (A' x))
    (h : Advances addr ch ok A' w) : Advances addr ch ok A w := by
  obtain ⟨A'', href, hrun'⟩ := h
  exact ⟨A'', href, fun x => (hrun x).trans (hrun' x)⟩

variable {Q : World → End → Arrival → Prop}

theorem Refines.receiveAll (hrel : (PacketReliability.ofIndex ch).isReliable = true)
    (hack : ∀ s v, ok s (.ack v))
    (harr : ∀ w A e a hdr payload i, Refines addr ch w A → Q w e a → a.sender = addr e.peer →
      packet a.bytes = some (hdr, payload) → hdr.channel = ch → hdr.sequence = UInt16.ofNat i →
      ok (A e.peer) (.arrive i))
    (e : End) (arrivals : List Arrival) (h : Refines addr ch w A)
    (hq : w.Along P addr (fun w a => w.Genuine addr e a ∧ Q w e a) e arrivals)
    (hw : w.receiveAll P addr e arrivals = some w') : Advances addr ch ok A w' := by
  induction arrivals generalizing w A with
  | nil =>
    cases hw
    exact h.advances
  | cons a arrivals ih =>
    obtain ⟨⟨hgen, hqa⟩, hrest⟩ := hq
    obtain ⟨w₁, hw₁, hw⟩ := Option.bind_eq_some_iff.mp hw
    obtain ⟨A₁, h₁, hrun⟩ := h.receive hrel hack e a hgen
      (fun hdr payload i => harr w A e a hdr payload i h hqa) hw₁
    exact .trans hrun (ih h₁ (hrest w₁ hw₁) hw)

/-- A state of a run: the flows, and no connection waiting to be erased. -/
structure Simulates (addr : End → Address) (ch : Fin 4) (w : World) (A : End → Flow) : Prop where
  refines : Refines addr ch w A
  settled : ∀ e, (w.node e).Settled

theorem settled_put {e : End} {impl : Impl} {ds : List Datagram} {events : List Event}
    (h : ∀ x, (w.node x).Settled) (hs : impl.Settled) (x : End) :
    ((w.put e impl ds events).node x).Settled := by
  rcases End.eq_or_eq_peer e x with rfl | rfl
  · rwa [World.node_put_self]
  · rw [World.node_put_peer]
    exact h e.peer

/-- Every call is a run of the two flows, of no step for most. -/
theorem Simulates.step (h : Simulates addr ch w A)
    (hrel : (PacketReliability.ofIndex ch).isReliable = true)
    (hsend : ∀ s a keep, ok s (.send a keep)) (hack : ∀ s v, ok s (.ack v))
    (harr : ∀ w A e a hdr payload i, Refines addr ch w A → Q w e a → a.sender = addr e.peer →
      packet a.bytes = some (hdr, payload) → hdr.channel = ch → hdr.sequence = UInt16.ofNat i →
      ok (A e.peer) (.arrive i))
    {c : World.Call} (hadm : w.Admissible P addr ch Q c) (hstep : w.step P addr c = some w') :
    ∃ A', Simulates addr ch w' A' ∧
      ∀ x, Run (Arq.step (channelProtocol ch)) ok (A x) (A' x) := by
  have h0 := ne_zero_of_isReliable hrel
  have hok : ∀ e, (w.node e).Ok := fun e => ⟨h.refines.distinct e, h.settled e⟩
  have idle : ∀ {w'}, Refines addr ch w' A → (∀ e, (w'.node e).Settled) →
      ∃ A', Simulates addr ch w' A' ∧
        ∀ x, Run (Arq.step (channelProtocol ch)) ok (A x) (A' x) := fun h hs =>
    ⟨A, ⟨h, hs⟩, fun x => .refl (A x)⟩
  have limits : ∀ {e impl}, Limits (w.node e) impl → ∃ A', Simulates addr ch (w.put e impl [] []) A' ∧
      ∀ x, Run (Arq.step (channelProtocol ch)) ok (A x) (A' x) := fun {e impl} hl =>
    idle (h.refines.quiet h0 e (hl.ok (hok e)).distinct
      ⟨hl.view _, fun d hd => absurd hd List.not_mem_nil⟩)
      (settled_put h.settled (hl.ok (hok e)).settled)
  cases c with
  | send e env data r =>
    cases hstep
    obtain ⟨A', hA', hrun⟩ := h.refines.send hrel hsend e (send_ok env data r (hok e)).distinct
      (send_spec env data r (hok e) (addr e.peer)) hadm
    exact ⟨A', ⟨hA', settled_put h.settled (send_ok env data r (hok e)).settled⟩, hrun⟩
  | sendWithPriority e env address data r priority =>
    cases hstep
    have hok' := sendWithPriority_ok env address data r priority (hok e)
    obtain ⟨A', hA', hrun⟩ := h.refines.send hrel hsend e hok'.distinct
      (sendWithPriority_spec env address data r priority (hok e) (addr e.peer)) hadm
    exact ⟨A', ⟨hA', settled_put h.settled hok'.settled⟩, hrun⟩
  | poll e env t arrivals =>
    rw [World.step] at hstep
    split_ifs at hstep with hsock
    · cases hstep
      exact idle h.refines h.settled
    · obtain ⟨w₁, hw₁, rfl⟩ := Option.map_eq_some_iff.mp hstep
      obtain ⟨hq, halive⟩ := hadm
      obtain ⟨A₁, h₁, hrun⟩ := h.refines.receiveAll hrel hack harr e arrivals hq hw₁
      have hfin := finishPoll_ok env t (h₁.distinct e)
      have hquiet := finishPoll_quiet env t (h₁.distinct e) (addr e.peer) fun hf => by
        have := halive w₁ hw₁ hf
        rwa [World.finish, World.node_put_self] at this
      refine ⟨A₁, ⟨h₁.quiet h0 e hfin.distinct hquiet, fun x => ?_⟩, hrun⟩
      rcases End.eq_or_eq_peer e x with rfl | rfl
      · rw [World.finish, World.node_put_self]
        exact hfin.settled
      · rw [World.finish, World.node_put_peer, World.receiveAll_node_peer P addr hw₁]
        exact h.settled e.peer
  | popReceive e maxLength =>
    cases hstep
    have hc := popReceive_connections maxLength (w.node e)
    refine idle (h.refines.quiet h0 e ?_ (.of_conn ?_ fun d hd => by cases hd))
      (settled_put h.settled ?_)
    · rw [Impl.Distinct, hc]
      exact h.refines.distinct e
    · rw [Impl.conn, findConnection, hc, Impl.conn, findConnection]
    · rw [Impl.Settled, hc]
      exact h.settled e
  | setConnectionBandwidthLimit e address n =>
    cases hstep
    exact limits (setConnectionBandwidthLimit_limits address n (w.node e))
  | setChannelBandwidthLimit e address r n =>
    cases hstep
    exact limits (setChannelBandwidthLimit_limits address r n (w.node e))

theorem World.Fresh.simulates (h : w.Fresh addr ch) :
    Simulates addr ch w fun _ => Arq.init (channelProtocol ch) {} where
  refines := {
    distinct := fun e => (h.ok e).distinct
    sent := fun e => by rw [World.handed, h.log]; rfl
    localSeq := fun e => by rw [h.view e]; rfl
    pending := fun e => by rw [h.view e]; rfl
    receiver := fun e => by rw [h.view e]; rfl
    delivered := fun e => by rw [World.queued, h.log]; rfl
    erased := fun e => by rw [World.erased, h.log]; rfl
    genuine := fun e => Arq.allGenuine_init _
    word := fun e => List.mem_cons_self
    wire := fun e d hd hdest hdr payload hp hch => absurd hch (h.wire e d hd hdest hdr payload hp) }
  settled e := (h.ok e).settled

/-- A run of the world is a run of the two flows of each reliable channel. -/
theorem refines_run (ok : Flow → Arq.Act Bytes (UInt16 × UInt32) → Prop) {w₀ : World} (hfresh : w₀.Fresh addr ch)
    (hrel : (PacketReliability.ofIndex ch).isReliable = true)
    (hsend : ∀ s a keep, ok s (.send a keep)) (hack : ∀ s v, ok s (.ack v))
    (harr : ∀ w A e a hdr payload i, Refines addr ch w A → Q w e a → a.sender = addr e.peer →
      packet a.bytes = some (hdr, payload) → hdr.channel = ch → hdr.sequence = UInt16.ofNat i →
      ok (A e.peer) (.arrive i))
    (hrun : Run (World.step P addr) (World.Admissible P addr ch Q) w₀ w) :
    ∃ A, Refines addr ch w A ∧
      ∀ e, Run (Arq.step (channelProtocol ch)) ok (Arq.init (channelProtocol ch) {}) (A e) := by
  obtain ⟨A, hA, hr⟩ := hrun.invariant (I := fun w => ∃ A, Simulates addr ch w A ∧
    ∀ e, Run (Arq.step (channelProtocol ch)) ok (Arq.init (channelProtocol ch) {}) (A e))
    ⟨_, hfresh.simulates, fun e => .refl _⟩ fun t c u ⟨A, hA, hr⟩ hadm hu => by
      obtain ⟨A', hA', hr'⟩ := hA.step hrel hsend hack harr hadm hu
      exact ⟨A', hA', fun e => (hr e).trans (hr' e)⟩
  exact ⟨A, hA.refines, hr⟩

theorem Refines.delivered_peer (h : Refines addr ch w A) (e : End) :
    (A e).delivered = w.queued e.peer ch := by
  have := h.delivered e.peer
  rwa [End.peer_peer] at this

/-- If each flow forgets only what it delivered, so do the two ends. -/
theorem Refines.nothingLost (h : Refines addr ch w A) (hsub : ∀ e, (A e).erased ⊆ (A e).delivered) :
    w.NothingLost ch := by
  intro e p hp
  rw [← h.delivered_peer e]
  refine hsub e ?_
  rw [h.erased e]
  exact List.mem_map_of_mem hp

end

end CampelloNet.Transport.Udp
