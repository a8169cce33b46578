import CampelloNet.Lib.InOrder
import CampelloNet.Transport.Udp.Fragmentation
import CampelloNet.Transport.Udp.ReliableOrdered

/-!
# Gaps on the ReliableOrdered channel

The gate of the ordered channel puts a packet that arrives ahead of a gap into `receive_buffer`, and
never looks into it again: when the gap closes, the packet has to arrive once more. What is queued is
the run of messages that has arrived, after every arrival, exactly if no packet arrives ahead of a
gap (`reliableOrdered_gaps`).
-/

namespace CampelloNet.Transport.Udp

open Lib PacketReliability

/-- The datagram is a packet from `s` on its ordered channel. -/
def ofOrdered (s : Address) (a : Arrival) : Bool :=
  a.sender = s && (packet a.bytes).any fun p => p.1.channel = reliableOrdered.index

/-- The bytes of message `i` of an ordered channel, under the acknowledgement of `channel`. -/
def orderedPacket (channel : Channel) (data : Bytes) (i : ℕ) : Bytes :=
  (userHeader reliableOrdered.index channel (.ofNat i) data.length).serialize ++ data

/-- The number of the packet. -/
def Arrival.number (a : Arrival) : ℕ := ((packet a.bytes).map fun p => p.1.sequence.toNat).getD 0

def orderedArrivals (s : Address) (turns : List Turn) : List Arrival :=
  (turns.filterMap Turn.arrival).filter (ofOrdered s)

/-- The numbers of the packets from `s` on its ordered channel, as they arrive. -/
def orderedNumbers (s : Address) (turns : List Turn) : List ℕ :=
  (orderedArrivals s turns).map Arrival.number

/-- The packets of messages 0 to `n` of an ordered channel arrive, each at least once, in any order
and among whatever else arrives. -/
structure OrderedDatagrams (s : Address) (payload : ℕ → Bytes) (n : ℕ) (turns : List Turn) : Prop where
  short : ∀ i, (payload i).length ≤ MAX_PAYLOAD_SIZE
  genuine : ∀ a ∈ orderedArrivals s turns, ∃ i ≤ n, ∃ channel,
    a.bytes = orderedPacket channel (payload i) i
  each : ∀ i ≤ n, i ∈ orderedNumbers s turns

/-- The turns in which the connection with `s` is kept and whatever else arrives has a defined
result. -/
def Undisturbed (P : Platform) (s : Address) (impl : Impl) (x : Turn) : Prop :=
  KeepsConnection s impl x ∧ (¬x.arrival.any (ofOrdered s) → (turn P impl x).isSome)

/-- After each turn the messages of the longest run from 0 that has arrived have been queued, in
their order, and none of them is in the buffer. -/
def GapsFilled (P : Platform) (s : Address) (payload : ℕ → Bytes) (rcv : Impl) (turns : List Turn) :
    Prop :=
  ∀ before, before <+: turns → ∃ impl k, Run.exec (turn P) rcv before = some impl ∧
    FirstMissing (orderedNumbers s before) k ∧
    pushed P (ofOrdered s) rcv before = (List.range k).map (fun i => ⟨s, payload i⟩) ∧
    ∀ p ∈ (impl.view s reliableOrdered.index).receiver.receiveBuffer, k ≤ p.sequence.toNat

/-! ### One turn -/

section
variable {P : Platform} {s : Address} {impl impl' : Impl} {payload : ℕ → Bytes} {n : ℕ}

theorem packet_orderedPacket {channel : Channel} {data : Bytes} {i : ℕ}
    (h : data.length ≤ MAX_PAYLOAD_SIZE) : packet (orderedPacket channel data i) =
      some (userHeader reliableOrdered.index channel (.ofNat i) data.length, data) :=
  packet_serialize_append _ h

theorem number_orderedPacket {a : Arrival} {channel : Channel} {data : Bytes} {i : ℕ}
    (h : data.length ≤ MAX_PAYLOAD_SIZE) (hi : i < 65536)
    (hbytes : a.bytes = orderedPacket channel data i) : a.number = i := by
  unfold Arrival.number
  rw [hbytes, packet_orderedPacket h, Option.map_some, Option.getD_some]
  show (UInt16.ofNat i).toNat = i
  rw [UInt16.toNat_ofNat']
  exact Nat.mod_eq_of_lt hi

/-- The gate, when it waits for number `k`. -/
theorem gate_ordered {receiver : Receiver} {k i : ℕ} (data : Bytes) (h : OrderedAt receiver k)
    (hk : k ≤ 65535) (hi : i < 65535) :
    (receiver.accept (userHeader 1 {} (UInt16.ofNat i) data.length) data).2 = decide (i = k) ∧
      OrderedAt (receiver.accept (userHeader 1 {} (UInt16.ofNat i) data.length) data).1
        (if i = k then k + 1 else k) := by
  have hgate : (channelProtocol 1).gate receiver ((channelProtocol 1).seqOf i) data =
      receiver.accept (userHeader 1 {} (UInt16.ofNat i) data.length) data := rfl
  have hdeliver := @Arq.InOrder.deliver _ _ _ _ _ _ _ ordered_inOrder receiver k i data h hk hi
  have hdrop := @Arq.InOrder.drop _ _ _ _ _ _ _ ordered_inOrder receiver k i data h hk hi
  rw [hgate] at hdeliver hdrop
  by_cases hik : i = k
  · subst hik
    have haccept : (receiver.accept (userHeader 1 {} (UInt16.ofNat i) data.length) data).2 = true := by
      rcases accept_ordered receiver (UInt16.ofNat i) data with ⟨-, hacc⟩ | ⟨hne, -⟩
      · rw [hacc]
      · exact absurd (by rw [h.1, ofNat_expected]) hne
    simp [haccept, (hdeliver haccept).2]
  · have hrefuse : (receiver.accept (userHeader 1 {} (UInt16.ofNat i) data.length) data).2 = false := by
      by_contra hne
      exact hik (hdeliver (eq_true_of_ne_false hne)).1
    simp [hrefuse, hik, hdrop hrefuse]

/-- It keeps the buffer as it is when there is no gap. -/
theorem accept_buffer {receiver : Receiver} {k i : ℕ} {data : Bytes} (h : OrderedAt receiver k)
    (hk : k ≤ 65535) (hle : i ≤ k) :
    (receiver.accept (userHeader 1 {} (UInt16.ofNat i) data.length) data).1.receiveBuffer =
      receiver.receiveBuffer := by
  have hrel : (userHeader 1 {} (UInt16.ofNat i) data.length).reliability = .reliableOrdered :=
    reliability_userHeader 1 {} (UInt16.ofNat i) data.length
  have hseq : (userHeader 1 {} (UInt16.ofNat i) data.length).sequence = UInt16.ofNat i := rfl
  have hgap : ¬UInt16.ofNat i > receiver.remoteSeq + 1 := by
    rw [h.1, ofNat_expected, gt_iff_lt, UInt16.lt_iff_toNat_lt, UInt16.toNat_ofNat',
      UInt16.toNat_ofNat']
    omega
  simp only [Receiver.accept, acceptPacket, hrel, hseq]
  rw [if_neg hgap]
  split_ifs <;> rfl

/-- A packet of the ordered channel, when the receiver waits for number `k`. -/
theorem turn_ordered {a : Arrival} {channel : Channel} {data : Bytes} {i k : ℕ}
    (hsender : a.sender = s) (hbytes : a.bytes = orderedPacket channel data i)
    (hshort : data.length ≤ MAX_PAYLOAD_SIZE) (hi : i < 65535) (hk : k ≤ 65535)
    (h : OrderedAt (impl.view s reliableOrdered.index).receiver k) :
    ∃ impl', turn P impl (.receive a) = some impl' ∧
      OrderedAt (impl'.view s reliableOrdered.index).receiver (if i = k then k + 1 else k) ∧
      impl'.receiveQueue = impl.receiveQueue ++ (if i = k then [⟨s, data⟩] else []) ∧
      (i ≤ k → (impl'.view s reliableOrdered.index).receiver.receiveBuffer =
        (impl.view s reliableOrdered.index).receiver.receiveBuffer) := by
  have hrel : (PacketReliability.ofIndex
      (userHeader reliableOrdered.index channel (.ofNat i) data.length).channel).isReliable = true := by
    rw [channel_userHeader]
    decide
  obtain ⟨impl', hone, hview, hqueue⟩ := processPacket_user P a.env impl a.sender data rfl rfl rfl hrel
  rw [channel_userHeader, hsender] at hview hqueue
  have hgate : (impl.view s reliableOrdered.index).receiver.accept
      (userHeader reliableOrdered.index channel (.ofNat i) data.length) data =
      (impl.view s reliableOrdered.index).receiver.accept
        (userHeader 1 {} (UInt16.ofNat i) data.length) data :=
    accept_congr rfl rfl rfl
  obtain ⟨haccept, hstate⟩ := gate_ordered data h hk hi
  rw [hgate] at hview hqueue
  have hreceiver := congrArg ChannelView.receiver hview
  dsimp only at hreceiver
  refine ⟨impl', ?_, ?_, ?_, fun hle => ?_⟩
  · rw [turn, receiveOne_eq, hbytes, packet_orderedPacket hshort]
    dsimp only
    rw [hone]
    rfl
  · rw [hreceiver]
    exact hstate
  · rw [hqueue, haccept]
    simp
  · rw [hreceiver]
    exact accept_buffer h hk hle

/-- A turn without a packet of the ordered channel leaves it alone. -/
theorem turn_unordered {x : Turn} (hturn : turn P impl x = some impl') (hdistinct : impl.Distinct)
    (hkeep : KeepsConnection s impl x) (hother : ¬x.arrival.any (ofOrdered s)) :
    impl'.Distinct ∧ impl'.view s reliableOrdered.index = impl.view s reliableOrdered.index := by
  cases x with
  | finish env t =>
    cases hturn
    exact ⟨(finishPoll_ok env t hdistinct).distinct, (finishPoll_quiet env t hdistinct s hkeep).view _⟩
  | receive a =>
    obtain ⟨⟨impl₁, ds⟩, hone, rfl⟩ := Option.map_eq_some_iff.mp hturn
    refine ⟨receiveOne_distinct hone hdistinct, ?_⟩
    rw [receiveOne_eq] at hone
    rcases hp : packet a.bytes with _ | ⟨hdr, payload⟩
    · rw [hp] at hone
      cases hone
      rfl
    · rw [hp] at hone
      have hframe := processPacket_frame hone
      by_cases hs : a.sender = s
      · have hch : reliableOrdered.index ≠ hdr.channel := by
          intro heq
          apply hother
          simp [Turn.arrival, ofOrdered, hs, hp, heq]
        rw [hs] at hframe
        rw [Impl.view, hframe.channel _ hch, Impl.view]
      · rw [Impl.view, Impl.conn, hframe.other s (Ne.symm hs), Impl.view, Impl.conn]

/-! ### Runs of turns -/

theorem orderedNumbers_append (s : Address) (turns : List Turn) (x : Turn) :
    orderedNumbers s (turns ++ [x]) = orderedNumbers s turns ++
      ((x.arrival.toList.filter (ofOrdered s)).map Arrival.number) := by
  unfold orderedNumbers orderedArrivals
  rcases hx : x.arrival with _ | a <;> simp [hx, List.filter_append]

/-- The receiver after the given turns. -/
structure OrderedAfter (P : Platform) (s : Address) (payload : ℕ → Bytes) (rcv : Impl)
    (turns : List Turn) (impl : Impl) : Prop where
  exec : Run.exec (turn P) rcv turns = some impl
  distinct : impl.Distinct
  waiting : OrderedAt (impl.view s reliableOrdered.index).receiver
    (waitingFor 0 (orderedNumbers s turns))
  pushed : pushed P (ofOrdered s) rcv turns =
    (List.range (waitingFor 0 (orderedNumbers s turns))).map fun i => ⟨s, payload i⟩
  buffer : GapFree (orderedNumbers s turns) →
    (impl.view s reliableOrdered.index).receiver.receiveBuffer = []

/-- What it takes are packets of messages up to `n`. -/
theorem waitingFor_le {turns : List Turn} (h : ∀ i ∈ orderedNumbers s turns, i ≤ n) :
    waitingFor 0 (orderedNumbers s turns) ≤ n + 1 := by
  by_contra hlt
  have := h (n + 1) (mem_of_lt_waitingFor (not_le.mp hlt))
  omega

theorem OrderedAfter.step {turns : List Turn} {x : Turn} {rcv : Impl} (hn : n < 65535)
    (hshort : ∀ i, (payload i).length ≤ MAX_PAYLOAD_SIZE)
    (hgenuine : ∀ a ∈ orderedArrivals s (turns ++ [x]), ∃ i ≤ n, ∃ channel,
      a.bytes = orderedPacket channel (payload i) i)
    (hx : Undisturbed P s impl x) (h : OrderedAfter P s payload rcv turns impl) :
    ∃ impl', OrderedAfter P s payload rcv (turns ++ [x]) impl' := by
  have hexec : ∀ impl', turn P impl x = some impl' →
      Run.exec (turn P) rcv (turns ++ [x]) = some impl' := fun impl' hturn => by
    rw [Run.exec_append, h.exec, Option.bind_some, Run.exec, hturn]
    rfl
  by_cases hown : x.arrival.any (ofOrdered s)
  · cases x with
    | finish env t => cases hown
    | receive a =>
      have hmine : ofOrdered s a = true := hown
      obtain ⟨i, hi, channel, hbytes⟩ := hgenuine a (by simp [orderedArrivals, Turn.arrival, hmine])
      have hsender : a.sender = s := by
        simp only [ofOrdered, Bool.and_eq_true, decide_eq_true_eq] at hmine
        exact hmine.1
      have hnumber := number_orderedPacket (hshort i) (by omega) hbytes
      have hnumbers : orderedNumbers s (turns ++ [.receive a]) = orderedNumbers s turns ++ [i] := by
        rw [orderedNumbers_append]
        simp [Turn.arrival, hmine, hnumber]
      have hle : waitingFor 0 (orderedNumbers s turns) ≤ n + 1 := by
        apply waitingFor_le
        intro j hj
        obtain ⟨b, hb, rfl⟩ := List.mem_map.mp hj
        obtain ⟨j, hjn, _, hbj⟩ := hgenuine b (by
          simp only [orderedArrivals, List.filterMap_append, List.filter_append, List.mem_append]
          exact .inl hb)
        rwa [number_orderedPacket (hshort j) (by omega) hbj]
      obtain ⟨impl', hturn, hwaiting, hqueue, hbuffer⟩ := turn_ordered (P := P) hsender hbytes
        (hshort i) (by omega) (by omega) h.waiting
      refine ⟨impl', hexec impl' hturn, ?_, ?_, ?_, fun hfree => ?_⟩
      · obtain ⟨out, hone, rfl⟩ := Option.map_eq_some_iff.mp hturn
        exact receiveOne_distinct hone h.distinct
      · rw [hnumbers, waitingFor_append]
        exact hwaiting
      · rw [pushed_append h.exec hturn, if_pos hown, hqueue, List.drop_left, h.pushed, hnumbers,
          waitingFor_append]
        split_ifs with heq
        · rw [List.range_succ, List.map_append, heq]
          rfl
        · rw [List.append_nil]
      · rw [hnumbers] at hfree
        have hlow := (hfree.of_append.firstMissing).le (hfree _ i [] rfl)
        rw [hbuffer hlow, h.buffer hfree.of_append]
  · obtain ⟨impl', hturn⟩ := Option.isSome_iff_exists.mp (hx.2 hown)
    obtain ⟨hdistinct, hview⟩ := turn_unordered hturn h.distinct hx.1 hown
    have hnumbers : orderedNumbers s (turns ++ [x]) = orderedNumbers s turns := by
      rw [orderedNumbers_append]
      rcases hxa : x.arrival with _ | a
      · simp
      · rw [hxa] at hown
        simp at hown
        simp [hown]
    refine ⟨impl', hexec impl' hturn, hdistinct, ?_, ?_, ?_⟩
    · rw [hview, hnumbers]
      exact h.waiting
    · rw [pushed_append h.exec hturn, if_neg hown, List.append_nil, hnumbers]
      exact h.pushed
    · rw [hview, hnumbers]
      exact h.buffer

theorem orderedAfter_of_run {turns : List Turn} {rcv : Impl} (hn : n < 65535)
    (hdistinct : rcv.Distinct) (hfresh : (rcv.view s reliableOrdered.index).receiver = {})
    (hshort : ∀ i, (payload i).length ≤ MAX_PAYLOAD_SIZE)
    (hgenuine : ∀ a ∈ orderedArrivals s turns, ∃ i ≤ n, ∃ channel,
      a.bytes = orderedPacket channel (payload i) i)
    (hkeep : Run.Admits (turn P) (Undisturbed P s) rcv turns) :
    ∃ impl, OrderedAfter P s payload rcv turns impl := by
  induction turns using List.reverseRecOn with
  | nil =>
    have hstart : OrderedAt (rcv.view s reliableOrdered.index).receiver 0 := by
      rw [hfresh]
      exact ⟨rfl, fun _ => rfl⟩
    exact ⟨rcv, rfl, hdistinct, hstart, rfl, fun _ => by rw [hfresh]⟩
  | append_singleton turns x ih =>
    obtain ⟨hbefore, hlast⟩ := hkeep.append
    obtain ⟨impl, h⟩ := ih (fun a ha => hgenuine a (by
      simp only [orderedArrivals, List.filterMap_append, List.filter_append, List.mem_append]
      exact .inl ha)) hbefore
    exact h.step hn hshort hgenuine (hlast impl h.exec).1

/-- The numbers of some first turns are the given first numbers. -/
theorem orderedNumbers_prefix {turns : List Turn} {l : List ℕ} (h : l <+: orderedNumbers s turns) :
    ∃ before, before <+: turns ∧ orderedNumbers s before = l := by
  induction turns using List.reverseRecOn with
  | nil => exact ⟨[], List.prefix_refl _, (List.prefix_nil.mp h).symm⟩
  | append_singleton turns x ih =>
    rcases List.prefix_or_prefix_of_prefix h (orderedNumbers_append s turns x ▸
      List.prefix_append _ _) with hle | hge
    · obtain ⟨before, hbefore, heq⟩ := ih hle
      exact ⟨before, hbefore.trans (List.prefix_append _ _), heq⟩
    · by_cases heq : l = orderedNumbers s turns
      · exact ⟨turns, List.prefix_append _ _, heq.symm⟩
      · refine ⟨turns ++ [x], List.prefix_refl _, (h.eq_of_length_le ?_).symm⟩
        have hlen := hge.length_le
        have hne : (orderedNumbers s turns).length ≠ l.length := fun hlen' =>
          heq (hge.eq_of_length hlen').symm
        rw [orderedNumbers_append, List.length_append]
        rcases x.arrival with _ | a
        · simp at *
          omega
        · rw [Option.toList_some, List.filter_cons]
          split_ifs <;> simp <;> omega

end

/-- The packets 0 to `n` of an ordered channel arrive in whatever order, each at least once. After
every turn the run of messages from 0 that has arrived has been queued if and only if no packet
arrives ahead of a gap. -/
theorem reliableOrdered_gaps {P : Platform} {s : Address} {payload : ℕ → Bytes} {n : ℕ}
    {rcv : Impl} {turns : List Turn} (hn : n < 65535) (hdistinct : rcv.Distinct)
    (hfresh : (rcv.view s reliableOrdered.index).receiver = {})
    (hdatagrams : OrderedDatagrams s payload n turns)
    (hkeep : Run.Admits (turn P) (Undisturbed P s) rcv turns) :
    GapsFilled P s payload rcv turns ↔ GapFree (orderedNumbers s turns) := by
  have hrun : ∀ before, before <+: turns → ∃ impl, OrderedAfter P s payload rcv before impl := by
    rintro before ⟨after, rfl⟩
    refine orderedAfter_of_run hn hdistinct hfresh hdatagrams.short (fun a ha => ?_)
      hkeep.append.1
    apply hdatagrams.genuine a
    simp only [orderedArrivals, List.filterMap_append, List.filter_append, List.mem_append]
    exact .inl ha
  have hclosed : ∀ i ∈ orderedNumbers s turns, ∀ j < i, j ∈ orderedNumbers s turns := by
    intro i hi j hj
    obtain ⟨a, ha, rfl⟩ := List.mem_map.mp hi
    obtain ⟨i, hin, _, hbytes⟩ := hdatagrams.genuine a ha
    rw [number_orderedPacket (hdatagrams.short i) (by omega) hbytes] at hj
    exact hdatagrams.each j (by omega)
  rw [← firstMissing_always_iff hclosed]
  constructor
  · intro hfilled l hl
    obtain ⟨before, hbefore, rfl⟩ := orderedNumbers_prefix hl
    obtain ⟨impl, h⟩ := hrun before hbefore
    obtain ⟨-, k, -, hk, hpushed, -⟩ := hfilled before hbefore
    have hlen := congrArg List.length (h.pushed.symm.trans hpushed)
    simp at hlen
    rwa [hlen]
  · intro hall before hbefore
    obtain ⟨impl, h⟩ := hrun before hbefore
    have hprefix : orderedNumbers s before <+: orderedNumbers s turns := by
      obtain ⟨after, rfl⟩ := hbefore
      simp [orderedNumbers, orderedArrivals, List.filterMap_append]
    refine ⟨impl, _, h.exec, hall _ hprefix, h.pushed, ?_⟩
    have hfree : GapFree (orderedNumbers s before) := by
      obtain ⟨l, hl⟩ := hprefix
      have hwhole := (firstMissing_always_iff hclosed).mp hall
      rw [← hl] at hwhole
      exact hwhole.of_append
    rw [h.buffer hfree]
    exact fun p hp => absurd hp List.not_mem_nil

/-! ### Two executions -/

/-- The two messages of a sender. -/
def twoPayloads : ℕ → Bytes := fun i => if i = 0 then [7] else [8]

/-- Their packets arrive in the given order. -/
def orderedTurns (order : List ℕ) : List Turn :=
  order.map fun i => .receive ⟨World.localAddr .left, orderedPacket {} (twoPayloads i) i,
    World.goodEnv 1⟩

theorem orderedDatagrams_two {order : List ℕ} (horder : order = [0, 1] ∨ order = [1, 0]) :
    OrderedDatagrams (World.localAddr .left) twoPayloads 1 (orderedTurns order) where
  short i := by
    unfold twoPayloads
    split_ifs <;> decide
  genuine a ha := by
    have hmem := (List.mem_filter.mp ha).1
    rcases horder with rfl | rfl <;>
      simp [orderedTurns, Turn.arrival] at hmem <;> rcases hmem with rfl | rfl
    · exact ⟨0, by omega, {}, rfl⟩
    · exact ⟨1, by omega, {}, rfl⟩
    · exact ⟨1, by omega, {}, rfl⟩
    · exact ⟨0, by omega, {}, rfl⟩
  each i hi := by
    have hall : 0 ∈ orderedNumbers (World.localAddr .left) (orderedTurns order) ∧
        1 ∈ orderedNumbers (World.localAddr .left) (orderedTurns order) := by
      rcases horder with rfl | rfl <;> decide +kernel
    rcases Nat.le_one_iff_eq_zero_or_eq_one.mp hi with rfl | rfl
    · exact hall.1
    · exact hall.2

theorem undisturbed_orderedTurns {order : List ℕ} (horder : order = [0, 1] ∨ order = [1, 0]) :
    Run.Admits (turn World.maskedShift) (Undisturbed World.maskedShift (World.localAddr .left))
      ((World.connected World.localAddr).node .right) (orderedTurns order) := by
  apply Run.Admits.of_forall
  intro x hx impl
  have hown : x.arrival.any (ofOrdered (World.localAddr .left)) = true := by
    rcases horder with rfl | rfl <;> simp only [orderedTurns, List.map_cons, List.map_nil,
      List.mem_cons, List.not_mem_nil, or_false] at hx <;> rcases hx with rfl | rfl <;>
      decide +kernel
  obtain ⟨i, -, rfl⟩ := List.mem_map.mp hx
  exact ⟨trivial, fun hother => absurd hown hother⟩

theorem reliableOrdered_gaps_inOrder : GapsFilled World.maskedShift (World.localAddr .left)
    twoPayloads ((World.connected World.localAddr).node .right) (orderedTurns [0, 1]) := by
  have hnumbers : orderedNumbers (World.localAddr .left) (orderedTurns [0, 1]) = [0, 1] := by
    decide +kernel
  have hdistinct : ((World.connected World.localAddr).node .right).Distinct := List.nodup_singleton _
  refine (reliableOrdered_gaps (by decide) hdistinct rfl
    (orderedDatagrams_two (.inl rfl)) (undisturbed_orderedTurns (.inl rfl))).mpr ?_
  rw [hnumbers]
  intro before i after hsplit j hj
  rcases before with _ | ⟨b, _ | ⟨c, before⟩⟩ <;> simp at hsplit
  · omega
  · simp
    omega

/-- The second message arrives first: it is put into the buffer, and stays there. -/
theorem reliableOrdered_gaps_overtaken :
    OrderedDatagrams (World.localAddr .left) twoPayloads 1 (orderedTurns [1, 0]) ∧
    Run.Admits (turn World.maskedShift) (Undisturbed World.maskedShift (World.localAddr .left))
      ((World.connected World.localAddr).node .right) (orderedTurns [1, 0]) ∧
    ¬GapsFilled World.maskedShift (World.localAddr .left) twoPayloads
      ((World.connected World.localAddr).node .right) (orderedTurns [1, 0]) := by
  refine ⟨orderedDatagrams_two (.inr rfl), undisturbed_orderedTurns (.inr rfl), fun hfilled => ?_⟩
  obtain ⟨-, k, -, hk, hpushed, -⟩ := hfilled _ (List.prefix_refl _)
  have hnumbers : orderedNumbers (World.localAddr .left) (orderedTurns [1, 0]) = [1, 0] := by
    decide +kernel
  have honly : pushed World.maskedShift (ofOrdered (World.localAddr .left))
      ((World.connected World.localAddr).node .right) (orderedTurns [1, 0]) =
        [⟨World.localAddr .left, [7]⟩] := by
    decide +kernel
  have hlen := congrArg List.length (honly.symm.trans hpushed)
  simp at hlen
  rw [hnumbers, ← hlen] at hk
  exact hk.missing (by decide)

end CampelloNet.Transport.Udp
