import CampelloNet.Transport.Udp.World

/-!
# Fragments of one ReliableOrdered message

All fragments of a message carry the message's number, and the gate of the ReliableOrdered channel
takes a number once. The first fragment moves `remote_seq` to the number, so that the gate refuses
every fragment after it, and what the first fragment makes of the reassembly table decides whether
the message is received. That table is searched by address and number, not by channel: only a
leftover of another channel under the same number, complete but for its first slot, is completed by
the first fragment (`reliableOrdered_fragments`). A new assembly is not
(`reliableOrdered_fragments_lost`).
-/

namespace CampelloNet.Transport.Udp

open Lib PacketReliability

/-! ### What the sender hands to the network -/

theorem sendRaw_of_accepting {io : Io} (hopen : io.socketOpen = true)
    (hsendto : ∀ d, io.sendto d = true) (dest : Address) (hdr : PacketHeader) {payload : Bytes}
    (hlen : payload.length ≤ MAX_PAYLOAD_SIZE) :
    sendRaw io dest hdr payload = some ⟨dest, hdr.serialize ++ payload⟩ := by
  have hfit : ¬PacketHeader.SIZE + payload.length > MAX_PACKET_SIZE := by
    unfold MAX_PAYLOAD_SIZE MAX_PACKET_SIZE PacketHeader.SIZE at *
    omega
  unfold sendRaw
  rw [if_neg (by rw [hopen]; decide), if_neg hfit, if_pos (hsendto _)]

theorem length_fragmentOf_le (data : Bytes) (i : Nat) :
    (fragmentOf data i).length ≤ MAX_PAYLOAD_SIZE := by
  unfold fragmentOf
  exact List.length_take_le _ _

theorem fragmentOf_zero_ne_self {data : Bytes} (h : MAX_PAYLOAD_SIZE < data.length) :
    fragmentOf data 0 ≠ data := by
  intro heq
  have := length_fragmentOf_le data 0
  rw [heq] at this
  omega

/-- A message that takes more than one packet and that `send_to_connection` accepts. -/
theorem numFragments_bounds {data : Bytes} (hlong : MAX_PAYLOAD_SIZE < data.length)
    (hmax : data.length ≤ 255 * MAX_PAYLOAD_SIZE) :
    1 < numFragments data ∧ numFragments data ≤ 255 := by
  unfold numFragments MAX_PAYLOAD_SIZE MAX_PACKET_SIZE PacketHeader.SIZE at *
  omega

/-- The header of fragment `i` of a ReliableOrdered message under the acknowledgement of
`channel`. -/
def orderedFragment (data : Bytes) (sequence : UInt16) (channel : Channel) (i : Nat) :
    PacketHeader :=
  fragmentHeader reliableOrdered.index channel sequence i (numFragments data)
    (fragmentOf data i).length

def fragmentBytes (data : Bytes) (sequence : UInt16) (channel : Channel) (i : Nat) : Bytes :=
  (orderedFragment data sequence channel i).serialize ++ fragmentOf data i

theorem sendFragments_ordered {io : Io} (hopen : io.socketOpen = true)
    (hsendto : ∀ d, io.sendto d = true) (base : UInt16) (data : Bytes) (is : List Nat)
    (conn : Connection) :
    (sendFragments io reliableOrdered base data is conn).2 =
      (is.map fun i => ⟨conn.address,
        fragmentBytes data base (conn.channels reliableOrdered.index) i⟩, true) := by
  induction is generalizing conn with
  | nil => rfl
  | cons i is ih =>
    have hrel : reliableOrdered.isReliable = true := rfl
    unfold sendFragments
    rw [if_pos hrel]
    dsimp only
    rw [if_neg (by decide),
      sendRaw_of_accepting hopen hsendto _ _ (length_fragmentOf_le data i)]
    obtain ⟨hds, hok⟩ := Prod.ext_iff.mp (ih { conn with lastSendTime := io.now })
    dsimp only at hds hok ⊢
    rw [hds, hok]
    rfl

/-- The datagrams of a fragmented message, in order. -/
theorem sendToConnection_fragments {io : Io} (hopen : io.socketOpen = true)
    (hsendto : ∀ d, io.sendto d = true) {conn : Connection} (hlive : conn.state ≠ .disconnecting)
    {data : Bytes} (hlong : MAX_PAYLOAD_SIZE < data.length)
    (hmax : data.length ≤ 255 * MAX_PAYLOAD_SIZE) (priority : UInt8) :
    ∃ channel, (sendToConnection io conn data reliableOrdered priority).2 =
      ((List.range (numFragments data)).map fun i => ⟨conn.address,
        fragmentBytes data (conn.channels reliableOrdered.index).localSeq channel i⟩, true) := by
  have hstate : ¬(conn.state ≠ .connected ∧ conn.state ≠ .connecting) := by
    rintro ⟨h, h'⟩
    rcases hc : conn.state with _ | _ | _
    · exact h' hc
    · exact h hc
    · exact hlive hc
  have hcount := (numFragments_bounds hlong hmax).2
  unfold sendToConnection
  rw [if_neg hstate]
  dsimp only
  rw [if_neg (not_le.mpr hlong), if_neg (not_lt.mpr hcount),
    sendFragments_ordered hopen hsendto]
  exact ⟨_, rfl⟩

/-! ### What the receiver makes of them -/

/-- What happens at a receiver: a datagram is taken from the socket, or a poll ends. -/
inductive Turn
  | receive (a : Arrival)
  | finish (env : Env) (t : Time)

/-- The datagram that a turn takes. -/
def Turn.arrival : Turn → Option Arrival
  | .receive a => some a
  | .finish _ _ => none

def turn (P : Platform) (impl : Impl) : Turn → Option Impl
  | .receive a => (receiveOne P impl a).map Prod.fst
  | .finish env t => some (finishPoll env t impl).1

/-- A poll is the turns of its receive loop, and then its end. -/
theorem exec_turn_poll (P : Platform) (env : Env) (t : Time) (arrivals : List Arrival) (impl : Impl)
    (hopen : impl.socketOpen = true) :
    (poll P env t arrivals impl).map Prod.fst =
      Run.exec (turn P) impl (arrivals.map Turn.receive ++ [.finish env t]) := by
  have hloop : ∀ impl : Impl, ((receiveLoop P impl arrivals).map fun out =>
      (finishPoll env t out.1).1) =
      Run.exec (turn P) impl (arrivals.map Turn.receive ++ [.finish env t]) := by
    intro impl
    induction arrivals generalizing impl with
    | nil => rfl
    | cons a arrivals ih =>
      rw [List.map_cons, List.cons_append, Run.exec, turn, receiveLoop]
      rcases receiveOne P impl a with _ | ⟨impl₁, ds⟩
      · rfl
      · rw [Option.map_some, Option.bind_some, ← ih impl₁]
        rcases hloop : receiveLoop P impl₁ arrivals with _ | ⟨impl₂, ds'⟩ <;> simp [hloop]
  rw [← hloop, poll, if_neg (by rw [hopen]; decide)]
  rcases receiveLoop P impl arrivals with _ | ⟨impl', ds⟩ <;> simp

/-- What is queued by the turns that take a datagram of the given kind. -/
def pushed (P : Platform) (own : Arrival → Bool) : Impl → List Turn → List ReceivedPacket
  | _, [] => []
  | impl, x :: turns =>
    match turn P impl x with
    | none => []
    | some impl' =>
      (if x.arrival.any own then impl'.receiveQueue.drop impl.receiveQueue.length else []) ++
        pushed P own impl' turns

theorem pushed_append {P : Platform} {own : Arrival → Bool} {turns : List Turn} {x : Turn}
    {rcv impl impl' : Impl}
    (hexec : Run.exec (turn P) rcv turns = some impl) (hturn : turn P impl x = some impl') :
    pushed P own rcv (turns ++ [x]) = pushed P own rcv turns ++
      if x.arrival.any own then impl'.receiveQueue.drop impl.receiveQueue.length else [] := by
  induction turns generalizing rcv with
  | nil =>
    cases hexec
    simp [pushed, hturn]
  | cons y turns ih =>
    obtain ⟨impl₁, hy, hrest⟩ := Option.bind_eq_some_iff.mp hexec
    rw [List.cons_append, pushed, pushed, hy]
    dsimp only
    rw [ih hrest, List.append_assoc]

/-- The end of a poll does not erase the connection with `s`. -/
def KeepsConnection (s : Address) (impl : Impl) : Turn → Prop
  | .receive _ => True
  | .finish env t =>
    (findConnection impl s).isSome → (findConnection (finishPoll env t impl).1 s).isSome

/-- The turns make the receiver queue the message from `s`, once and whole, and what is queued in
any turns after them is queued behind it. -/
def MessageReceived (P : Platform) (rcv : Impl) (turns : List Turn) (s : Address) (data : Bytes) :
    Prop :=
  ∃ rcv', Run.exec (turn P) rcv turns = some rcv' ∧
    rcv'.receiveQueue = rcv.receiveQueue ++ [⟨s, data⟩] ∧
    ∀ later rcv'', Run.exec (turn P) rcv' later = some rcv'' →
      ∃ more, rcv''.receiveQueue = rcv'.receiveQueue ++ more

/-- The reassembly table holds an assembly under the message's number that its first fragment
completes to the message. -/
def Completes (P : Platform) (rcv : Impl) (s : Address) (sequence : UInt16) (data : Bytes) : Prop :=
  ∃ fa rest, lookup FragmentAssembly.key (s, sequence) rcv.fragmentAssemblies = some fa ∧
    fa.fragments = [] :: rest ∧ fragmentOf data 0 ++ rest.flatten = data ∧
    (fa.receivedMask ||| 1).toUInt32 = P.oneShl (numFragments data) - 1

/-! ### One turn -/

/-- A payload is queued behind what is in the queue, or not at all. -/
theorem processPayload_queue {P : Platform} {now : Time} {impl impl' : Impl} {addr : Address}
    {hdr : PacketHeader} {payload : Bytes}
    (h : processPayload P now impl addr hdr payload = some impl') :
    ∃ more, impl'.receiveQueue = impl.receiveQueue ++ more := by
  have hnone : ∃ more, impl.receiveQueue = impl.receiveQueue ++ more :=
    ⟨[], (List.append_nil _).symm⟩
  unfold processPayload at h
  by_cases hcount : hdr.fragCount > 1
  · rw [if_pos hcount] at h
    dsimp only at h
    by_cases hindex : hdr.fragIndex = 0
    · rw [if_pos hindex] at h
      cases h
    · rw [if_neg hindex] at h
      split at h
      · cases h
      · cases h
        exact hnone
      · split at h <;> cases h
        · exact ⟨_, rfl⟩
        · exact hnone
  · rw [if_neg hcount] at h
    cases h
    exact ⟨_, rfl⟩

theorem turn_queue {P : Platform} {impl impl' : Impl} {x : Turn} (h : turn P impl x = some impl') :
    ∃ more, impl'.receiveQueue = impl.receiveQueue ++ more := by
  have hnone : ∃ more, impl.receiveQueue = impl.receiveQueue ++ more :=
    ⟨[], (List.append_nil _).symm⟩
  cases x with
  | finish env t =>
    cases h
    exact hnone
  | receive a =>
    obtain ⟨⟨impl₁, ds⟩, hone, rfl⟩ := Option.map_eq_some_iff.mp h
    rw [receiveOne_eq] at hone
    rcases hp : packet a.bytes with _ | ⟨hdr, payload⟩
    · rw [hp] at hone
      cases hone
      exact hnone
    · rw [hp] at hone
      by_cases hid : hdr.protocolId = PacketHeader.PROTOCOL_ID
      · obtain ⟨conn, -, -, rfl, -⟩ | ⟨-, channel, deliver, impl₂, -, rfl, hdel⟩ :=
          processPacket_cases hone hid
        · exact hnone
        · rcases hdel with ⟨-, hpay⟩ | ⟨-, rfl⟩
          · obtain ⟨more, hmore⟩ := processPayload_queue hpay
            exact ⟨more, hmore⟩
          · exact hnone
      · dsimp only at hone
        unfold processPacket at hone
        rw [if_pos hid] at hone
        cases hone
        exact hnone

/-- Turns only ever append to the queue. -/
theorem exec_turn_queue {P : Platform} {impl impl' : Impl} {turns : List Turn}
    (h : Run.exec (turn P) impl turns = some impl') :
    ∃ more, impl'.receiveQueue = impl.receiveQueue ++ more := by
  induction turns generalizing impl with
  | nil =>
    cases h
    exact ⟨[], (List.append_nil _).symm⟩
  | cons x turns ih =>
    obtain ⟨impl₁, h₁, h⟩ := Option.bind_eq_some_iff.mp h
    obtain ⟨more₁, hmore₁⟩ := turn_queue h₁
    obtain ⟨more₂, hmore₂⟩ := ih h
    exact ⟨more₁ ++ more₂, by rw [hmore₂, hmore₁, List.append_assoc]⟩

/-- The ordered gate on a fragment: it is taken with the expected number, and otherwise refused
without a trace. -/
theorem accept_fragment (receiver : Receiver) {hdr : PacketHeader} (payload : Bytes)
    (hrel : hdr.reliability = .reliableOrdered) (hcount : 1 < hdr.fragCount) :
    receiver.accept hdr payload =
      if hdr.sequence = receiver.remoteSeq + 1 then
        ({ receiver with
            remoteSeq := hdr.sequence, ackBits := (receiver.ackBits <<< 1) ||| 1 }, true)
      else (receiver, false) := by
  have hbuf : ¬(hdr.fragCount ≤ 1 ∧ ∀ p ∈ receiver.receiveBuffer, p.sequence ≠ hdr.sequence) :=
    fun h => absurd h.1 (UInt8.not_le.mpr hcount)
  unfold Receiver.accept acceptPacket
  rw [hrel]
  dsimp only
  by_cases heq : hdr.sequence = receiver.remoteSeq + 1
  · rw [if_pos heq, if_pos heq]
    rfl
  · rw [if_neg heq, if_neg heq]
    by_cases hgt : hdr.sequence > receiver.remoteSeq + 1
    · rw [if_pos hgt, if_neg hbuf]
      rfl
    · rw [if_neg hgt]
      rfl

/-- The number that the ordered gate for packets from `s` takes next. -/
def Impl.expected (impl : Impl) (s : Address) : UInt16 :=
  (impl.view s reliableOrdered.index).receiver.remoteSeq + 1

section
variable {P : Platform} {impl : Impl} {data : Bytes} {sequence : UInt16}

/-- A datagram from `s` that carries a fragment of the message. -/
structure FragmentArrival (s : Address) (data : Bytes) (sequence : UInt16) (a : Arrival) : Prop where
  sender : a.sender = s
  bytes : ∃ channel i, a.bytes = fragmentBytes data sequence channel i

/-- A fragment goes through the gate of its sender's ordered channel. -/
theorem receiveOne_fragment (P : Platform) (impl : Impl) {a : Arrival} {channel : Channel} {i : Nat}
    (hmany : 1 < numFragments data) (hfew : numFragments data ≤ 255)
    (hbytes : a.bytes = fragmentBytes data sequence channel i) :
    ∃ impl₁, impl₁.receiveQueue = impl.receiveQueue ∧
      impl₁.fragmentAssemblies = impl.fragmentAssemblies ∧
      if sequence = impl.expected a.sender then
        impl₁.expected a.sender = sequence + 1 ∧
        receiveOne P impl a = (processPayload P a.env.now impl₁ a.sender
          (orderedFragment data sequence channel i) (fragmentOf data i)).map fun impl => (impl, [])
      else
        impl₁.expected a.sender = impl.expected a.sender ∧
        receiveOne P impl a = some (impl₁, []) := by
  have hch : (orderedFragment data sequence channel i).channel = reliableOrdered.index :=
    channel_fragmentHeader _ _ _ _ _ _
  have hcount : 1 < (orderedFragment data sequence channel i).fragCount := by
    show 1 < UInt8.ofNat (numFragments data)
    rw [UInt8.lt_iff_toNat_lt, UInt8.toNat_ofNat']
    show 1 < numFragments data % 256
    omega
  have haccept : (impl.view a.sender reliableOrdered.index).receiver.accept
      (orderedFragment data sequence channel i) (fragmentOf data i) =
      if sequence = impl.expected a.sender then
        ({ (impl.view a.sender reliableOrdered.index).receiver with
            remoteSeq := sequence
            ackBits := ((impl.view a.sender reliableOrdered.index).receiver.ackBits <<< 1) ||| 1 },
          true)
      else ((impl.view a.sender reliableOrdered.index).receiver, false) :=
    accept_fragment _ _ (reliability_fragmentHeader _ _ _ _ _ _) hcount
  have hrel : (PacketReliability.ofIndex
      (orderedFragment data sequence channel i).channel).isReliable = true := by
    rw [hch]
    rfl
  obtain ⟨hview, hdel⟩ := view_putConnection_accept a.env impl a.sender (fragmentOf data i) hrel
  rw [hch] at hview hdel
  have hone := processPacket_data P a.env impl a.sender (fragmentOf data i)
    (rfl : (orderedFragment data sequence channel i).protocolId = _)
    (rfl : _ = PacketType.fragment.toUInt8) (.inr rfl)
  rw [hch] at hone
  dsimp only at hone
  -- the connection that is written back, whatever it is
  generalize (ackedConnection a.env impl a.sender (orderedFragment data sequence channel i)).setChannel
    reliableOrdered.index _ = conn at hview hone
  refine ⟨putConnection impl conn, rfl, rfl, ?_⟩
  rw [receiveOne_eq, hbytes, fragmentBytes, packet_serialize_append _ (length_fragmentOf_le data i)]
  dsimp only
  rw [hone, hdel, haccept]
  by_cases hexp : sequence = impl.expected a.sender
  · rw [if_pos hexp] at haccept
    rw [if_pos hexp, if_pos hexp]
    refine ⟨?_, rfl⟩
    rw [Impl.expected, hview]
    dsimp only
    rw [haccept]
  · rw [if_neg hexp] at haccept
    rw [if_neg hexp, if_neg hexp]
    refine ⟨?_, rfl⟩
    rw [Impl.expected, hview]
    dsimp only
    rw [haccept]
    rfl

theorem receiveOne_distinct {a : Arrival} {out : Impl × List Datagram}
    (h : receiveOne P impl a = some out) (hdistinct : impl.Distinct) : out.1.Distinct := by
  rw [receiveOne_eq] at h
  rcases hp : packet a.bytes with _ | ⟨hdr, payload⟩
  · rw [hp] at h
    cases h
    exact hdistinct
  · rw [hp] at h
    exact (processPacket_frame h).distinct hdistinct

/-- A turn with a fragment that is not expected, or without a packet, queues nothing. -/
theorem turn_refused (P : Platform) {s : Address} {x : Turn} (hmany : 1 < numFragments data)
    (hfew : numFragments data ≤ 255) (hdistinct : impl.Distinct)
    (hexp : impl.expected s ≠ sequence) (hkeep : KeepsConnection s impl x)
    (hx : ∀ a ∈ x.arrival, FragmentArrival s data sequence a) :
    ∃ impl', turn P impl x = some impl' ∧ impl'.Distinct ∧
      impl'.receiveQueue = impl.receiveQueue ∧ impl'.expected s = impl.expected s := by
  cases x with
  | finish env t =>
    have hquiet := finishPoll_quiet env t hdistinct s hkeep
    refine ⟨_, rfl, (finishPoll_ok env t hdistinct).distinct, rfl, ?_⟩
    rw [Impl.expected, hquiet.view, Impl.expected]
  | receive a =>
    obtain ⟨rfl, channel, i, hbytes⟩ := hx a rfl
    obtain ⟨impl₁, hqueue, -, h⟩ := receiveOne_fragment P impl hmany hfew hbytes
    rw [if_neg (Ne.symm hexp)] at h
    refine ⟨impl₁, ?_, receiveOne_distinct h.2 hdistinct, hqueue, h.1⟩
    rw [turn, h.2]
    rfl

/-- Once its number is not expected, no fragment of the message has any effect on the queue. -/
theorem exec_turn_refused {s : Address} {turns : List Turn} (hmany : 1 < numFragments data)
    (hfew : numFragments data ≤ 255) (hdistinct : impl.Distinct)
    (hexp : impl.expected s ≠ sequence)
    (hkeep : Run.Admits (turn P) (KeepsConnection s) impl turns)
    (hturns : ∀ a ∈ turns.filterMap Turn.arrival, FragmentArrival s data sequence a) :
    ∃ impl', Run.exec (turn P) impl turns = some impl' ∧
      impl'.receiveQueue = impl.receiveQueue := by
  induction turns generalizing impl with
  | nil => exact ⟨impl, rfl, rfl⟩
  | cons x turns ih =>
    obtain ⟨impl₁, hturn, hdistinct₁, hqueue₁, hexp₁⟩ := turn_refused P hmany hfew hdistinct hexp
      hkeep.1 fun a ha => hturns a (List.mem_filterMap.mpr ⟨x, List.mem_cons_self, ha⟩)
    obtain ⟨impl', hexec, hqueue⟩ := ih hdistinct₁ (by rwa [hexp₁]) (hkeep.2 impl₁ hturn)
      fun a ha => by
        obtain ⟨y, hy, hya⟩ := List.mem_filterMap.mp ha
        exact hturns a (List.mem_filterMap.mpr ⟨y, List.mem_cons_of_mem _ hy, hya⟩)
    refine ⟨impl', ?_, hqueue.trans hqueue₁⟩
    rw [Run.exec, hturn, Option.bind_some, hexec]

/-- The first fragment of a message goes into the first slot of its assembly, if that is empty, and
the assembly is queued if that completes it. -/
theorem processPayload_slot (P : Platform) (impl : Impl) (now : Time) (s : Address) (payload : Bytes)
    {hdr : PacketHeader} {fa : FragmentAssembly} (hcount : 1 < hdr.fragCount)
    (hindex : hdr.fragIndex = 1)
    (hfa : findOrCreateFragmentAssembly impl now s hdr.sequence hdr.fragCount = fa) (data : Bytes) :
    (∃ impl', processPayload P now impl s hdr payload = some impl' ∧
      impl'.receiveQueue = impl.receiveQueue ++ [⟨s, data⟩]) ↔
    ∃ rest, fa.fragments = [] :: rest ∧ payload ++ rest.flatten = data ∧
      (fa.receivedMask ||| 1).toUInt32 = P.oneShl hdr.fragCount.toNat - 1 := by
  have hsame : impl.receiveQueue ≠ impl.receiveQueue ++ [⟨s, data⟩] := by simp
  have hshl : (P.oneShl (1 - 1)).toUInt8 = 1 := rfl
  unfold processPayload
  rw [if_pos hcount]
  dsimp only
  rw [hfa, hindex, if_neg (by decide)]
  obtain ⟨address, baseSequence, fragCount, receivedMask, startTime, fragments⟩ := fa
  rcases fragments with _ | ⟨_ | ⟨b, bs⟩, rest⟩
  · constructor
    · rintro ⟨impl', h, -⟩
      cases h
    · rintro ⟨rest, h, -⟩
      cases h
  · show (∃ impl', (if (receivedMask ||| 1).toUInt32 = P.oneShl hdr.fragCount.toNat - 1 then
      some _ else some _) = some impl' ∧ _) ↔ _
    by_cases hmask : (receivedMask ||| 1).toUInt32 = P.oneShl hdr.fragCount.toNat - 1
    · rw [if_pos hmask]
      constructor
      · rintro ⟨impl', h, hq⟩
        cases h
        have hdata : (payload :: rest).flatten = data := by
          have := List.append_cancel_left hq
          simpa using this
        exact ⟨rest, rfl, hdata, hmask⟩
      · rintro ⟨rest', h, hdata, -⟩
        cases h
        subst hdata
        exact ⟨_, rfl, rfl⟩
    · rw [if_neg hmask]
      constructor
      · rintro ⟨impl', h, hq⟩
        cases h
        exact absurd hq hsame
      · rintro ⟨rest', -, -, h⟩
        exact absurd h hmask
  · constructor
    · rintro ⟨impl', h, hq⟩
      cases h
      exact absurd hq hsame
    · rintro ⟨rest', h, -⟩
      cases h

/-- What the first fragment of a message makes of the queue. -/
theorem processPayload_first (P : Platform) (impl : Impl) (now : Time) (s : Address)
    (channel : Channel) (hmany : 1 < numFragments data) (hfew : numFragments data ≤ 255)
    (hlong : MAX_PAYLOAD_SIZE < data.length) :
    (∃ impl', processPayload P now impl s (orderedFragment data sequence channel 0)
        (fragmentOf data 0) = some impl' ∧
      impl'.receiveQueue = impl.receiveQueue ++ [⟨s, data⟩]) ↔
      Completes P impl s sequence data := by
  have hcount : (orderedFragment data sequence channel 0).fragCount.toNat = numFragments data := by
    show (UInt8.ofNat (numFragments data)).toNat = numFragments data
    rw [UInt8.toNat_ofNat']
    show numFragments data % 256 = numFragments data
    omega
  have hgt : 1 < (orderedFragment data sequence channel 0).fragCount := by
    rw [UInt8.lt_iff_toNat_lt, hcount]
    exact hmany
  have hslot := processPayload_slot P impl now s (fragmentOf data 0) hgt rfl rfl data
  rw [hslot, hcount]
  rcases hl : lookup FragmentAssembly.key (s, sequence) impl.fragmentAssemblies with _ | fa
  · -- a new assembly: its other slots are empty, and the first fragment is not the message
    have hnew : findOrCreateFragmentAssembly impl now s
        (orderedFragment data sequence channel 0).sequence
        (orderedFragment data sequence channel 0).fragCount =
        ⟨s, sequence, UInt8.ofNat (numFragments data), 0, now,
          List.replicate (orderedFragment data sequence channel 0).fragCount.toNat []⟩ := by
      unfold findOrCreateFragmentAssembly
      rw [show (orderedFragment data sequence channel 0).sequence = sequence from rfl, hl]
      rfl
    rw [hnew, hcount]
    constructor
    · rintro ⟨rest, hrest, hdata, -⟩
      have hflat : rest.flatten = [] := by
        refine List.flatten_eq_nil_iff.mpr fun l hl => ?_
        have hmem : l ∈ List.replicate (numFragments data) ([] : Bytes) := by
          rw [show List.replicate (numFragments data) [] = [] :: rest from hrest]
          exact List.mem_cons_of_mem _ hl
        exact List.eq_of_mem_replicate hmem
      rw [hflat, List.append_nil] at hdata
      exact absurd hdata (fragmentOf_zero_ne_self hlong)
    · rintro ⟨fa, rest, h, -⟩
      rw [hl] at h
      cases h
  · have hold : findOrCreateFragmentAssembly impl now s
        (orderedFragment data sequence channel 0).sequence
        (orderedFragment data sequence channel 0).fragCount = fa := by
      unfold findOrCreateFragmentAssembly
      rw [show (orderedFragment data sequence channel 0).sequence = sequence from rfl, hl]
      rfl
    rw [hold]
    constructor
    · rintro ⟨rest, h⟩
      exact ⟨fa, rest, hl, h⟩
    · rintro ⟨fa', rest, h', h⟩
      rw [hl] at h'
      cases h'
      exact ⟨rest, h⟩

end

/-! ### A whole message -/

section
variable {P : Platform} {rcv : Impl} {s : Address} {first : Arrival} {rest : List Turn}
  {data : Bytes} {sequence : UInt16}

/-- After its first fragment a message's number is not expected, whatever was expected before. -/
theorem expected_ne_of_first {impl : Impl} {channel : Channel} (hmany : 1 < numFragments data)
    (hfew : numFragments data ≤ 255) (hbytes : first.bytes = fragmentBytes data sequence channel 0)
    (hturn : turn P rcv (.receive first) = some impl) : impl.expected first.sender ≠ sequence := by
  obtain ⟨⟨impl', ds⟩, hone, rfl⟩ := Option.map_eq_some_iff.mp hturn
  obtain ⟨impl₁, -, -, h⟩ := receiveOne_fragment P rcv hmany hfew hbytes
  by_cases hexp : sequence = rcv.expected first.sender
  · rw [if_pos hexp, hone] at h
    obtain ⟨impl₂, hpay, heq⟩ := Option.map_eq_some_iff.mp h.2.symm
    cases heq
    have hconn : impl'.expected first.sender = impl₁.expected first.sender := by
      rw [Impl.expected, Impl.view, Impl.conn, findConnection, (processPayload_frame hpay).1]
      rfl
    rw [hconn, h.1]
    intro hself
    have hnat := congrArg UInt16.toNat hself
    rw [UInt16.toNat_add] at hnat
    have hlt := sequence.toNat_lt
    change (sequence.toNat + 1) % 2 ^ 16 = sequence.toNat at hnat
    omega
  · rw [if_neg hexp, hone] at h
    cases h.2
    rw [h.1]
    exact Ne.symm hexp

/-- The first fragment alone decides whether a message is received. -/
theorem messageReceived_iff_first {channel : Channel} (hmany : 1 < numFragments data)
    (hfew : numFragments data ≤ 255) (hdistinct : rcv.Distinct)
    (hbytes : first.bytes = fragmentBytes data sequence channel 0)
    (hkeep : Run.Admits (turn P) (KeepsConnection first.sender) rcv (.receive first :: rest))
    (hrest : ∀ a ∈ rest.filterMap Turn.arrival, FragmentArrival first.sender data sequence a) :
    MessageReceived P rcv (.receive first :: rest) first.sender data ↔
      ∃ impl, turn P rcv (.receive first) = some impl ∧
        impl.receiveQueue = rcv.receiveQueue ++ [⟨first.sender, data⟩] := by
  have hthen : ∀ impl, turn P rcv (.receive first) = some impl →
      ∃ rcv', Run.exec (turn P) rcv (.receive first :: rest) = some rcv' ∧
        rcv'.receiveQueue = impl.receiveQueue := by
    intro impl hturn
    obtain ⟨out, hone, rfl⟩ := Option.map_eq_some_iff.mp hturn
    obtain ⟨rcv', hexec, hqueue⟩ := exec_turn_refused hmany hfew
      (receiveOne_distinct hone hdistinct) (expected_ne_of_first hmany hfew hbytes hturn)
      (hkeep.2 _ hturn) hrest
    refine ⟨rcv', ?_, hqueue⟩
    rw [Run.exec, hturn, Option.bind_some, hexec]
  constructor
  · rintro ⟨rcv', hexec, hqueue, -⟩
    obtain ⟨impl, hturn, -⟩ := Option.bind_eq_some_iff.mp hexec
    obtain ⟨rcv'', hexec', hqueue'⟩ := hthen impl hturn
    rw [hexec] at hexec'
    cases hexec'
    exact ⟨impl, hturn, hqueue'.symm.trans hqueue⟩
  · rintro ⟨impl, hturn, hqueue⟩
    obtain ⟨rcv', hexec, hqueue'⟩ := hthen impl hturn
    exact ⟨rcv', hexec, hqueue'.trans hqueue, fun later rcv'' h => exec_turn_queue h⟩

end

/-- A message of more than one packet is received if and only if its number is the expected one and
its first fragment completes an assembly that some other channel left under this number. The turns
are those of any polls that keep the connection; `again` are fragments that are sent again. -/
theorem reliableOrdered_fragments {P : Platform} (io : Io) (conn : Connection) {data : Bytes}
    (priority : UInt8) {rcv : Impl} {s : Address} {first : Arrival} {rest : List Turn}
    (again : List Bytes) (hopen : io.socketOpen = true) (hsendto : ∀ d, io.sendto d = true)
    (hlive : conn.state ≠ .disconnecting) (hlong : MAX_PAYLOAD_SIZE < data.length)
    (hmax : data.length ≤ 255 * MAX_PAYLOAD_SIZE) (hdistinct : rcv.Distinct)
    (hkeep : Run.Admits (turn P) (KeepsConnection s) rcv (.receive first :: rest))
    (hsender : ∀ a ∈ first :: rest.filterMap Turn.arrival, a.sender = s)
    (hdelivered : (first :: rest.filterMap Turn.arrival).map Arrival.bytes =
      (sendToConnection io conn data reliableOrdered priority).2.1.map Datagram.bytes ++ again)
    (hagain : ∀ bytes ∈ again, ∃ channel i,
      bytes = fragmentBytes data (conn.channels reliableOrdered.index).localSeq channel i) :
    MessageReceived P rcv (.receive first :: rest) s data ↔
      rcv.expected s = (conn.channels reliableOrdered.index).localSeq ∧
        Completes P rcv s (conn.channels reliableOrdered.index).localSeq data := by
  obtain ⟨hmany, hfew⟩ := numFragments_bounds hlong hmax
  obtain ⟨channel, hsent⟩ := sendToConnection_fragments hopen hsendto hlive hlong hmax priority
  generalize (conn.channels reliableOrdered.index).localSeq = sequence at *
  rw [hsent, List.map_map] at hdelivered
  -- every arrival carries a fragment, and the first one the first fragment
  have harrival : ∀ a ∈ first :: rest.filterMap Turn.arrival, FragmentArrival s data sequence a := by
    intro a ha
    refine ⟨hsender a ha, ?_⟩
    have hmem := List.mem_map_of_mem (f := Arrival.bytes) ha
    rw [hdelivered] at hmem
    rcases List.mem_append.mp hmem with hmem | hmem
    · obtain ⟨i, -, hi⟩ := List.mem_map.mp hmem
      exact ⟨channel, i, hi.symm⟩
    · exact hagain _ hmem
  have hbytes : first.bytes = fragmentBytes data sequence channel 0 := by
    obtain ⟨n, hn⟩ : ∃ n, numFragments data = n + 1 := ⟨numFragments data - 1, by omega⟩
    rw [hn, List.range_succ_eq_map, List.map_cons, List.map_cons, List.cons_append] at hdelivered
    exact (List.cons.inj hdelivered).1
  obtain rfl := hsender first List.mem_cons_self
  rw [messageReceived_iff_first hmany hfew hdistinct hbytes hkeep fun a ha =>
    harrival a (List.mem_cons_of_mem _ ha)]
  obtain ⟨impl₁, hqueue, htable, h⟩ := receiveOne_fragment P rcv hmany hfew hbytes
  have hcompletes : Completes P impl₁ first.sender sequence data ↔
      Completes P rcv first.sender sequence data := by
    unfold Completes
    rw [htable]
  rw [turn, ← hcompletes,
    ← processPayload_first P impl₁ first.env.now first.sender channel hmany hfew hlong, hqueue]
  by_cases hexp : sequence = rcv.expected first.sender
  · rw [if_pos hexp] at h
    rw [h.2]
    constructor
    · rintro ⟨impl, himpl, hq⟩
      rw [Option.map_map] at himpl
      obtain ⟨impl₂, hpay, rfl⟩ := Option.map_eq_some_iff.mp himpl
      exact ⟨hexp.symm, impl₂, hpay, hq⟩
    · rintro ⟨-, impl₂, hpay, hq⟩
      refine ⟨impl₂, ?_, hq⟩
      rw [hpay]
      rfl
  · rw [if_neg hexp] at h
    rw [h.2]
    constructor
    · rintro ⟨impl, himpl, hq⟩
      cases himpl
      rw [hqueue] at hq
      simp at hq
    · rintro ⟨heq, -⟩
      exact absurd heq.symm hexp

/-! ### Two executions -/

/-- A message of one byte more than a packet takes. -/
def longMessage : Bytes := List.replicate 1185 7

/-- The left end sends it to the right. -/
def longMessageSent : Connection × List Datagram × Bool :=
  sendToConnection (((World.connected World.localAddr).node .left).io (World.goodEnv 1))
    { address := World.localAddr .right, state := .connected } longMessage reliableOrdered 0

/-- The network delivers one of its fragments to the right end. -/
def longMessageArrival (i : Nat) : Arrival :=
  ⟨World.localAddr .left, fragmentBytes longMessage 0 {} i, World.goodEnv 1⟩

def longMessageTurns : List Turn := [.receive (longMessageArrival 0), .receive (longMessageArrival 1)]

/-- The right end, with the second fragment of the message left by another channel. -/
def leftover : Impl :=
  { (World.connected World.localAddr).node .right with
    fragmentAssemblies :=
      [⟨World.localAddr .left, 0, 2, 2, 1, [[], fragmentOf longMessage 1]⟩] }

theorem reliableOrdered_fragments_leftover :
    MessageReceived World.maskedShift leftover longMessageTurns (World.localAddr .left)
      longMessage := by
  have hdistinct : leftover.Distinct := List.nodup_singleton _
  have hkeep : Run.Admits (turn World.maskedShift) (KeepsConnection (World.localAddr .left)) leftover
      longMessageTurns := ⟨trivial, fun _ _ => ⟨trivial, fun _ _ => trivial⟩⟩
  refine (reliableOrdered_fragments
    (((World.connected World.localAddr).node .left).io (World.goodEnv 1))
    { address := World.localAddr .right, state := .connected } 0 [] rfl (fun _ => rfl) (by decide)
    (by decide +kernel) (by decide +kernel) hdistinct hkeep (by decide +kernel) (by decide +kernel)
    fun _ h => absurd h List.not_mem_nil).mpr ⟨by decide, ?_⟩
  exact ⟨_, _, rfl, rfl, by decide +kernel, by decide +kernel⟩

theorem reliableOrdered_fragments_lost :
    longMessageSent.2 =
      ([⟨World.localAddr .right, (longMessageArrival 0).bytes⟩,
        ⟨World.localAddr .right, (longMessageArrival 1).bytes⟩], true) ∧
    MAX_PAYLOAD_SIZE < longMessage.length ∧ longMessage.length ≤ 255 * MAX_PAYLOAD_SIZE ∧
    ¬MessageReceived World.maskedShift ((World.connected World.localAddr).node .right)
      longMessageTurns (World.localAddr .left) longMessage := by
  have hqueue : (Run.exec (turn World.maskedShift) ((World.connected World.localAddr).node .right)
      longMessageTurns).map Impl.receiveQueue = some [] := by
    decide +kernel
  refine ⟨by decide +kernel, by decide +kernel, by decide +kernel, ?_⟩
  rintro ⟨rcv', hexec, hq, -⟩
  rw [hexec, Option.map_some, hq] at hqueue
  exact absurd (Option.some.inj hqueue) (by decide)

end CampelloNet.Transport.Udp
