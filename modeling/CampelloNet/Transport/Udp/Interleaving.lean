import CampelloNet.Transport.Udp.Reassembly
import CampelloNet.Transport.Udp.UnreliableSequenced

/-!
# Fragments of two messages

Sequence numbers are counted by channel, but the reassembly table is searched by sender and number
alone: two messages of one connection that have the same number on different channels share an
assembly. Two messages whose fragments arrive in whatever order are both put together, and not mixed,
exactly if their numbers differ and the gates of their channels let all fragments through
(`fragments_apart`).
-/

namespace CampelloNet.Transport.Udp

open Lib PacketReliability Reassembly

/-- A message of two to eight fragments that `send_to_connection` has handed to the network. -/
structure Outgoing where
  io : Io
  conn : Connection
  data : Bytes
  reliability : PacketReliability
  priority : UInt8
  after : Connection
  datagrams : List Datagram
  sent : sendToConnection io conn data reliability priority = (after, datagrams, true)
  long : MAX_PAYLOAD_SIZE < data.length
  few : numFragments data ≤ 8

/-- The datagram is a fragment from `s` under the given number, on channel `r`. -/
def ofChannel (s : Address) (r : PacketReliability) (sequence : UInt16) (a : Arrival) : Bool :=
  ofMessage s sequence a && (packet a.bytes).any fun p => p.1.channel = r.index

namespace Outgoing

variable (m : Outgoing)

def channel : Channel := m.conn.channels m.reliability.index

def sequence : UInt16 := m.channel.localSeq

def packet (i : ℕ) : Bytes := fragmentPacket m.reliability m.data m.sequence m.channel i

def owns (s : Address) : Arrival → Bool := ofChannel s m.reliability m.sequence

/-- The fragments of the message, as they arrive. -/
def arrivals (s : Address) (turns : List Turn) : List Arrival :=
  (turns.filterMap Turn.arrival).filter (m.owns s)

/-- The datagrams of the message arrive from `s`, each once, in any order and within two seconds. -/
structure Arrives (s : Address) (turns : List Turn) : Prop where
  once : ((m.arrivals s turns).map Arrival.bytes).Perm (m.datagrams.map Datagram.bytes)
  window : ∀ before env t after, turns = before ++ .finish env t :: after →
    m.arrivals s after ≠ [] → ∀ a ∈ m.arrivals s before, t - a.env.now ≤ 2

theorem datagrams_eq : m.datagrams = (List.range (numFragments m.data)).map fun i =>
    ⟨m.conn.address, m.packet i⟩ := (sendToConnection_sent m.long m.sent).2

theorem many : 1 < numFragments m.data := by
  have hlong := m.long
  unfold numFragments MAX_PAYLOAD_SIZE MAX_PACKET_SIZE PacketHeader.SIZE at *
  omega

end Outgoing

/-- A fragment of one of the two messages. -/
def ofEither (s : Address) (m m' : Outgoing) (a : Arrival) : Bool := m.owns s a || m'.owns s a

/-- The datagrams of both messages arrive, each once, in any order and among whatever else arrives.
Nothing else arrives under their numbers, and nothing else that arrives has no defined result. -/
structure BothArrive (P : Platform) (s : Address) (m m' : Outgoing) (rcv : Impl) (turns : List Turn) :
    Prop where
  first : m.Arrives s turns
  second : m'.Arrives s turns
  alone : ∀ a ∈ turns.filterMap Turn.arrival,
    ofMessage s m.sequence a ∨ ofMessage s m'.sequence a → ofEither s m m' a
  others : Run.Admits (turn P) (fun impl x => ¬x.arrival.any (ofEither s m m') →
    (turn P impl x).isSome) rcv turns

/-- What the fragments of the two messages make the receiver queue is the two messages, each once and
whole. -/
def BothReassembled (P : Platform) (s : Address) (m m' : Outgoing) (rcv : Impl) (turns : List Turn) :
    Prop :=
  (Run.exec (turn P) rcv turns).isSome ∧
    (pushed P (ofEither s m m') rcv turns).Perm [⟨s, m.data⟩, ⟨s, m'.data⟩]

section
variable {P : Platform} {s : Address} {m m' : Outgoing} {impl impl' rcv : Impl} {turns : List Turn}

/-! ### Different numbers -/

theorem ownPushes_eq (s : Address) (sequence : UInt16) (impl : Impl) (turns : List Turn) :
    ownPushes P s sequence impl turns = pushed P (ofMessage s sequence) impl turns := by
  induction turns generalizing impl with
  | nil => rfl
  | cons x turns ih =>
    unfold ownPushes pushed
    rcases turn P impl x with _ | impl'
    · rfl
    · dsimp only
      rw [ih]

theorem pushed_congr {own own' : Arrival → Bool}
    (h : ∀ a ∈ turns.filterMap Turn.arrival, own a = own' a) :
    pushed P own impl turns = pushed P own' impl turns := by
  induction turns generalizing impl with
  | nil => rfl
  | cons x turns ih =>
    unfold pushed
    rcases turn P impl x with _ | impl'
    · rfl
    · dsimp only
      have hx : x.arrival.any own = x.arrival.any own' := by
        rcases hxa : x.arrival with _ | a
        · rfl
        · exact h a (List.mem_filterMap.mpr ⟨x, List.mem_cons_self, hxa⟩)
      rw [hx, ih fun a ha => h a (by
        obtain ⟨y, hy, hya⟩ := List.mem_filterMap.mp ha
        exact List.mem_filterMap.mpr ⟨y, List.mem_cons_of_mem _ hy, hya⟩)]

theorem pushed_either {own own' : Arrival → Bool}
    (h : ∀ a ∈ turns.filterMap Turn.arrival, own a = true → own' a = false) :
    (pushed P (fun a => own a || own' a) impl turns).Perm
      (pushed P own impl turns ++ pushed P own' impl turns) := by
  induction turns generalizing impl with
  | nil => rfl
  | cons x turns ih =>
    unfold pushed
    rcases turn P impl x with _ | impl'
    · rfl
    · dsimp only
      have hrest := @ih impl' fun a ha => h a (by
        obtain ⟨y, hy, hya⟩ := List.mem_filterMap.mp ha
        exact List.mem_filterMap.mpr ⟨y, List.mem_cons_of_mem _ hy, hya⟩)
      rcases hxa : x.arrival with _ | a
      · simpa using hrest
      · have hx := h a (List.mem_filterMap.mpr ⟨x, List.mem_cons_self, hxa⟩)
        rcases hown : own a with _ | _
        · rcases hown' : own' a with _ | _
          · simpa [hown, hown'] using hrest
          · simp only [Option.any_some, hown, hown']
            refine (hrest.append_left _).trans ?_
            simp only [Bool.false_or, if_true, Bool.false_eq_true, if_false, List.nil_append]
            rw [← List.append_assoc, ← List.append_assoc]
            exact List.perm_append_comm.append_right _
        · simp only [Option.any_some, hown, hx hown]
          refine (hrest.append_left _).trans ?_
          simp [List.append_assoc]

/-- With different numbers, what arrives under the number of a message are its fragments. -/
theorem arrivals_eq (hne : m.sequence ≠ m'.sequence)
    (halone : ∀ a ∈ turns.filterMap Turn.arrival,
      ofMessage s m.sequence a ∨ ofMessage s m'.sequence a → ofEither s m m' a) :
    ∀ a ∈ turns.filterMap Turn.arrival, ofMessage s m.sequence a = m.owns s a := by
  intro a ha
  rcases hm : ofMessage s m.sequence a with _ | _
  · unfold Outgoing.owns ofChannel
    rw [hm, Bool.false_and]
  · have heither := halone a ha (.inl hm)
    unfold ofEither at heither
    rcases Bool.or_eq_true_iff.mp heither with hown | hown'
    · exact hown.symm
    · have hm' : ofMessage s m'.sequence a = true := (Bool.and_eq_true_iff.mp hown').1
      exact absurd (ofMessage_unique hm hm') hne

/-! ### What one fragment does -/

/-- A fragment is dropped at the gate of its channel, or it goes to the reassembly. -/
theorem turn_fragment {env : Env} {r : PacketReliability} {data : Bytes} {sequence : UInt16}
    {channel : Channel} {i : ℕ}
    (hturn : turn P impl (.receive ⟨s, fragmentPacket r data sequence channel i, env⟩) =
      some impl') :
    ∃ conn hdr, hdr = fragmentHeader r.index channel sequence i (numFragments data)
        (fragmentOf data i).length ∧ conn = ackedConnection env impl s hdr ∧
      let accepted := acceptPacket (conn.channels r.index) hdr (fragmentOf data i)
      let impl₁ := putConnection impl (conn.setChannel r.index accepted.1)
      if accepted.2 then processPayload P env.now impl₁ s hdr (fragmentOf data i) = some impl'
      else impl' = impl₁ := by
  obtain ⟨⟨impl₁, ds⟩, hone, rfl⟩ := Option.map_eq_some_iff.mp hturn
  rw [receiveOne_eq] at hone
  dsimp only at hone
  rw [fragmentPacket, packet_serialize_append _ (length_fragmentOf_le data i)] at hone
  dsimp only at hone
  rw [processPacket_data P env impl s (fragmentOf data i)
    (rfl : (fragmentHeader r.index channel sequence i (numFragments data)
      (fragmentOf data i).length).protocolId = _)
    (rfl : _ = PacketType.fragment.toUInt8) (.inr rfl)] at hone
  refine ⟨_, _, rfl, rfl, ?_⟩
  dsimp only at hone ⊢
  rw [channel_fragmentHeader] at hone
  split_ifs at hone ⊢
  · obtain ⟨impl₂, hpay, heq⟩ := Option.map_eq_some_iff.mp hone
    cases heq
    exact hpay
  · cases hone
    rfl

/-- The gate of the channel, at this `remote_seq`, does not let the number through. -/
def Shut (r : PacketReliability) (remoteSeq sequence : UInt16) : Prop :=
  match r with
  | .reliableOrdered => sequence ≠ remoteSeq + 1
  | .unreliableSequenced => sequence ≤ remoteSeq
  | .reliableUnordered | .unreliable => False

/-- The gate of a channel that does not take all is shut after any fragment. -/
theorem acceptPacket_shut {r : PacketReliability} (hr : ¬TakesAll r) {hdr : PacketHeader}
    (hrel : hdr.reliability = r) (hcount : 1 < hdr.fragCount) (channel : Channel) (payload : Bytes) :
    Shut r (acceptPacket channel hdr payload).1.remoteSeq hdr.sequence ∧
      (Shut r channel.remoteSeq hdr.sequence → (acceptPacket channel hdr payload).2 = false) := by
  have hmore : ¬hdr.fragCount ≤ 1 := UInt8.not_le.mpr hcount
  unfold acceptPacket Shut
  rw [hrel]
  cases r with
  | reliableOrdered =>
    dsimp only
    by_cases hseq : hdr.sequence = channel.remoteSeq + 1
    · rw [if_pos hseq]
      exact ⟨by simp, fun hne => absurd hseq hne⟩
    · rw [if_neg hseq]
      split_ifs with h h' <;> first | exact absurd h'.1 hmore | exact ⟨hseq, fun _ => rfl⟩
  | unreliableSequenced =>
    dsimp only
    split_ifs with hle
    · exact ⟨hle, fun _ => rfl⟩
    · exact ⟨UInt16.le_refl _, fun h => absurd h hle⟩
  | reliableUnordered => exact absurd (.inr rfl) hr
  | unreliable => exact absurd (.inl rfl) hr

theorem turn_shut {env : Env} {r : PacketReliability} {data : Bytes} {sequence : UInt16}
    {channel : Channel} {i : ℕ} (hr : ¬TakesAll r) (hmany : 1 < numFragments data)
    (hfew : numFragments data ≤ 8)
    (hturn : turn P impl (.receive ⟨s, fragmentPacket r data sequence channel i, env⟩) =
      some impl') :
    Shut r ((impl'.conn s).channels r.index).remoteSeq sequence ∧
      (Shut r ((impl.conn s).channels r.index).remoteSeq sequence →
        impl'.receiveQueue = impl.receiveQueue) := by
  obtain ⟨conn, hdr, hhdr, hconn, hout⟩ := turn_fragment hturn
  have hrel : hdr.reliability = r := by
    rw [hhdr, reliability_fragmentHeader, PacketReliability.ofIndex_index]
  have hseq : hdr.sequence = sequence := by
    rw [hhdr]
    rfl
  have hcount : 1 < hdr.fragCount := by
    rw [hhdr, UInt8.lt_iff_toNat_lt]
    show 1 < (UInt8.ofNat (numFragments data)).toNat
    rw [UInt8.toNat_ofNat']
    omega
  have haddr : conn.address = s := by rw [hconn, ackedConnection_address]
  have hremote : (conn.channels r.index).remoteSeq =
      ((impl.conn s).channels r.index).remoteSeq := by
    rw [hconn, ackedConnection_remoteSeq]
  obtain ⟨hafter, hdrop⟩ := acceptPacket_shut hr hrel hcount (conn.channels r.index)
    (fragmentOf data i)
  rw [hseq] at hafter hdrop
  rw [hremote] at hdrop
  -- the connection that is written back
  have hput : ((putConnection impl (conn.setChannel r.index (acceptPacket (conn.channels r.index) hdr
      (fragmentOf data i)).1)).conn s).channels r.index =
      (acceptPacket (conn.channels r.index) hdr (fragmentOf data i)).1 := by
    rw [Impl.conn_of_find (x := conn.setChannel r.index _)
      (findConnection_putConnection_self impl haddr), Connection.channels_setChannel_self]
  dsimp only at hout
  split_ifs at hout with haccept
  · refine ⟨?_, fun hshut => absurd haccept (by rw [hdrop hshut]; decide)⟩
    rw [Impl.conn, findConnection, (processPayload_frame hout).1]
    change Shut r ((Impl.conn _ s).channels r.index).remoteSeq sequence
    rwa [hput]
  · rw [hout]
    exact ⟨by rwa [hput], fun _ => rfl⟩

/-- The assembly of the message, if there is one, lacks the first fragment. -/
def Headless (s : Address) (sequence : UInt16) (impl : Impl) : Prop :=
  ∀ fa, lookup FragmentAssembly.key (s, sequence) impl.fragmentAssemblies = some fa →
    fa.receivedMask.toNat.testBit 0 = false

theorem headless_of_none {sequence : UInt16}
    (h : lookup FragmentAssembly.key (s, sequence) impl.fragmentAssemblies = none) :
    Headless s sequence impl := fun fa hfa => by rw [h] at hfa; cases hfa

/-- A full mask has the bit of the first fragment. -/
theorem head_of_complete {mask : UInt8} {n : ℕ} (hn : 0 < n) (hn8 : n ≤ 8)
    (h : mask.toUInt32 = P.oneShl n - 1) : mask.toNat.testBit 0 = true := by
  rw [← UInt8.toNat_toUInt32, h, toNat_full hn8, Nat.testBit_two_pow_sub_one]
  exact decide_eq_true hn

/-- One push at most comes of a fragment, and none of one that is not the first while the first is
lacking. After a push the assembly is gone. -/
theorem processPayload_pushes {now : Time} {hdr : PacketHeader} {payload : Bytes} {n i : ℕ}
    (hcount : hdr.fragCount = UInt8.ofNat n) (hmany : 1 < n) (hfew : n ≤ 8)
    (hindex : hdr.fragIndex = UInt8.ofNat (i + 1)) (hi : i < n)
    (h : processPayload P now impl s hdr payload = some impl') :
    impl'.receiveQueue = impl.receiveQueue ∧
        (i ≠ 0 → Headless s hdr.sequence impl → Headless s hdr.sequence impl') ∨
      (∃ p, impl'.receiveQueue = impl.receiveQueue ++ [p]) ∧ Headless s hdr.sequence impl' ∧
        (i = 0 ∨ ¬Headless s hdr.sequence impl) := by
  have hn : hdr.fragCount.toNat = n := by
    rw [hcount, UInt8.toNat_ofNat']
    omega
  have hat : hdr.fragIndex.toNat - 1 = i := by
    rw [hindex, UInt8.toNat_ofNat']
    omega
  have hgt : hdr.fragCount > 1 := by
    rw [gt_iff_lt, UInt8.lt_iff_toNat_lt, hn]
    exact hmany
  have hpos : hdr.fragIndex ≠ 0 := by
    intro hzero
    rw [hzero] at hat
    have hnat := congrArg UInt8.toNat (hindex.symm.trans hzero)
    rw [UInt8.toNat_ofNat'] at hnat
    change (i + 1) % 256 = 0 at hnat
    omega
  -- the assembly as it is found or made
  obtain ⟨fa, hfa, hkey, hhead⟩ : ∃ fa,
      findOrCreateFragmentAssembly impl now s hdr.sequence hdr.fragCount = fa ∧
      fa.key = (s, hdr.sequence) ∧
      (Headless s hdr.sequence impl → fa.receivedMask.toNat.testBit 0 = false) := by
    unfold findOrCreateFragmentAssembly
    rcases hl : lookup FragmentAssembly.key (s, hdr.sequence) impl.fragmentAssemblies with _ | fa
    · exact ⟨_, rfl, rfl, fun _ => Nat.zero_testBit 0⟩
    · exact ⟨fa, rfl, lookup_key hl, fun h => h fa hl⟩
  have hheld : ∀ fa' : FragmentAssembly, fa'.key = (s, hdr.sequence) →
      fa'.receivedMask.toNat.testBit 0 = false →
        Headless s hdr.sequence (putFragmentAssembly impl fa') := by
    intro fa' hkey' hhead' fa'' hfind
    rw [← hkey', lookup_putFragmentAssembly] at hfind
    cases hfind
    exact hhead'
  unfold processPayload at h
  rw [if_pos hgt] at h
  dsimp only at h
  rw [hfa, if_neg hpos, hat, hn] at h
  split at h
  · cases h
  · cases h
    exact .inl ⟨rfl, fun _ hnone => hheld fa hkey (hhead hnone)⟩
  · have hmask : i ≠ 0 → Headless s hdr.sequence impl →
        (fa.receivedMask ||| (P.oneShl i).toUInt8).toNat.testBit 0 = false := by
      intro hne hnone
      rw [UInt8.toNat_or, Nat.testBit_or, hhead hnone, toNat_bit (by omega), Nat.testBit_two_pow]
      simpa using hne
    split at h <;> cases h
    · rename_i hcomplete
      refine .inr ⟨⟨_, rfl⟩, headless_of_none (lookup_erased _ _), ?_⟩
      by_contra hboth
      rw [not_or, not_not] at hboth
      have hbit := head_of_complete (by omega) hfew hcomplete
      rw [hmask hboth.1 hboth.2] at hbit
      cases hbit
    · exact .inl ⟨rfl, fun hne hnone => hheld _ hkey (hmask hne hnone)⟩

/-! ### What fragments that are alone do -/

/-- Fragment `x.2` of `x.1` arrives. -/
def fragmentTurn (s : Address) (x : Outgoing × ℕ) : Turn :=
  .receive ⟨s, x.1.packet x.2, x.1.io.toEnv⟩

theorem turn_pushes {i : ℕ} (hi : i < numFragments m.data)
    (hturn : turn P impl (fragmentTurn s (m, i)) = some impl') :
    impl'.receiveQueue = impl.receiveQueue ∧
        (i ≠ 0 → Headless s m.sequence impl → Headless s m.sequence impl') ∨
      (∃ p, impl'.receiveQueue = impl.receiveQueue ++ [p]) ∧ Headless s m.sequence impl' ∧
        (i = 0 ∨ ¬Headless s m.sequence impl) := by
  obtain ⟨conn, hdr, rfl, -, hout⟩ := turn_fragment hturn
  dsimp only at hout
  split_ifs at hout
  · exact processPayload_pushes rfl m.many m.few rfl hi hout
  · rw [hout]
    exact .inl ⟨rfl, fun _ h => h⟩

section
variable {own : Arrival → Bool} {x : Turn}

theorem pushed_cons_same (hturn : turn P impl x = some impl')
    (hqueue : impl'.receiveQueue = impl.receiveQueue) :
    pushed P own impl (x :: turns) = pushed P own impl' turns := by
  rw [pushed, hturn]
  dsimp only
  rw [hqueue, List.drop_length, ite_self, List.nil_append]

theorem pushed_cons_none (hturn : turn P impl x = none) : pushed P own impl (x :: turns) = [] := by
  rw [pushed, hturn]

theorem length_pushed_cons (hturn : turn P impl x = some impl')
    (hqueue : ∃ p, impl'.receiveQueue = impl.receiveQueue ++ [p]) :
    (pushed P own impl (x :: turns)).length ≤ 1 + (pushed P own impl' turns).length := by
  obtain ⟨p, hqueue⟩ := hqueue
  rw [pushed, hturn]
  dsimp only
  rw [hqueue, List.drop_left, List.length_append]
  split_ifs <;> simp

/-- Fragments under one number, none of them a first one. -/
def Later (sequence : UInt16) (x : Outgoing × ℕ) : Prop :=
  x.2 ≠ 0 ∧ x.2 < numFragments x.1.data ∧ x.1.sequence = sequence

theorem pushed_headless {sequence : UInt16} {order : List (Outgoing × ℕ)}
    (horder : ∀ x ∈ order, Later sequence x) (h : Headless s sequence impl) :
    pushed P own impl (order.map (fragmentTurn s)) = [] := by
  induction order generalizing impl with
  | nil => rfl
  | cons x order ih =>
    obtain ⟨hne, hi, rfl⟩ := horder x List.mem_cons_self
    rcases hturn : turn P impl (fragmentTurn s x) with _ | impl'
    · exact pushed_cons_none hturn
    · obtain ⟨hqueue, hheld⟩ | ⟨-, -, hhead⟩ := turn_pushes hi hturn
      · rw [List.map_cons, pushed_cons_same hturn hqueue]
        exact ih (fun y hy => horder y (List.mem_cons_of_mem _ hy)) (hheld hne h)
      · exact absurd h (hhead.resolve_left hne)

/-- They complete one assembly at most, since a first fragment is in each. -/
theorem length_pushed_later {sequence : UInt16} {order : List (Outgoing × ℕ)}
    (horder : ∀ x ∈ order, Later sequence x) :
    (pushed P own impl (order.map (fragmentTurn s))).length ≤ 1 := by
  induction order generalizing impl with
  | nil => exact Nat.zero_le 1
  | cons x order ih =>
    have hrest : ∀ y ∈ order, Later sequence y := fun y hy => horder y (List.mem_cons_of_mem _ hy)
    obtain ⟨-, hi, hseq⟩ := horder x List.mem_cons_self
    rcases hturn : turn P impl (fragmentTurn s x) with _ | impl'
    · rw [List.map_cons, pushed_cons_none hturn]
      exact Nat.zero_le 1
    · obtain ⟨hqueue, -⟩ | ⟨hpush, hnone, -⟩ := turn_pushes hi hturn
      · rw [List.map_cons, pushed_cons_same hturn hqueue]
        exact ih hrest
      · have hlen : (pushed P own impl (fragmentTurn s x :: order.map (fragmentTurn s))).length ≤ _ :=
          length_pushed_cons hturn hpush
        rw [hseq] at hnone
        rwa [pushed_headless hrest hnone] at hlen

/-- So do a first fragment and then such. -/
theorem length_pushed_first {order : List (Outgoing × ℕ)}
    (horder : ∀ x ∈ order, Later m.sequence x) :
    (pushed P own impl (fragmentTurn s (m, 0) :: order.map (fragmentTurn s))).length ≤ 1 := by
  rcases hturn : turn P impl (fragmentTurn s (m, 0)) with _ | impl'
  · rw [pushed_cons_none hturn]
    exact Nat.zero_le 1
  · obtain ⟨hqueue, -⟩ | ⟨hpush, hnone, -⟩ := turn_pushes (Nat.zero_lt_of_lt m.many) hturn
    · rw [pushed_cons_same hturn hqueue]
      exact length_pushed_later horder
    · have hlen : (pushed P own impl (fragmentTurn s (m, 0) :: order.map (fragmentTurn s))).length ≤
          _ := length_pushed_cons hturn hpush
      rwa [pushed_headless horder hnone] at hlen

/-- Nothing comes of fragments for which the gate is shut. -/
theorem length_pushed_shut (hr : ¬TakesAll m.reliability) {is : List ℕ} {later : List Turn} {b : ℕ}
    (hlater : ∀ impl', (pushed P own impl' later).length ≤ b)
    (hshut : Shut m.reliability ((impl.conn s).channels m.reliability.index).remoteSeq m.sequence) :
    (pushed P own impl (is.map (fun i => fragmentTurn s (m, i)) ++ later)).length ≤ b := by
  induction is generalizing impl with
  | nil => exact hlater impl
  | cons i is ih =>
    rw [List.map_cons, List.cons_append]
    rcases hturn : turn P impl (fragmentTurn s (m, i)) with _ | impl'
    · rw [pushed_cons_none hturn]
      exact Nat.zero_le b
    · obtain ⟨hafter, hqueue⟩ := turn_shut hr m.many m.few hturn
      rw [pushed_cons_same hturn (hqueue hshut)]
      exact ih hafter

end

/-! ### Orders in which one of the messages is lost -/

theorem range_eq_cons {n : ℕ} (hn : 0 < n) : List.range n = 0 :: List.range' 1 (n - 1) := by
  rw [List.range_eq_range']
  obtain ⟨k, rfl⟩ : ∃ k, n = k + 1 := ⟨n - 1, by omega⟩
  rfl

/-- The second fragment first. -/
theorem range_perm_swapped {n : ℕ} (hn : 1 < n) :
    (1 :: 0 :: List.range' 2 (n - 2)).Perm (List.range n) := by
  rw [List.range_eq_range']
  obtain ⟨k, rfl⟩ : ∃ k, n = k + 2 := ⟨n - 2, by omega⟩
  exact List.Perm.swap 0 1 _

theorem later_range {y : Outgoing × ℕ}
    (hy : y ∈ (List.range' 1 (numFragments m.data - 1)).map fun i => (m, i)) :
    Later m.sequence y := by
  obtain ⟨i, hi, rfl⟩ := List.mem_map.mp hy
  have hmany := m.many
  rw [List.mem_range'_1] at hi
  exact ⟨by dsimp only; omega, by dsimp only; omega, rfl⟩

/-- The fragments of a message, in order, make one push at most. -/
theorem length_pushed_range {own : Arrival → Bool} :
    (pushed P own impl ((List.range (numFragments m.data)).map fun i =>
      fragmentTurn s (m, i))).length ≤ 1 := by
  have hpos : 0 < numFragments m.data := Nat.zero_lt_of_lt m.many
  rw [range_eq_cons hpos, List.map_cons, ← Function.comp_def, ← List.map_map]
  exact length_pushed_first fun y hy => later_range hy

/-- The gate of the first message lets at most one fragment through, and it is the second. -/
theorem length_pushed_gate {own : Arrival → Bool} (hr : ¬TakesAll m.reliability)
    (hfresh : lookup FragmentAssembly.key (s, m.sequence) rcv.fragmentAssemblies = none) :
    (pushed P own rcv (((1 :: 0 :: List.range' 2 (numFragments m.data - 2)).map fun i =>
      fragmentTurn s (m, i)) ++ (List.range (numFragments m'.data)).map fun i =>
        fragmentTurn s (m', i))).length ≤ 1 := by
  rw [List.map_cons, List.cons_append]
  rcases hturn : turn P rcv (fragmentTurn s (m, 1)) with _ | impl'
  · rw [pushed_cons_none hturn]
    exact Nat.zero_le 1
  · obtain ⟨hqueue, -⟩ | ⟨-, -, hone | hhead⟩ := turn_pushes m.many hturn
    · rw [pushed_cons_same hturn hqueue]
      exact length_pushed_shut hr (fun impl' => length_pushed_range)
        (turn_shut hr m.many m.few hturn).1
    · cases hone
    · exact absurd (headless_of_none hfresh) hhead

/-- A fragment whose slot is filled changes nothing. -/
theorem processPayload_filled {now : Time} {hdr : PacketHeader} {payload : Bytes}
    (fa : FragmentAssembly) (part : Bytes) (hcount : 1 < hdr.fragCount)
    (hfind : lookup FragmentAssembly.key (s, hdr.sequence) impl.fragmentAssemblies = some fa)
    (hslot : fa.fragments[hdr.fragIndex.toNat - 1]? = some part) (hpart : part ≠ [])
    (h : processPayload P now impl s hdr payload = some impl') :
    impl'.receiveQueue = impl.receiveQueue := by
  unfold processPayload findOrCreateFragmentAssembly at h
  rw [if_pos hcount, hfind] at h
  dsimp only [Option.getD_some] at h
  by_cases hzero : hdr.fragIndex = 0
  · rw [if_pos hzero] at h
    cases h
  · obtain ⟨byte, bytes, rfl⟩ := List.exists_cons_of_ne_nil hpart
    rw [if_neg hzero, hslot] at h
    cases h
    rfl

/-- Of two messages under one number the first fragment that comes second is dropped. -/
theorem length_pushed_clash {own : Arrival → Bool} (hsame : m.sequence = m'.sequence)
    (hr : TakesAll m.reliability)
    (hfresh : lookup FragmentAssembly.key (s, m.sequence) rcv.fragmentAssemblies = none) :
    (pushed P own rcv (((m, 0) :: (m', 0) ::
      (((List.range' 1 (numFragments m.data - 1)).map fun i => (m, i)) ++
        (List.range' 1 (numFragments m'.data - 1)).map fun i => (m', i))).map
          (fragmentTurn s))).length ≤ 1 := by
  have hfew : numFragments m.data ≤ 255 := m.few.trans (by omega)
  have hpos : 0 < numFragments m.data := Nat.zero_lt_of_lt m.many
  have hstart : HoldsFragments P s m.sequence m.data (fun _ => True) rcv [] := by
    unfold HoldsFragments
    rw [if_pos rfl]
    exact hfresh
  obtain ⟨impl, hturn, heffect⟩ : ∃ impl', turn P rcv (fragmentTurn s (m, 0)) = some impl' ∧ _ :=
    turn_own hr hstart (ofMessage_fragmentPacket (r := m.reliability) m.many hfew 0) trivial m.many
      hfew hpos List.not_mem_nil rfl
  have hnot : ¬MaskComplete P (numFragments m.data) ([] ++ [0]) := by
    rw [List.nil_append, maskComplete_iff m.few fun i hi => by
      rw [List.mem_singleton.mp hi]
      exact hpos]
    intro hall
    exact absurd (hall 1 m.many) (by simp)
  rw [if_neg hnot] at heffect
  obtain ⟨hqueue, hheld⟩ := heffect
  rw [List.map_cons, List.map_cons, pushed_cons_same hturn hqueue]
  -- the slot that the first fragment of `m'` is for
  obtain ⟨fa, hfind, hfrags, -⟩ : ∃ fa, lookup FragmentAssembly.key (s, m.sequence)
      impl.fragmentAssemblies = some fa ∧ fa.fragments = slots (fragmentOf m.data)
        (numFragments m.data) [0] ∧ True := by
    unfold HoldsFragments at hheld
    rw [if_neg (by simp)] at hheld
    obtain ⟨fa, hfind, hfrags, -⟩ := hheld
    exact ⟨fa, hfind, hfrags, trivial⟩
  have hslot : fa.fragments[0]? = some (fragmentOf m.data 0) := by
    rw [hfrags, getElem?_slots _ _ _ hpos, if_pos List.mem_cons_self]
  have hrest : ∀ y ∈ ((List.range' 1 (numFragments m.data - 1)).map fun i => (m, i)) ++
      (List.range' 1 (numFragments m'.data - 1)).map fun i => (m', i), Later m.sequence y := by
    intro y hy
    rcases List.mem_append.mp hy with hy | hy
    · exact later_range hy
    · rw [hsame]
      exact later_range hy
  rcases hturn' : turn P impl (fragmentTurn s (m', 0)) with _ | impl'
  · rw [pushed_cons_none hturn']
    exact Nat.zero_le 1
  · have hqueue' : impl'.receiveQueue = impl.receiveQueue := by
      obtain ⟨conn, hdr, rfl, -, hout⟩ := turn_fragment hturn'
      dsimp only at hout
      split_ifs at hout
      · refine (processPayload_filled fa _ ?_ ?_ ?_ (fragmentOf_ne_nil hpos) hout).trans rfl
        · rw [UInt8.lt_iff_toNat_lt]
          show 1 < (UInt8.ofNat (numFragments m'.data)).toNat
          have hmany' := m'.many
          have hfew' := m'.few
          rw [UInt8.toNat_ofNat']
          omega
        · exact hsame ▸ hfind
        · exact hslot
      · rw [hout]
        rfl
    rw [pushed_cons_same hturn' hqueue']
    exact length_pushed_later hrest

/-! ### Orders that are possible -/

theorem owns_packet (m : Outgoing) (i : ℕ) (env : Env) :
    m.owns s ⟨s, m.packet i, env⟩ = true := by
  have hof : ofMessage s m.sequence ⟨s, m.packet i, env⟩ = true :=
    ofMessage_fragmentPacket (r := m.reliability) m.many (m.few.trans (by omega)) i
  unfold Outgoing.owns ofChannel
  rw [hof, Bool.true_and]
  unfold Outgoing.packet fragmentPacket
  rw [packet_serialize_append _ (length_fragmentOf_le _ i), Option.any_some, channel_fragmentHeader]
  exact decide_eq_true rfl

theorem not_owns_packet (hne : m.reliability ≠ m'.reliability) (i : ℕ) (env : Env) :
    m.owns s ⟨s, m'.packet i, env⟩ = false := by
  have hindex : ¬m'.reliability.index = m.reliability.index := by
    intro heq
    have h := congrArg PacketReliability.ofIndex heq
    rw [PacketReliability.ofIndex_index, PacketReliability.ofIndex_index] at h
    exact hne h.symm
  unfold Outgoing.owns ofChannel Outgoing.packet fragmentPacket
  rw [packet_serialize_append _ (length_fragmentOf_le _ i), Option.any_some, channel_fragmentHeader,
    decide_eq_false hindex, Bool.and_false]

/-- The fragments of both messages, those of `m` first. -/
def allFragments (m m' : Outgoing) : List (Outgoing × ℕ) :=
  ((List.range (numFragments m.data)).map fun i => (m, i)) ++
    (List.range (numFragments m'.data)).map fun i => (m', i)

theorem arrivals_allFragments (hne : m.reliability ≠ m'.reliability) :
    (m.arrivals s ((allFragments m m').map (fragmentTurn s))).map Arrival.bytes =
        m.datagrams.map Datagram.bytes ∧
      (m'.arrivals s ((allFragments m m').map (fragmentTurn s))).map Arrival.bytes =
        m'.datagrams.map Datagram.bytes := by
  have hturns : ((allFragments m m').map (fragmentTurn s)).filterMap Turn.arrival =
      ((List.range (numFragments m.data)).map fun i => ⟨s, m.packet i, m.io.toEnv⟩) ++
        (List.range (numFragments m'.data)).map fun i => ⟨s, m'.packet i, m'.io.toEnv⟩ := by
    unfold allFragments fragmentTurn
    rw [List.filterMap_map]
    simp [Turn.arrival, Function.comp_def, List.filterMap_map]
  have hmine : ∀ (x : Outgoing) (n : ℕ), ((List.range n).map fun i =>
      (⟨s, x.packet i, x.io.toEnv⟩ : Arrival)).filter (x.owns s) =
        (List.range n).map fun i => ⟨s, x.packet i, x.io.toEnv⟩ := by
    intro x n
    rw [List.filter_eq_self]
    intro a ha
    obtain ⟨i, -, rfl⟩ := List.mem_map.mp ha
    exact owns_packet x i x.io.toEnv
  have hnone : ∀ (x y : Outgoing) (n : ℕ), x.reliability ≠ y.reliability →
      ((List.range n).map fun i => (⟨s, y.packet i, y.io.toEnv⟩ : Arrival)).filter (x.owns s) =
        [] := by
    intro x y n hxy
    rw [List.filter_eq_nil_iff]
    intro a ha
    obtain ⟨i, -, rfl⟩ := List.mem_map.mp ha
    rw [not_owns_packet hxy]
    decide
  unfold Outgoing.arrivals
  rw [hturns, List.filter_append, List.filter_append, hmine, hmine, hnone m m' _ hne,
    hnone m' m _ hne.symm, List.append_nil, List.nil_append, m.datagrams_eq, m'.datagrams_eq]
  simp [Function.comp_def]

/-- They can arrive in every order, and nothing else with them. -/
theorem bothArrive_of_perm (hne : m.reliability ≠ m'.reliability) {order : List (Outgoing × ℕ)}
    (hperm : order.Perm (allFragments m m')) :
    BothArrive P s m m' rcv (order.map (fragmentTurn s)) := by
  have hfinish : ∀ before env t after,
      order.map (fragmentTurn s) ≠ before ++ Turn.finish env t :: after := by
    intro before env t after hsplit
    have hmem : Turn.finish env t ∈ order.map (fragmentTurn s) := by
      rw [hsplit]
      exact List.mem_append_right _ List.mem_cons_self
    obtain ⟨x, -, hx⟩ := List.mem_map.mp hmem
    cases hx
  have hboth : ∀ a ∈ (order.map (fragmentTurn s)).filterMap Turn.arrival, ofEither s m m' a := by
    intro a ha
    obtain ⟨turn, hturn, harrival⟩ := List.mem_filterMap.mp ha
    obtain ⟨x, hx, rfl⟩ := List.mem_map.mp hturn
    cases harrival
    unfold ofEither
    rcases List.mem_append.mp (hperm.subset hx) with h | h <;> obtain ⟨i, -, rfl⟩ := List.mem_map.mp h
    · rw [owns_packet, Bool.true_or]
    · rw [owns_packet, Bool.or_true]
  obtain ⟨hfirst, hsecond⟩ := arrivals_allFragments (s := s) hne
  have hturns := hperm.map (fragmentTurn s)
  refine ⟨⟨?_, fun before env t after hsplit => absurd hsplit (hfinish before env t after)⟩,
    ⟨?_, fun before env t after hsplit => absurd hsplit (hfinish before env t after)⟩,
    fun a ha _ => hboth a ha, ?_⟩
  · rw [← hfirst]
    exact ((hturns.filterMap Turn.arrival).filter (m.owns s)).map Arrival.bytes
  · rw [← hsecond]
    exact ((hturns.filterMap Turn.arrival).filter (m'.owns s)).map Arrival.bytes
  · apply Run.Admits.of_forall
    intro x hx impl hother
    obtain ⟨y, hy, rfl⟩ := List.mem_map.mp hx
    exact absurd (hboth _ (List.mem_filterMap.mpr ⟨_, hx, rfl⟩)) hother

/-! ### Messages that are kept apart -/

/-- Each byte string that arrives is the packet of a fragment. -/
theorem Outgoing.Arrives.order (h : m.Arrives s turns) :
    ∃ order : List ℕ, order.Perm (List.range (numFragments m.data)) ∧
      (m.arrivals s turns).map Arrival.bytes = order.map m.packet := by
  have hperm := h.once
  rw [m.datagrams_eq, List.map_map] at hperm
  obtain ⟨order, hbytes, horder⟩ := (congrFun (congrFun (List.eq_map_comp_perm _) _) _).mpr hperm
  exact ⟨order, horder, hbytes⟩

/-- A message on a channel whose gate takes all. -/
def Outgoing.flight (m : Outgoing) (hr : TakesAll m.reliability) : Flight where
  reliability := m.reliability
  takesAll := hr
  data := m.data
  many := m.many
  few := m.few.trans (by omega)
  sequence := m.sequence
  channel := m.channel

/-- Under different numbers both messages are put together. -/
theorem bothReassembled_of_ne (hne : m.sequence ≠ m'.sequence) (hr : TakesAll m.reliability)
    (hr' : TakesAll m'.reliability)
    (hfresh : lookup FragmentAssembly.key (s, m.sequence) rcv.fragmentAssemblies = none)
    (hfresh' : lookup FragmentAssembly.key (s, m'.sequence) rcv.fragmentAssemblies = none)
    (h : BothArrive P s m m' rcv turns) : BothReassembled P s m m' rcv turns := by
  have hown := arrivals_eq hne h.alone
  have hown' : ∀ a ∈ turns.filterMap Turn.arrival, ofMessage s m'.sequence a = m'.owns s a :=
    arrivals_eq hne.symm fun a ha hof => by
      have := h.alone a ha hof.symm
      unfold ofEither at this ⊢
      rwa [Bool.or_comm]
  have heither : ∀ a ∈ turns.filterMap Turn.arrival, ofEither s m m' a =
      (ofMessage s m.sequence a || ofMessage s m'.sequence a) := fun a ha => by
    rw [hown a ha, hown' a ha]
    rfl
  have hmine : ∀ {x : Outgoing} {ts : List Turn}, (∀ a ∈ ts.filterMap Turn.arrival,
      ofMessage s x.sequence a = x.owns s a) → ownArrivals s x.sequence ts = x.arrivals s ts :=
    fun hts => List.filter_congr hts
  obtain ⟨order, hperm, hbytes⟩ := h.first.order
  obtain ⟨order', hperm', hbytes'⟩ := h.second.order
  let flights : Bool → Flight := fun b => bif b then m.flight hr else m'.flight hr'
  have hwindow : ∀ {x : Outgoing}, x.Arrives s turns → (∀ a ∈ turns.filterMap Turn.arrival,
      ofMessage s x.sequence a = x.owns s a) → ∀ before env t after,
        turns = before ++ .finish env t :: after → ownArrivals s x.sequence after ≠ [] →
          ∀ a ∈ ownArrivals s x.sequence before, t - a.env.now ≤ 2 := by
    intro x hx hxs before env t after hsplit hafter a ha
    have hpart : ∀ b, b ∈ before.filterMap Turn.arrival ∨ b ∈ after.filterMap Turn.arrival →
        ofMessage s x.sequence b = x.owns s b := by
      intro b hb
      apply hxs
      rw [hsplit, List.filterMap_append, List.mem_append]
      exact hb.imp id fun hb => hb
    rw [hmine fun b hb => hpart b (.inr hb)] at hafter
    rw [hmine fun b hb => hpart b (.inl hb)] at ha
    exact hx.window before env t after hsplit hafter a ha
  obtain ⟨hexec, hpushes⟩ := @exec_reassembles P s rcv Bool _ flights turns (fun _ => [])
    (fun b => bif b then order else order')
    (by
      rintro (_ | _) (_ | _) hkl
      · rfl
      · exact absurd hkl.symm hne
      · exact absurd hkl hne
      · rfl)
    (by
      rintro (_ | _) -
      · unfold HoldsFragments
        rw [if_pos rfl]
        exact hfresh'
      · unfold HoldsFragments
        rw [if_pos rfl]
        exact hfresh)
    (by
      rintro (_ | _)
      · exact (congrArg _ (hmine hown')).trans hbytes'
      · exact (congrArg _ (hmine hown)).trans hbytes)
    (by
      rintro (_ | _)
      · exact hperm'.nodup_iff.mpr List.nodup_range
      · exact hperm.nodup_iff.mpr List.nodup_range)
    (by
      rintro (_ | _) i hi
      · exact List.mem_range.mp (hperm'.subset hi)
      · exact List.mem_range.mp (hperm.subset hi))
    (by
      rintro (_ | _)
      · exact hwindow h.second hown'
      · exact hwindow h.first hown)
    (by
      refine h.others.mono fun impl x hx hnot => hx fun hany => ?_
      obtain ⟨a, ha, hof⟩ := (Option.any_eq_true _ _).mp hany
      rcases Bool.or_eq_true_iff.mp hof with hof | hof
      · exact hnot true ((Option.any_eq_true _ _).mpr ⟨a, ha, (Bool.and_eq_true_iff.mp hof).1⟩)
      · exact hnot false ((Option.any_eq_true _ _).mpr ⟨a, ha, (Bool.and_eq_true_iff.mp hof).1⟩))
  refine ⟨hexec, ?_⟩
  rw [pushed_congr heither]
  refine (pushed_either fun a _ hof => ?_).trans ?_
  · rw [← Bool.not_eq_true]
    exact fun hof' => hne (ofMessage_unique hof hof')
  · have hreceived := ((m.flight hr).received_iff (P := P) (s := s) hperm).mpr
      (completeLast_of_le m.few hperm)
    have hreceived' := ((m'.flight hr').received_iff (P := P) (s := s) hperm').mpr
      (completeLast_of_le m'.few hperm')
    rw [← ownPushes_eq, ← ownPushes_eq]
    have hfirst := (hpushes true).trans hreceived
    have hsecond := (hpushes false).trans hreceived'
    exact (congrArg₂ (· ++ ·) hfirst hsecond) ▸ List.Perm.refl _

theorem perm_gate : (((1 :: 0 :: List.range' 2 (numFragments m.data - 2)).map fun i => (m, i)) ++
    (List.range (numFragments m'.data)).map fun i => (m', i)).Perm (allFragments m m') :=
  ((range_perm_swapped m.many).map _).append_right _

theorem perm_clash : ((m, 0) :: (m', 0) ::
    (((List.range' 1 (numFragments m.data - 1)).map fun i => (m, i)) ++
      (List.range' 1 (numFragments m'.data - 1)).map fun i => (m', i))).Perm (allFragments m m') := by
  unfold allFragments
  rw [range_eq_cons (Nat.zero_lt_of_lt m.many), range_eq_cons (Nat.zero_lt_of_lt m'.many),
    List.map_cons, List.map_cons, List.cons_append]
  exact List.perm_middle.symm.cons _

/-- One push is not two messages. -/
theorem not_bothReassembled (h : (pushed P (ofEither s m m') rcv turns).length ≤ 1) :
    ¬BothReassembled P s m m' rcv turns := by
  rintro ⟨-, hperm⟩
  have hlen := hperm.length_eq
  simp only [List.length_cons, List.length_nil] at hlen
  omega

end

/-- Two messages of two to eight fragments, on different channels, are both put together and not
mixed, in whatever order and among whatever else their fragments arrive, if and only if they have
different numbers and both channels are of the kind that lets every packet through. -/
theorem fragments_apart (P : Platform) (s : Address) {m m' : Outgoing}
    (hne : m.reliability ≠ m'.reliability) {rcv : Impl}
    (hfresh : lookup FragmentAssembly.key (s, m.sequence) rcv.fragmentAssemblies = none)
    (hfresh' : lookup FragmentAssembly.key (s, m'.sequence) rcv.fragmentAssemblies = none) :
    (∀ turns, BothArrive P s m m' rcv turns → BothReassembled P s m m' rcv turns) ↔
      m.sequence ≠ m'.sequence ∧ TakesAll m.reliability ∧ TakesAll m'.reliability := by
  constructor
  · intro hall
    have fails : ∀ {order : List (Outgoing × ℕ)}, order.Perm (allFragments m m') →
        ¬(pushed P (ofEither s m m') rcv (order.map (fragmentTurn s))).length ≤ 1 :=
      fun hperm hlen => not_bothReassembled hlen (hall _ (bothArrive_of_perm hne hperm))
    by_cases hr : TakesAll m.reliability
    · by_cases hr' : TakesAll m'.reliability
      · refine ⟨fun hsame => fails perm_clash ?_, hr, hr'⟩
        exact length_pushed_clash hsame hr hfresh
      · refine absurd ?_ (fails (perm_gate.trans List.perm_append_comm))
        rw [List.map_append, List.map_map, List.map_map]
        exact length_pushed_gate hr' hfresh'
    · refine absurd ?_ (fails perm_gate)
      rw [List.map_append, List.map_map, List.map_map]
      exact length_pushed_gate hr hfresh
  · rintro ⟨hseq, hr, hr'⟩ turns harrive
    exact bothReassembled_of_ne hseq hr hr' hfresh hfresh' harrive

/-! ### Two executions -/

/-- The left end of two connected ends sends 1185 times the given byte. -/
def sendLong (conn : Connection) (byte : UInt8) (r : PacketReliability) :
    Connection × List Datagram × Bool :=
  sendToConnection (((World.connected World.localAddr).node .left).io (World.goodEnv 1)) conn
    (List.replicate 1185 byte) r 0

def longOutgoing (conn : Connection) (byte : UInt8) (r : PacketReliability)
    (hok : (sendLong conn byte r).2.2 = true) : Outgoing where
  io := ((World.connected World.localAddr).node .left).io (World.goodEnv 1)
  conn := conn
  data := List.replicate 1185 byte
  reliability := r
  priority := 0
  after := (sendLong conn byte r).1
  datagrams := (sendLong conn byte r).2.1
  sent := by
    rw [← hok]
    rfl
  long := by
    rw [List.length_replicate]
    decide
  few := by
    unfold numFragments
    rw [List.length_replicate]
    decide

/-- Its first message on the Unreliable channel. -/
def firstLong : Outgoing :=
  longOutgoing { address := World.localAddr .right, state := .connected } 7 unreliable
    (by decide +kernel)

/-- Its first message on the ReliableUnordered channel, sent after that one. -/
def secondLong : Outgoing := longOutgoing firstLong.after 8 reliableUnordered (by decide +kernel)

/-- Its second message on that channel. -/
def thirdLong : Outgoing := longOutgoing secondLong.after 9 reliableUnordered (by decide +kernel)

/-- The fragments of two messages of two fragments, crosswise. -/
def crosswise (m m' : Outgoing) : List (Outgoing × ℕ) := [(m, 0), (m', 1), (m', 0), (m, 1)]

theorem crosswise_perm {m m' : Outgoing} (h : numFragments m.data = 2)
    (h' : numFragments m'.data = 2) : (crosswise m m').Perm (allFragments m m') := by
  unfold allFragments
  rw [h, h']
  have hlast : ([(m', 0), (m', 1)] ++ [(m, 1)]).Perm ([(m, 1)] ++ [(m', 0), (m', 1)]) :=
    List.perm_append_comm
  exact .cons _ ((List.Perm.swap _ _ _).trans hlast)

theorem numFragments_long (byte : UInt8) : numFragments (List.replicate 1185 byte) = 2 := by
  unfold numFragments
  rw [List.length_replicate]
  decide

theorem fragments_apart_crosswise : BothReassembled World.maskedShift (World.localAddr .left)
    firstLong thirdLong ((World.connected World.localAddr).node .right)
    ((crosswise firstLong thirdLong).map (fragmentTurn (World.localAddr .left))) :=
  (fragments_apart World.maskedShift (World.localAddr .left) (by decide) rfl rfl).mpr
    ⟨by decide +kernel, .inl rfl, .inr rfl⟩ _
    (bothArrive_of_perm (by decide) (crosswise_perm (numFragments_long 7) (numFragments_long 9)))

/-- What is queued of `firstLong` and `secondLong`, which both have the number 0, when their fragments
arrive crosswise. -/
def crosswisePushed : List Bytes :=
  (pushed World.maskedShift (ofEither (World.localAddr .left) firstLong secondLong)
    ((World.connected World.localAddr).node .right)
    ((crosswise firstLong secondLong).map (fragmentTurn (World.localAddr .left)))).map
      ReceivedPacket.data

/-- The beginning of each message with the end of the other. -/
def spliced : List Bytes := [List.replicate 1184 7 ++ [8], List.replicate 1184 8 ++ [7]]

theorem fragments_spliced :
    secondLong.conn = firstLong.after ∧ firstLong.reliability ≠ secondLong.reliability ∧
    crosswisePushed = spliced ∧
    ∃ turns, BothArrive World.maskedShift (World.localAddr .left) firstLong secondLong
        ((World.connected World.localAddr).node .right) turns ∧
      ¬BothReassembled World.maskedShift (World.localAddr .left) firstLong secondLong
        ((World.connected World.localAddr).node .right) turns := by
  have hpushed : crosswisePushed = spliced := by decide +kernel
  refine ⟨by rw [secondLong, longOutgoing], by decide, hpushed, _, bothArrive_of_perm (by decide)
    (crosswise_perm (numFragments_long 7) (numFragments_long 8)), ?_⟩
  rintro ⟨-, hperm⟩
  have hdata : crosswisePushed.Perm [firstLong.data, secondLong.data] :=
    hperm.map ReceivedPacket.data
  rw [hpushed] at hdata
  -- what is queued first is neither message
  have hmem : List.replicate 1184 7 ++ [8] ∈ [firstLong.data, secondLong.data] :=
    hdata.subset List.mem_cons_self
  revert hmem
  decide +kernel

end CampelloNet.Transport.Udp
