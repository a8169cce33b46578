import CampelloNet.Lib.Reassembly
import CampelloNet.Transport.Udp.Fragmentation
import Mathlib.Tactic.IntervalCases

/-!
# Fragments of one Unreliable message

The gate of the Unreliable channel lets everything through, so the fragments of a message meet in
their assembly in whatever order they arrive. Whether the assembly is complete is read from a mask
of eight bits, compared with a word in which the bits of all fragments are set: a message of up to
eight fragments is put together in every order, a longer one is not
(`unreliable_fragments`).
-/

namespace CampelloNet.Transport.Udp

open Lib PacketReliability Reassembly

/-! ### The mask -/

section
variable (P : Platform) (n : ℕ)

/-- `received_mask` after the given fragments, by their index from 0. -/
def receivedMask (got : List ℕ) : UInt8 :=
  got.foldl (fun mask i => mask ||| (P.oneShl i).toUInt8) 0

/-- The test of `process_payload` on a message of `n` fragments. -/
def MaskComplete (got : List ℕ) : Prop := (receivedMask P got).toUInt32 = P.oneShl n - 1

instance : DecidablePred (MaskComplete P n) := fun got =>
  inferInstanceAs (Decidable ((receivedMask P got).toUInt32 = _))

theorem receivedMask_append (got : List ℕ) (i : ℕ) :
    receivedMask P (got ++ [i]) = receivedMask P got ||| (P.oneShl i).toUInt8 := by
  simp [receivedMask, List.foldl_append]

theorem oneShl_of_lt {i : ℕ} (hi : i < 32) : P.oneShl i = 1 <<< UInt32.ofNat i := if_pos hi

/-- The ninth fragment has no bit. -/
theorem maskComplete_blind (got : List ℕ) :
    MaskComplete P n (got ++ [8]) ↔ MaskComplete P n got := by
  have hbit : (P.oneShl 8).toUInt8 = 0 := by
    rw [oneShl_of_lt P (by decide)]
    rfl
  unfold MaskComplete
  rw [receivedMask_append, hbit, UInt8.or_zero]

variable {P n}

theorem toNat_bit {i : ℕ} (hi : i < 8) : (P.oneShl i).toUInt8.toNat = 2 ^ i := by
  rw [oneShl_of_lt P (by omega)]
  interval_cases i <;> rfl

theorem toNat_full (hn : n ≤ 8) : (P.oneShl n - 1).toNat = 2 ^ n - 1 := by
  rw [oneShl_of_lt P (by omega)]
  interval_cases n <;> rfl

theorem testBit_receivedMask {got : List ℕ} (h : ∀ i ∈ got, i < 8) (k : ℕ) :
    (receivedMask P got).toNat.testBit k = decide (k ∈ got) := by
  induction got using List.reverseRecOn with
  | nil => simp [receivedMask]
  | append_singleton got i ih =>
    have hi : i < 8 := h i (by simp)
    have hgot := ih fun j hj => h j (List.mem_append_left _ hj)
    rw [receivedMask_append, UInt8.toNat_or, Nat.testBit_or, hgot, toNat_bit hi,
      Nat.testBit_two_pow]
    by_cases hk : k ∈ got
    · simp [hk]
    · simp [hk, eq_comm]

theorem maskComplete_iff {got : List ℕ} (hn : n ≤ 8) (h : ∀ i ∈ got, i < n) :
    MaskComplete P n got ↔ ∀ i < n, i ∈ got := by
  have hbits := testBit_receivedMask (P := P) fun i hi => lt_of_lt_of_le (h i hi) hn
  have hnat : MaskComplete P n got ↔ (receivedMask P got).toNat = 2 ^ n - 1 := by
    rw [← toNat_full (P := P) hn, ← UInt8.toNat_toUInt32]
    exact ⟨congrArg UInt32.toNat, UInt32.toNat.inj⟩
  rw [hnat]
  constructor
  · intro hmask i hi
    have hbit := hbits i
    rw [hmask, Nat.testBit_two_pow_sub_one] at hbit
    simpa [hi] using hbit.symm
  · intro hall
    apply Nat.eq_of_testBit_eq
    intro i
    rw [hbits, Nat.testBit_two_pow_sub_one]
    exact decide_eq_decide.mpr ⟨h i, hall i⟩

/-- Up to eight fragments are complete when the last has arrived, in any order. -/
theorem completeLast_of_le {order : List ℕ} (hn : n ≤ 8) (hperm : order.Perm (List.range n)) :
    CompleteLast (MaskComplete P n) [] order := by
  have hlt : ∀ i ∈ order, i < n := fun i hi => List.mem_range.mp (hperm.subset hi)
  refine ⟨?_, fun p hp hne hnot hcomplete => hnot ?_⟩
  · rw [List.nil_append, maskComplete_iff hn hlt]
    exact fun i hi => hperm.symm.subset (List.mem_range.mpr hi)
  · rw [List.nil_append, maskComplete_iff hn fun i hi => hlt i (hp.subset hi)] at hcomplete
    have hsub : List.range n ⊆ p := fun i hi => hcomplete i (List.mem_range.mp hi)
    have hle := (List.subperm_of_subset List.nodup_range hsub).length_le
    rw [← hperm.length_eq] at hle
    exact hp.eq_of_length_le hle

end

/-! ### What the sender hands to the network -/

/-- The bytes of fragment `i` of a message, under the acknowledgement of `channel`. -/
def fragmentPacket (r : PacketReliability) (data : Bytes) (sequence : UInt16) (channel : Channel)
    (i : Nat) : Bytes :=
  (fragmentHeader r.index channel sequence i (numFragments data) (fragmentOf data i).length).serialize
    ++ fragmentOf data i

theorem fragmentPacket_congr {channel channel' : Channel} (h : channel.receiver = channel'.receiver)
    (r : PacketReliability) (data : Bytes) (sequence : UInt16) (i : Nat) :
    fragmentPacket r data sequence channel i = fragmentPacket r data sequence channel' i := by
  have hack : channel.remoteSeq = channel'.remoteSeq := congrArg Receiver.remoteSeq h
  have hbits : channel.ackBits = channel'.ackBits := congrArg Receiver.ackBits h
  unfold fragmentPacket fragmentHeader
  rw [hack, hbits]

theorem sendFragments_sent {io : Io} {r : PacketReliability} {base : UInt16} {data : Bytes}
    {is : List Nat} {conn : Connection} (hok : (sendFragments io r base data is conn).2.2 = true) :
    (sendFragments io r base data is conn).2.1 = is.map fun i =>
      ⟨conn.address, fragmentPacket r data base (conn.channels r.index) i⟩ := by
  induction is generalizing conn with
  | nil => rfl
  | cons i is ih =>
    have halike : Alike conn (if r.isReliable then (conn, true) else
        checkAndConsumeBandwidth io conn r.index (PacketHeader.SIZE + MAX_PAYLOAD_SIZE)).1 := by
      split_ifs
      · exact .rfl
      · exact checkAndConsumeBandwidth_alike io conn r.index (PacketHeader.SIZE + MAX_PAYLOAD_SIZE)
    unfold sendFragments at hok ⊢
    generalize (if r.isReliable then (conn, true) else checkAndConsumeBandwidth io conn r.index
      (PacketHeader.SIZE + MAX_PAYLOAD_SIZE)) = checked at halike hok ⊢
    obtain ⟨conn₁, ok⟩ := checked
    dsimp only at halike hok ⊢
    have haddr : conn₁.address = conn.address := halike.address
    have hsame := fragmentPacket_congr (halike.receiver r.index) r data base
    split_ifs at hok ⊢ with hdropped
    rcases hraw : sendRaw io conn₁.address (fragmentHeader r.index (conn₁.channels r.index) base i
      (numFragments data) (fragmentOf data i).length) (fragmentOf data i) with _ | d
    · rw [hraw] at hok
      cases hok
    · rw [hraw] at hok
      obtain ⟨rfl, -⟩ := sendRaw_eq_some hraw
      have hrest := ih hok
      dsimp only at hrest ⊢
      rw [List.map_cons, hrest, haddr]
      congr 1
      · exact congrArg (Datagram.mk conn.address) (hsame i)
      · apply List.map_congr_left
        intro j _
        exact congrArg (Datagram.mk conn.address) (hsame j)

/-- The datagrams of a message of more than one packet that was sent. -/
theorem sendToConnection_sent {io : Io} {conn conn' : Connection} {r : PacketReliability}
    {data : Bytes} {priority : UInt8} {ds : List Datagram} (hlong : MAX_PAYLOAD_SIZE < data.length)
    (hsent : sendToConnection io conn data r priority = (conn', ds, true)) :
    numFragments data ≤ 255 ∧ ds = (List.range (numFragments data)).map fun i =>
      ⟨conn.address, fragmentPacket r data (conn.channels r.index).localSeq
        (conn.channels r.index) i⟩ := by
  unfold sendToConnection at hsent
  dsimp only at hsent
  by_cases hstate : conn.state ≠ .connected ∧ conn.state ≠ .connecting
  · rw [if_pos hstate] at hsent
    cases hsent
  · rw [if_neg hstate, if_neg (not_le.mpr hlong)] at hsent
    by_cases hmany : numFragments data > 255
    · rw [if_pos hmany] at hsent
      cases hsent
    · rw [if_neg hmany] at hsent
      have hall := sendFragments_sent (congrArg (fun out => out.2.2) hsent)
      rw [hsent] at hall
      refine ⟨not_lt.mp hmany, hall.trans ?_⟩
      apply List.map_congr_left
      intro j _
      refine congrArg (Datagram.mk conn.address) (fragmentPacket_congr ?_ _ _ _ _)
      rw [Connection.channels_setChannel_self]
      rfl

/-! ### What the receiver makes of them -/

/-- The datagram is a fragment from `s` under the given number. -/
def ofMessage (s : Address) (sequence : UInt16) (a : Arrival) : Bool :=
  a.sender = s && (packet a.bytes).any fun p => p.1.sequence = sequence && 1 < p.1.fragCount

/-- The fragments of the message, as they arrive. -/
def ownArrivals (s : Address) (sequence : UInt16) (turns : List Turn) : List Arrival :=
  (turns.filterMap Turn.arrival).filter (ofMessage s sequence)

/-- What is queued by the turns that take a fragment of the message. -/
def ownPushes (P : Platform) (s : Address) (sequence : UInt16) :
    Impl → List Turn → List ReceivedPacket
  | _, [] => []
  | impl, x :: turns =>
    match turn P impl x with
    | none => []
    | some impl' =>
      (if x.arrival.any (ofMessage s sequence) then
        impl'.receiveQueue.drop impl.receiveQueue.length else []) ++
          ownPushes P s sequence impl' turns

/-- The datagrams `ds` of a message arrive at a receiver, each once, in any order, among whatever
else arrives and within two seconds. Nothing else arrives under the message's number, and nothing
else that arrives has no defined result. -/
structure ArrivesOnce (P : Platform) (s : Address) (sequence : UInt16) (ds : List Datagram)
    (rcv : Impl) (turns : List Turn) : Prop where
  fresh : lookup FragmentAssembly.key (s, sequence) rcv.fragmentAssemblies = none
  once : ((ownArrivals s sequence turns).map Arrival.bytes).Perm (ds.map Datagram.bytes)
  window : ∀ before env t after, turns = before ++ .finish env t :: after →
    ownArrivals s sequence after ≠ [] → ∀ a ∈ ownArrivals s sequence before, t - a.env.now ≤ 2
  others : Run.Admits (turn P) (fun impl x => ¬x.arrival.any (ofMessage s sequence) →
    (turn P impl x).isSome) rcv turns

/-- The message is queued, once and whole. -/
def Reassembled (P : Platform) (s : Address) (sequence : UInt16) (data : Bytes) (rcv : Impl)
    (turns : List Turn) : Prop :=
  (Run.exec (turn P) rcv turns).isSome ∧ ownPushes P s sequence rcv turns = [⟨s, data⟩]

/-- An assembly begun at the given time is not swept before the last fragment arrives. -/
def Kept (s : Address) (sequence : UInt16) (turns : List Turn) (since : Time) : Prop :=
  ∀ before env t after, turns = before ++ .finish env t :: after →
    ownArrivals s sequence after ≠ [] → t - since ≤ 2

/-- The fragments of a message that the reassembly table holds. -/
def HoldsFragments (P : Platform) (s : Address) (sequence : UInt16) (data : Bytes)
    (started : Time → Prop) (impl : Impl) (got : List ℕ) : Prop :=
  if got = [] then lookup FragmentAssembly.key (s, sequence) impl.fragmentAssemblies = none
  else ∃ fa, lookup FragmentAssembly.key (s, sequence) impl.fragmentAssemblies = some fa ∧
    fa.fragments = slots (fragmentOf data) (numFragments data) got ∧
    fa.receivedMask = receivedMask P got ∧ started fa.startTime

section
variable {P : Platform} {s : Address} {sequence : UInt16} {data : Bytes} {impl impl' : Impl}

theorem HoldsFragments.mono {started started' : Time → Prop} {got : List ℕ}
    (h : HoldsFragments P s sequence data started impl got)
    (himp : ∀ since, started since → started' since) :
    HoldsFragments P s sequence data started' impl got := by
  unfold HoldsFragments at h ⊢
  split_ifs at h ⊢
  · exact h
  · obtain ⟨fa, hfind, hfrags, hmask, hstarted⟩ := h
    exact ⟨fa, hfind, hfrags, hmask, himp _ hstarted⟩

theorem Kept.tail {x : Turn} {turns : List Turn} {since : Time}
    (h : Kept s sequence (x :: turns) since) : Kept s sequence turns since := by
  intro before env t after hsplit
  exact h (x :: before) env t after (by rw [hsplit, List.cons_append])

theorem HoldsFragments.of_table {started : Time → Prop} {got : List ℕ}
    (h : HoldsFragments P s sequence data started impl got)
    (htable : lookup FragmentAssembly.key (s, sequence) impl'.fragmentAssemblies =
      lookup FragmentAssembly.key (s, sequence) impl.fragmentAssemblies) :
    HoldsFragments P s sequence data started impl' got := by
  unfold HoldsFragments at h ⊢
  rwa [htable]

/-- A payload that is no fragment of the message does not touch its assembly. -/
theorem processPayload_other {now : Time} {addr : Address} {hdr : PacketHeader} {payload : Bytes}
    (h : processPayload P now impl addr hdr payload = some impl')
    (hother : ¬(addr = s ∧ hdr.sequence = sequence ∧ 1 < hdr.fragCount)) :
    lookup FragmentAssembly.key (s, sequence) impl'.fragmentAssemblies =
      lookup FragmentAssembly.key (s, sequence) impl.fragmentAssemblies := by
  unfold processPayload at h
  by_cases hcount : hdr.fragCount > 1
  · have hkey : (addr, hdr.sequence) ≠ (s, sequence) := by
      intro heq
      cases heq
      exact hother ⟨rfl, rfl, hcount⟩
    have hput : ∀ fa : FragmentAssembly, fa.key = (addr, hdr.sequence) →
        lookup FragmentAssembly.key (s, sequence) (putFragmentAssembly impl fa).fragmentAssemblies =
          lookup FragmentAssembly.key (s, sequence) impl.fragmentAssemblies := fun fa hfa =>
      lookup_upsert_ne fa _ (by rwa [hfa])
    have hfa : (findOrCreateFragmentAssembly impl now addr hdr.sequence hdr.fragCount).key =
        (addr, hdr.sequence) := by
      unfold findOrCreateFragmentAssembly
      rcases hl : lookup FragmentAssembly.key (addr, hdr.sequence) impl.fragmentAssemblies with _ | fa
      · rfl
      · exact lookup_key hl
    rw [if_pos hcount] at h
    dsimp only at h
    by_cases hindex : hdr.fragIndex = 0
    · rw [if_pos hindex] at h
      cases h
    · rw [if_neg hindex] at h
      split at h
      · cases h
      · cases h
        exact hput _ hfa
      · split at h <;> cases h
        · exact (lookup_erased_ne (Ne.symm hkey) _).trans (hput _ hfa)
        · exact hput _ hfa
  · rw [if_neg hcount] at h
    cases h
    rfl

/-- A turn that takes no fragment of the message leaves what is held of it. -/
theorem turn_other {started : Time → Prop} {got : List ℕ} {x : Turn}
    (h : HoldsFragments P s sequence data started impl got)
    (hother : ¬x.arrival.any (ofMessage s sequence)) (hturn : turn P impl x = some impl')
    (hwindow : ∀ env t since, x = .finish env t → started since → t - since ≤ 2) :
    HoldsFragments P s sequence data started impl' got := by
  cases x with
  | finish env t =>
    cases hturn
    have hkept : ∀ fa : FragmentAssembly, started fa.startTime →
        decide (¬t - fa.startTime > 2) = true := fun fa hfa =>
      decide_eq_true (not_lt.mpr (hwindow env t _ rfl hfa))
    unfold HoldsFragments at h ⊢
    split_ifs at h ⊢
    · exact lookup_filter_none h
    · obtain ⟨fa, hfind, hfrags, hmask, hstarted⟩ := h
      exact ⟨fa, lookup_filter_of_pos hfind (hkept fa hstarted), hfrags, hmask, hstarted⟩
  | receive a =>
    apply h.of_table
    obtain ⟨⟨impl₁, ds⟩, hone, rfl⟩ := Option.map_eq_some_iff.mp hturn
    rw [receiveOne_eq] at hone
    rcases hp : packet a.bytes with _ | ⟨hdr, payload⟩
    · rw [hp] at hone
      cases hone
      rfl
    · rw [hp] at hone
      dsimp only at hone ⊢
      by_cases hid : hdr.protocolId = PacketHeader.PROTOCOL_ID
      · obtain ⟨conn, -, -, rfl, -⟩ | ⟨-, channel, deliver, impl₂, -, rfl, hdel⟩ :=
          processPacket_cases hone hid
        · rfl
        · rcases hdel with ⟨-, hpay⟩ | ⟨-, rfl⟩
          · refine Eq.trans (processPayload_other hpay fun hown => hother ?_) rfl
            obtain ⟨hsender, hseq, hcount⟩ := hown
            simp [Turn.arrival, ofMessage, hp, hsender, hseq, hcount]
          · rfl
      · unfold processPacket at hone
        rw [if_pos hid] at hone
        cases hone
        rfl

/-- The gates that let every packet through. -/
def TakesAll (r : PacketReliability) : Prop := r = unreliable ∨ r = reliableUnordered

instance (r : PacketReliability) : Decidable (TakesAll r) := inferInstanceAs (Decidable (_ ∨ _))

theorem acceptPacket_takesAll {r : PacketReliability} {hdr : PacketHeader} (hr : TakesAll r)
    (hrel : hdr.reliability = r) (channel : Channel) (payload : Bytes) :
    (acceptPacket channel hdr payload).2 = true := by
  unfold acceptPacket
  rw [hrel]
  rcases hr with rfl | rfl <;> rfl

/-- A fragment goes through such a gate. -/
theorem receiveOne_takesAll (P : Platform) (impl : Impl) {r : PacketReliability} {a : Arrival}
    {channel : Channel} {i : Nat} (hr : TakesAll r)
    (hbytes : a.bytes = fragmentPacket r data sequence channel i) :
    ∃ impl₁, impl₁.receiveQueue = impl.receiveQueue ∧
      impl₁.fragmentAssemblies = impl.fragmentAssemblies ∧
      receiveOne P impl a = (processPayload P a.env.now impl₁ a.sender
        (fragmentHeader r.index channel sequence i (numFragments data)
          (fragmentOf data i).length) (fragmentOf data i)).map fun impl => (impl, []) := by
  have hrel := reliability_fragmentHeader r.index channel sequence i (numFragments data)
    (fragmentOf data i).length
  rw [PacketReliability.ofIndex_index] at hrel
  have hone := processPacket_data P a.env impl a.sender (fragmentOf data i)
    (rfl : (fragmentHeader r.index channel sequence i (numFragments data)
      (fragmentOf data i).length).protocolId = _)
    (rfl : _ = PacketType.fragment.toUInt8) (.inr rfl)
  dsimp only at hone
  rw [acceptPacket_takesAll hr hrel, if_pos rfl] at hone
  -- the connection that is written back, whatever it is
  generalize (ackedConnection a.env impl a.sender (fragmentHeader r.index channel sequence i
    (numFragments data) (fragmentOf data i).length)).setChannel _ _ = conn at hone
  refine ⟨putConnection impl conn, rfl, rfl, ?_⟩
  rw [receiveOne_eq, hbytes, fragmentPacket, packet_serialize_append _ (length_fragmentOf_le data i)]
  exact hone

theorem lookup_putFragmentAssembly (impl : Impl) (fa : FragmentAssembly) :
    lookup FragmentAssembly.key fa.key (putFragmentAssembly impl fa).fragmentAssemblies = some fa :=
  lookup_upsert_self fa impl.fragmentAssemblies

/-- What a fragment makes of its assembly. -/
theorem processPayload_own {started : Time → Prop} {now : Time} {got : List ℕ} {i : ℕ}
    {hdr : PacketHeader} (h : HoldsFragments P s sequence data started impl got)
    (hnow : started now) (hmany : 1 < numFragments data) (hfew : numFragments data ≤ 255)
    (hi : i < numFragments data) (hnew : i ∉ got) (hseq : hdr.sequence = sequence)
    (hindex : hdr.fragIndex = UInt8.ofNat (i + 1))
    (hcount : hdr.fragCount = UInt8.ofNat (numFragments data)) :
    ∃ impl', processPayload P now impl s hdr (fragmentOf data i) = some impl' ∧
      if MaskComplete P (numFragments data) (got ++ [i]) then
        impl'.receiveQueue = impl.receiveQueue ++
          [⟨s, assembled (fragmentOf data) (numFragments data) (got ++ [i])⟩] ∧
        HoldsFragments P s sequence data started impl' []
      else impl'.receiveQueue = impl.receiveQueue ∧
        HoldsFragments P s sequence data started impl' (got ++ [i]) := by
  subst hseq
  have hpos : hdr.fragIndex ≠ 0 := by
    rw [hindex]
    intro hzero
    have := congrArg UInt8.toNat hzero
    rw [UInt8.toNat_ofNat'] at this
    change (i + 1) % 256 = 0 at this
    omega
  have hat : hdr.fragIndex.toNat - 1 = i := by
    rw [hindex, UInt8.toNat_ofNat']
    show (i + 1) % 256 - 1 = i
    omega
  have hn : hdr.fragCount.toNat = numFragments data := by
    rw [hcount, UInt8.toNat_ofNat']
    show numFragments data % 256 = numFragments data
    omega
  have hgt : hdr.fragCount > 1 := by
    rw [gt_iff_lt, UInt8.lt_iff_toNat_lt, hn]
    exact hmany
  -- the assembly as it is found or made
  obtain ⟨fa, hfa, hkey, hfrags, hmask, hstarted⟩ : ∃ fa,
      findOrCreateFragmentAssembly impl now s hdr.sequence hdr.fragCount = fa ∧
      fa.key = (s, hdr.sequence) ∧ fa.fragments = slots (fragmentOf data) (numFragments data) got ∧
      fa.receivedMask = receivedMask P got ∧ started fa.startTime := by
    unfold HoldsFragments at h
    unfold findOrCreateFragmentAssembly
    split_ifs at h with hnone
    · subst hnone
      rw [h]
      refine ⟨_, rfl, rfl, ?_, rfl, hnow⟩
      rw [slots_nil, ← hn]
      rfl
    · obtain ⟨fa, hfind, hfrags, hmask, hstarted⟩ := h
      rw [hfind]
      exact ⟨fa, rfl, lookup_key hfind, hfrags, hmask, hstarted⟩
  have hslot : fa.fragments[i]? = some [] := by
    rw [hfrags, getElem?_slots _ _ _ hi, if_neg hnew]
  unfold processPayload
  rw [if_pos hgt]
  dsimp only
  rw [hfa, if_neg hpos, hat, hslot]
  dsimp only
  rw [hfrags, hmask, hn, set_slots _ _ _ hi, ← receivedMask_append]
  split_ifs with hcomplete hno hno
  · refine ⟨_, rfl, rfl, ?_⟩
    unfold HoldsFragments
    rw [if_pos rfl]
    exact lookup_erased _ _
  · exact absurd hcomplete hno
  · exact absurd hno hcomplete
  · refine ⟨_, rfl, rfl, ?_⟩
    unfold HoldsFragments
    rw [if_neg (by simp)]
    refine ⟨{ fa with
      fragments := slots (fragmentOf data) (numFragments data) (got ++ [i])
      receivedMask := receivedMask P (got ++ [i]) }, ?_, rfl, rfl, hstarted⟩
    rw [← hkey]
    exact lookup_putFragmentAssembly impl { fa with
      fragments := slots (fragmentOf data) (numFragments data) (got ++ [i])
      receivedMask := receivedMask P (got ++ [i]) }

theorem ownArrivals_cons (x : Turn) (turns : List Turn) :
    ownArrivals s sequence (x :: turns) =
      (x.arrival.toList.filter (ofMessage s sequence)) ++ ownArrivals s sequence turns := by
  unfold ownArrivals
  rcases hx : x.arrival with _ | a <;> simp [hx, List.filter_cons]
  split_ifs <;> rfl

/-- One fragment of the message. -/
theorem turn_own {started : Time → Prop} {r : PacketReliability} {channel : Channel} {got : List ℕ}
    {i : ℕ} {a : Arrival} (hr : TakesAll r)
    (h : HoldsFragments P s sequence data started impl got) (hown : ofMessage s sequence a)
    (hnow : started a.env.now) (hmany : 1 < numFragments data) (hfew : numFragments data ≤ 255)
    (hi : i < numFragments data) (hnew : i ∉ got)
    (hbytes : a.bytes = fragmentPacket r data sequence channel i) :
    ∃ impl', turn P impl (.receive a) = some impl' ∧
      if MaskComplete P (numFragments data) (got ++ [i]) then
        impl'.receiveQueue = impl.receiveQueue ++
          [⟨s, assembled (fragmentOf data) (numFragments data) (got ++ [i])⟩] ∧
        HoldsFragments P s sequence data started impl' []
      else impl'.receiveQueue = impl.receiveQueue ∧
        HoldsFragments P s sequence data started impl' (got ++ [i]) := by
  have hsender : a.sender = s := by
    simp only [ofMessage, Bool.and_eq_true, decide_eq_true_eq] at hown
    exact hown.1
  obtain ⟨impl₁, hqueue, htable, hone⟩ := receiveOne_takesAll P impl hr hbytes
  obtain ⟨impl', hpay, heffect⟩ := processPayload_own (h.of_table (congrArg _ htable)) hnow hmany
    hfew hi hnew (rfl : (fragmentHeader r.index channel sequence i (numFragments data)
      (fragmentOf data i).length).sequence = sequence) rfl rfl
  refine ⟨impl', ?_, by rwa [hqueue] at heffect⟩
  rw [turn, hone, hsender, hpay]
  rfl

/-- A message of several packets on a channel whose gate takes them all, under the acknowledgement
that they carry. -/
structure Flight where
  reliability : PacketReliability
  takesAll : TakesAll reliability
  data : Bytes
  many : 1 < numFragments data
  few : numFragments data ≤ 255
  sequence : UInt16
  channel : Channel

namespace Flight

variable (m : Flight)

def packet (i : ℕ) : Bytes := fragmentPacket m.reliability m.data m.sequence m.channel i

/-- What is queued from the given fragments. -/
def received (s : Address) (got : List ℕ) : ReceivedPacket :=
  ⟨s, assembled (fragmentOf m.data) (numFragments m.data) got⟩

end Flight

theorem not_ownArrival {x : Turn} {turns : List Turn} (hown : ¬x.arrival.any (ofMessage s sequence)) :
    ownArrivals s sequence (x :: turns) = ownArrivals s sequence turns := by
  rw [ownArrivals_cons]
  rcases hx : x.arrival with _ | a
  · rfl
  · rw [hx] at hown
    simp only [Option.any_some] at hown
    simp [hown]

theorem ownArrival_cons {a : Arrival} (turns : List Turn) (hown : ofMessage s sequence a) :
    ownArrivals s sequence (.receive a :: turns) = a :: ownArrivals s sequence turns := by
  rw [ownArrivals_cons]
  simp [Turn.arrival, hown]

/-- A fragment is of one message. -/
theorem ofMessage_unique {sequence' : UInt16} {a : Arrival} (h : ofMessage s sequence a)
    (h' : ofMessage s sequence' a) : sequence = sequence' := by
  unfold ofMessage at h h'
  rcases hp : packet a.bytes with _ | p
  · simp [hp] at h
  · simp [hp] at h h'
    exact h.2.1.symm.trans h'.2.1

/-- The pushes of the fragments of some messages, of different numbers, are for each of them those of
a receiver that tests the mask. -/
theorem exec_reassembles {ι : Type*} [DecidableEq ι] {m : ι → Flight} {turns : List Turn}
    {got order : ι → List ℕ} (hdistinct : ∀ k l, (m k).sequence = (m l).sequence → k = l)
    (h : ∀ k, order k ≠ [] → HoldsFragments P s (m k).sequence (m k).data
      (Kept s (m k).sequence turns) impl (got k))
    (hbytes : ∀ k, (ownArrivals s (m k).sequence turns).map Arrival.bytes =
      (order k).map (m k).packet)
    (hfresh : ∀ k, (got k ++ order k).Nodup)
    (hbound : ∀ k, ∀ i ∈ order k, i < numFragments (m k).data)
    (hwindow : ∀ k before env t after, turns = before ++ .finish env t :: after →
      ownArrivals s (m k).sequence after ≠ [] →
        ∀ a ∈ ownArrivals s (m k).sequence before, t - a.env.now ≤ 2)
    (hothers : Run.Admits (turn P) (fun impl x =>
      (∀ k, ¬x.arrival.any (ofMessage s (m k).sequence)) → (turn P impl x).isSome) impl turns) :
    (Run.exec (turn P) impl turns).isSome ∧ ∀ k, ownPushes P s (m k).sequence impl turns =
      (pushes (MaskComplete P (numFragments (m k).data)) (got k) (order k)).map
        ((m k).received s) := by
  induction turns generalizing impl got order with
  | nil =>
    refine ⟨rfl, fun k => ?_⟩
    have hnil : order k = [] := List.map_eq_nil_iff.mp (hbytes k).symm
    rw [hnil]
    rfl
  | cons x turns ih =>
    have hwindow' : ∀ k before env t after, turns = before ++ .finish env t :: after →
        ownArrivals s (m k).sequence after ≠ [] →
        ∀ a ∈ ownArrivals s (m k).sequence before, t - a.env.now ≤ 2 := by
      intro k before env t after hsplit hafter a ha
      refine hwindow k (x :: before) env t after (by rw [hsplit, List.cons_append]) hafter a ?_
      rw [ownArrivals_cons]
      exact List.mem_append_right _ ha
    by_cases hown : ∃ k, x.arrival.any (ofMessage s (m k).sequence) = true
    · obtain ⟨k, hown⟩ := hown
      cases x with
      | finish env t => cases hown
      | receive a =>
        have hmine : ofMessage s (m k).sequence a = true := hown
        have hothers_k : ∀ l, l ≠ k → ¬(Turn.receive a).arrival.any (ofMessage s (m l).sequence) :=
          fun l hl hown' => hl (hdistinct l k (ofMessage_unique hown' hmine))
        have hnow : Kept s (m k).sequence (.receive a :: turns) a.env.now := by
          intro before env t after hsplit hafter
          rcases before with _ | ⟨y, before⟩
          · cases hsplit
          · obtain ⟨rfl, hrest⟩ := List.cons.inj hsplit
            refine hwindow k (.receive a :: before) env t after hsplit hafter a ?_
            rw [ownArrival_cons before hmine]
            exact List.mem_cons_self
        have hmineBytes := hbytes k
        rw [ownArrival_cons turns hmine] at hmineBytes
        rcases horder : order k with _ | ⟨i, is⟩
        · rw [horder] at hmineBytes
          cases hmineBytes
        · rw [horder] at hmineBytes
          obtain ⟨hfirst, hrest⟩ := List.cons.inj hmineBytes
          have hfresh_k := hfresh k
          rw [horder] at hfresh_k
          have hnew : i ∉ got k := fun hgot =>
            List.disjoint_of_nodup_append hfresh_k hgot List.mem_cons_self
          obtain ⟨impl', hturn, heffect⟩ := turn_own (m k).takesAll
            (h k (by rw [horder]; exact List.cons_ne_nil i is)) hmine hnow (m k).many (m k).few
            (hbound k i (by rw [horder]; exact List.mem_cons_self)) hnew hfirst
          -- what is held after it
          let got' : List ℕ := if MaskComplete P (numFragments (m k).data) (got k ++ [i]) then []
            else got k ++ [i]
          have hheld : HoldsFragments P s (m k).sequence (m k).data (Kept s (m k).sequence turns) impl'
              got' := by
            simp only [got']
            split_ifs at heffect ⊢
            · exact heffect.2.mono fun _ => Kept.tail
            · exact heffect.2.mono fun _ => Kept.tail
          have hfresh' : (got' ++ is).Nodup := by
            simp only [got']
            split_ifs
            · exact hfresh_k.of_append_right.of_cons
            · rwa [List.append_assoc, List.singleton_append]
          obtain ⟨hexec, hpushes⟩ := @ih impl' (Function.update got k got')
            (Function.update order k is)
            (fun l hl => by
              by_cases hlk : l = k
              · subst hlk
                rw [Function.update_self]
                exact hheld
              · rw [Function.update_of_ne hlk] at hl ⊢
                exact (turn_other (h l hl) (hothers_k l hlk) hturn fun env t since hx => by
                  cases hx).mono fun _ => Kept.tail)
            (fun l => by
              by_cases hlk : l = k
              · subst hlk
                rw [Function.update_self]
                exact hrest
              · rw [Function.update_of_ne hlk, ← hbytes l, not_ownArrival (hothers_k l hlk)])
            (fun l => by
              by_cases hlk : l = k
              · subst hlk
                rw [Function.update_self, Function.update_self]
                exact hfresh'
              · rw [Function.update_of_ne hlk, Function.update_of_ne hlk]
                exact hfresh l)
            (fun l => by
              by_cases hlk : l = k
              · subst hlk
                rw [Function.update_self]
                exact fun j hj => hbound l j (by rw [horder]; exact List.mem_cons_of_mem _ hj)
              · rw [Function.update_of_ne hlk]
                exact hbound l)
            hwindow' (hothers.2 impl' hturn)
          unfold Run.exec ownPushes
          rw [hturn]
          refine ⟨hexec, fun l => ?_⟩
          dsimp only
          rw [hpushes l]
          by_cases hl : l = k
          · subst hl
            rw [if_pos hown, horder, pushes, Function.update_self, Function.update_self]
            simp only [got']
            split_ifs at heffect ⊢
            · rw [heffect.1, List.drop_left]
              rfl
            · rw [heffect.1, List.drop_length, List.nil_append]
          · rw [if_neg (hothers_k l hl), List.nil_append, Function.update_of_ne hl,
              Function.update_of_ne hl]
    · have hnot : ∀ k, ¬x.arrival.any (ofMessage s (m k).sequence) := fun k hk => hown ⟨k, hk⟩
      obtain ⟨impl', hturn⟩ := Option.isSome_iff_exists.mp (hothers.1 hnot)
      have hheld : ∀ k, order k ≠ [] → HoldsFragments P s (m k).sequence (m k).data
          (Kept s (m k).sequence turns) impl' (got k) := by
        intro k hk
        refine (turn_other (h k hk) (hnot k) hturn fun env t since hx hsince => ?_).mono
          fun _ => Kept.tail
        refine hsince [] env t turns (by rw [hx, List.nil_append]) fun hdone => hk ?_
        have hnone := hbytes k
        rw [not_ownArrival (hnot k), hdone] at hnone
        exact List.map_eq_nil_iff.mp hnone.symm
      obtain ⟨hexec, hpushes⟩ := ih hheld
        (fun k => by rw [← hbytes k, not_ownArrival (hnot k)]) hfresh hbound hwindow'
        (hothers.2 impl' hturn)
      unfold Run.exec ownPushes
      rw [hturn]
      refine ⟨hexec, fun k => ?_⟩
      dsimp only
      rw [if_neg (hnot k), List.nil_append, hpushes k]

theorem fragmentOf_ne_nil {i : ℕ} (hi : i < numFragments data) : fragmentOf data i ≠ [] := by
  have hbefore : i * MAX_PAYLOAD_SIZE < data.length := by
    unfold numFragments MAX_PAYLOAD_SIZE MAX_PACKET_SIZE PacketHeader.SIZE at *
    omega
  unfold fragmentOf
  intro hnil
  have hlen := congrArg List.length hnil
  rw [List.length_take, List.length_drop, List.length_nil] at hlen
  unfold MAX_PAYLOAD_SIZE MAX_PACKET_SIZE PacketHeader.SIZE at *
  omega

theorem flatten_fragmentOf (data : Bytes) (n : ℕ) :
    ((List.range n).map (fragmentOf data)).flatten = data.take (n * MAX_PAYLOAD_SIZE) := by
  induction n with
  | zero => simp
  | succ n ih =>
    rw [List.range_succ, List.map_append, List.flatten_append, ih, Nat.succ_mul, List.take_add]
    simp [fragmentOf]

/-- All of its fragments are the message. -/
theorem assembled_range (data : Bytes) : assembled (fragmentOf data) (numFragments data)
    (List.range (numFragments data)) = data := by
  have hslots : slots (fragmentOf data) (numFragments data) (List.range (numFragments data)) =
      (List.range (numFragments data)).map (fragmentOf data) := by
    unfold slots
    apply List.map_congr_left
    intro i hi
    exact if_pos hi
  unfold assembled
  rw [hslots, flatten_fragmentOf, List.take_of_length_le]
  unfold numFragments MAX_PAYLOAD_SIZE MAX_PACKET_SIZE PacketHeader.SIZE
  omega

/-- The message is queued, once and whole, in the orders in which the mask is full at the last
fragment. -/
theorem Flight.received_iff (m : Flight) {order : List ℕ}
    (hperm : order.Perm (List.range (numFragments m.data))) :
    (pushes (MaskComplete P (numFragments m.data)) [] order).map (m.received s) = [⟨s, m.data⟩] ↔
      CompleteLast (MaskComplete P (numFragments m.data)) [] order := by
  have hne : order ≠ [] := by
    rintro rfl
    have hlen := hperm.length_eq
    have hmany := m.many
    rw [List.length_nil, List.length_range] at hlen
    omega
  have hperm' : ([] ++ order).Perm (List.range (numFragments m.data)) := hperm
  have hiff := pushes_eq_iff (MaskComplete P (numFragments m.data))
    (fun i hi => fragmentOf_ne_nil hi) hperm'
  rw [assembled_range] at hiff
  have hmap : ∀ l : List (List ℕ), l.map (m.received s) =
      (l.map (assembled (fragmentOf m.data) (numFragments m.data))).map (ReceivedPacket.mk s) :=
    fun l => List.map_map.symm
  have hinj : Function.Injective (ReceivedPacket.mk s) := fun a b hab => by
    cases hab
    rfl
  rw [hmap, show [(⟨s, m.data⟩ : ReceivedPacket)] = [m.data].map (ReceivedPacket.mk s) from rfl,
    (List.map_injective_iff.mpr hinj).eq_iff, hiff]
  simp [hne]

theorem reassembled_iff {channel : Channel} {turns : List Turn} {order : List ℕ} {rcv : Impl}
    {ds : List Datagram} (hmany : 1 < numFragments data) (hfew : numFragments data ≤ 255)
    (h : ArrivesOnce P s sequence ds rcv turns) (hperm : order.Perm (List.range (numFragments data)))
    (hbytes : (ownArrivals s sequence turns).map Arrival.bytes =
      order.map (fragmentPacket unreliable data sequence channel)) :
    Reassembled P s sequence data rcv turns ↔
      CompleteLast (MaskComplete P (numFragments data)) [] order := by
  have hstart : HoldsFragments P s sequence data (Kept s sequence turns) rcv [] := by
    unfold HoldsFragments
    rw [if_pos rfl]
    exact h.fresh
  let m : Flight := ⟨unreliable, .inl rfl, data, hmany, hfew, sequence, channel⟩
  have hothers : Run.Admits (turn P) (fun impl x =>
      (∀ _ : Unit, ¬x.arrival.any (ofMessage s m.sequence)) → (turn P impl x).isSome) rcv turns :=
    h.others.mono fun _ _ himp hnot => himp (hnot ())
  obtain ⟨hexec, hpushes⟩ := @exec_reassembles P s rcv Unit _ (fun _ => m) turns (fun _ => [])
    (fun _ => order) (fun _ _ _ => rfl) (fun _ _ => hstart) (fun _ => hbytes)
    (fun _ => (hperm.nodup_iff).mpr List.nodup_range)
    (fun _ i hi => List.mem_range.mp (hperm.subset hi)) (fun _ => h.window) hothers
  have hreceived := m.received_iff (P := P) (s := s) hperm
  rw [← hpushes ()] at hreceived
  unfold Reassembled
  rw [← hreceived]
  simp [hexec, m]

/-- The turns of a receiver that gets the fragments in the given order and nothing else. -/
def fragmentTurns (s : Address) (data : Bytes) (sequence : UInt16) (channel : Channel) (env : Env)
    (order : List ℕ) : List Turn :=
  order.map fun i => .receive ⟨s, fragmentPacket unreliable data sequence channel i, env⟩

theorem ofMessage_fragmentPacket {r : PacketReliability} {channel : Channel} {env : Env}
    (hmany : 1 < numFragments data) (hfew : numFragments data ≤ 255) (i : ℕ) :
    ofMessage s sequence ⟨s, fragmentPacket r data sequence channel i, env⟩ = true := by
  have hcount : (1 : UInt8) < UInt8.ofNat (numFragments data) := by
    rw [UInt8.lt_iff_toNat_lt, UInt8.toNat_ofNat']
    show 1 < numFragments data % 256
    omega
  unfold ofMessage fragmentPacket
  rw [packet_serialize_append _ (length_fragmentOf_le data i)]
  simp only [Option.any_some, decide_true, Bool.true_and, Bool.and_eq_true, decide_eq_true_eq]
  exact ⟨rfl, hcount⟩

theorem ownArrivals_fragmentTurns {channel : Channel} {env : Env} (hmany : 1 < numFragments data)
    (hfew : numFragments data ≤ 255) (order : List ℕ) :
    (ownArrivals s sequence (fragmentTurns s data sequence channel env order)).map Arrival.bytes =
      order.map (fragmentPacket unreliable data sequence channel) := by
  induction order with
  | nil => rfl
  | cons i is ih =>
    unfold fragmentTurns at ih ⊢
    rw [List.map_cons, ownArrivals_cons, List.map_append, ih]
    simp [Turn.arrival, ofMessage_fragmentPacket hmany hfew]

/-- In that order they arrive once. -/
theorem arrivesOnce_fragmentTurns (channel : Channel) (env : Env) {order : List ℕ} {rcv : Impl}
    (dest : Address) (hmany : 1 < numFragments data) (hfew : numFragments data ≤ 255)
    (hperm : order.Perm (List.range (numFragments data)))
    (hfresh : lookup FragmentAssembly.key (s, sequence) rcv.fragmentAssemblies = none) :
    ArrivesOnce P s sequence ((List.range (numFragments data)).map fun i =>
      ⟨dest, fragmentPacket unreliable data sequence channel i⟩) rcv
      (fragmentTurns s data sequence channel env order) := by
  refine ⟨hfresh, ?_, fun before env' t after hsplit => ?_, ?_⟩
  · rw [ownArrivals_fragmentTurns hmany hfew, List.map_map]
    exact hperm.map _
  · have hmem : Turn.finish env' t ∈ fragmentTurns s data sequence channel env order := by
      rw [hsplit]
      simp
    obtain ⟨i, -, hi⟩ := List.mem_map.mp hmem
    cases hi
  · apply Run.Admits.of_forall
    intro x hx impl hother
    obtain ⟨i, -, rfl⟩ := List.mem_map.mp hx
    exact absurd (ofMessage_fragmentPacket hmany hfew i) hother

/-- Of a message of more than eight fragments the ninth can be the last to arrive. -/
theorem not_reassembled_of_ninth (P : Platform) {channel : Channel} (env : Env) (rcv : Impl)
    (hmany : 8 < numFragments data) (hfew : numFragments data ≤ 255)
    (hfresh : lookup FragmentAssembly.key (s, sequence) rcv.fragmentAssemblies = none)
    (dest : Address) : ∃ turns, ArrivesOnce P s sequence ((List.range (numFragments data)).map fun i =>
      ⟨dest, fragmentPacket unreliable data sequence channel i⟩) rcv turns ∧
      ¬Reassembled P s sequence data rcv turns := by
  have hmore : 1 < numFragments data := by omega
  have hmem : 8 ∈ List.range (numFragments data) := List.mem_range.mpr hmany
  have hperm : ((List.range (numFragments data)).erase 8 ++ [8]).Perm
      (List.range (numFragments data)) :=
    List.perm_append_singleton _ _ |>.trans (List.perm_cons_erase hmem).symm
  have hne : (List.range (numFragments data)).erase 8 ≠ [] := by
    intro hnil
    have hlen := List.length_erase_of_mem hmem
    rw [hnil, List.length_nil, List.length_range] at hlen
    omega
  have harrive := arrivesOnce_fragmentTurns (P := P) channel env dest
    hmore hfew hperm hfresh
  refine ⟨_, harrive, ?_⟩
  rw [reassembled_iff hmore hfew harrive hperm (ownArrivals_fragmentTurns hmore hfew _)]
  exact not_completeLast_of_blind (maskComplete_blind P _) hne

end

/-- A message of more than one packet that was sent on the Unreliable channel is put together in
whatever order its fragments arrive if and only if there are at most eight of them. -/
theorem unreliable_fragments (P : Platform) {io : Io} {conn conn' : Connection} {data : Bytes}
    {priority : UInt8} {ds : List Datagram} (s : Address) (hlong : MAX_PAYLOAD_SIZE < data.length)
    (hsent : sendToConnection io conn data unreliable priority = (conn', ds, true)) :
    (∀ rcv turns, ArrivesOnce P s (conn.channels unreliable.index).localSeq ds rcv turns →
      Reassembled P s (conn.channels unreliable.index).localSeq data rcv turns) ↔
      numFragments data ≤ 8 := by
  obtain ⟨hfew, hds⟩ := sendToConnection_sent hlong hsent
  have hmany : 1 < numFragments data := by
    unfold numFragments MAX_PAYLOAD_SIZE MAX_PACKET_SIZE PacketHeader.SIZE at *
    omega
  subst hds
  constructor
  · intro hall
    by_contra hmore
    obtain ⟨turns, harrive, hnot⟩ := not_reassembled_of_ninth P io.toEnv {} (not_le.mp hmore) hfew
      rfl conn.address
    exact hnot (hall {} turns harrive)
  · intro height rcv turns harrive
    have hperm := harrive.once
    rw [List.map_map] at hperm
    -- the order in which the fragments arrive
    obtain ⟨order, hbytes, horder⟩ :=
      (congrFun (congrFun (List.eq_map_comp_perm _) _) _).mpr hperm
    rw [reassembled_iff hmany hfew harrive horder hbytes]
    exact completeLast_of_le height horder

/-! ### Two executions -/

/-- The left end sends a message on the Unreliable channel. -/
def unreliablySent (data : Bytes) : Connection × List Datagram × Bool :=
  sendToConnection (((World.connected World.localAddr).node .left).io (World.goodEnv 1))
    { address := World.localAddr .right, state := .connected } data unreliable 0

theorem unreliablySent_eq {data : Bytes} (hok : (unreliablySent data).2.2 = true) :
    unreliablySent data = ((unreliablySent data).1, (unreliablySent data).2.1, true) := by
  rw [← hok]

/-- The right end gets its fragments in the given order. -/
def unreliableTurns (data : Bytes) (order : List ℕ) : List Turn :=
  fragmentTurns (World.localAddr .left) data 0 {} (World.goodEnv 1) order

theorem unreliable_fragments_reversed :
    Reassembled World.maskedShift (World.localAddr .left) 0 longMessage
      ((World.connected World.localAddr).node .right) (unreliableTurns longMessage [1, 0]) := by
  have hlong : MAX_PAYLOAD_SIZE < longMessage.length := by decide +kernel
  have hok : (unreliablySent longMessage).2.2 = true := by decide +kernel
  have hsent := unreliablySent_eq hok
  have hds := (sendToConnection_sent hlong hsent).2
  refine (unreliable_fragments World.maskedShift (World.localAddr .left) hlong hsent).mpr
    (by decide +kernel) _ _ ?_
  rw [hds]
  exact arrivesOnce_fragmentTurns _ _ _ (by decide +kernel) (by decide +kernel) (by decide +kernel) rfl

/-- A message of nine fragments. -/
def nineFragments : Bytes := List.replicate 9473 7

theorem numFragments_nine : numFragments nineFragments = 9 := by
  unfold numFragments nineFragments
  rw [List.length_replicate]
  rfl

/-- It is sent, each of its fragments arrives once, and it is not received. -/
theorem unreliable_fragments_ninth :
    (unreliablySent nineFragments).2.2 = true ∧ MAX_PAYLOAD_SIZE < nineFragments.length ∧
    ∃ turns, ArrivesOnce World.maskedShift (World.localAddr .left) 0
        (unreliablySent nineFragments).2.1 ((World.connected World.localAddr).node .right) turns ∧
      ¬Reassembled World.maskedShift (World.localAddr .left) 0 nineFragments
        ((World.connected World.localAddr).node .right) turns := by
  have hok : (unreliablySent nineFragments).2.2 = true := by decide +kernel
  have hlong : MAX_PAYLOAD_SIZE < nineFragments.length := by
    unfold nineFragments
    rw [List.length_replicate]
    decide
  refine ⟨hok, hlong, ?_⟩
  rw [(sendToConnection_sent hlong (unreliablySent_eq hok)).2]
  exact not_reassembled_of_ninth World.maskedShift (World.goodEnv 1) _
    (by rw [numFragments_nine]; decide) (by rw [numFragments_nine]; decide) rfl _

end CampelloNet.Transport.Udp
