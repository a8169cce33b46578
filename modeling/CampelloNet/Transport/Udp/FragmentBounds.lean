import CampelloNet.Lib.Run
import CampelloNet.Transport.Udp.Fragmentation

/-!
# The accesses to the fragments of an assembly

`process_payload` takes the index of a fragment from its header, and the vector it uses it on has the
size that the first fragment of the message had in its header. Nothing compares the two: the access
is within the vector exactly where the headers agree (`inBounds_iff`).
-/

namespace CampelloNet.Transport.Udp

open Lib

/-! ### Runs -/

/-- The public methods that change a transport. -/
inductive Call
  | bind (env : Env) (opened : Bool)
  | connect (env : Env) (opened : Bool) (address : Address)
  | disconnect (env : Env)
  | send (env : Env) (data : Bytes) (r : PacketReliability)
  | sendWithPriority (env : Env) (address : Address) (data : Bytes) (r : PacketReliability)
      (priority : UInt8)
  | poll (env : Env) (t : Time) (arrivals : List Arrival)
  | popReceive (maxLength : Nat)
  | setConnectionBandwidthLimit (address : Address) (bytesPerSecond : UInt32)
  | setChannelBandwidthLimit (address : Address) (r : PacketReliability) (bytesPerSecond : UInt32)

variable (P : Platform)

def call (impl : Impl) : Call → Option Impl
  | .bind env opened => some (Udp.bind env opened impl).1
  | .connect env opened address => some (Udp.connect env opened address impl).1
  | .disconnect env => some (Udp.disconnect env impl).1
  | .send env data r => some (Udp.send env data r impl).1
  | .sendWithPriority env address data r priority =>
    some (Udp.sendWithPriority env address data r priority impl).1
  | .poll env t arrivals => (Udp.poll P env t arrivals impl).map Prod.fst
  | .popReceive maxLength => some (Udp.popReceive maxLength impl).1
  | .setConnectionBandwidthLimit address n => some (Udp.setConnectionBandwidthLimit address n impl)
  | .setChannelBandwidthLimit address r n => some (Udp.setChannelBandwidthLimit address r n impl)

/-! ### Accesses -/

/-- `process_packet` hands the packet to `process_payload`. -/
def HandsOn (env : Env) (impl : Impl) (sender : Address) (hdr : PacketHeader) (payload : Bytes) : Prop :=
  hdr.protocolId = PacketHeader.PROTOCOL_ID ∧ hdr.packetType ≠ PacketType.handshake.toUInt8 ∧
    hdr.packetType ≠ PacketType.disconnect.toUInt8 ∧ hdr.packetType ≠ PacketType.ack.toUInt8 ∧
    (acceptPacket ((ackedConnection env impl sender hdr).channels hdr.channel) hdr payload).2 = true

instance (env : Env) (impl : Impl) (sender : Address) (hdr : PacketHeader) (payload : Bytes) :
    Decidable (HandsOn env impl sender hdr payload) :=
  inferInstanceAs (Decidable (_ ∧ _ ∧ _ ∧ _ ∧ _))

/-- The header of a datagram, if its payload gets to `process_payload`. -/
def handedOn (impl : Impl) (a : Arrival) : Option PacketHeader :=
  ((packet a.bytes).filter fun p => HandsOn a.env impl a.sender p.1 p.2).map Prod.fst

/-- The access `fragments[frag_index - 1]` of a datagram is within the vector of its assembly. -/
def ArrivalInBounds (impl : Impl) (a : Arrival) : Prop :=
  ∀ hdr ∈ handedOn impl a, hdr.fragCount > 1 →
    1 ≤ hdr.fragIndex.toNat ∧ hdr.fragIndex.toNat - 1 <
      (findOrCreateFragmentAssembly impl a.env.now a.sender hdr.sequence hdr.fragCount).fragments.length

/-- The index of a fragment is one of those of the count that its message began with, which is its
own count if it is the first fragment. -/
def ArrivalFits (impl : Impl) (a : Arrival) : Prop :=
  ∀ hdr ∈ handedOn impl a, hdr.fragCount > 1 →
    1 ≤ hdr.fragIndex ∧ hdr.fragIndex ≤
      ((lookup FragmentAssembly.key (a.sender, hdr.sequence) impl.fragmentAssemblies).map
        FragmentAssembly.fragCount).getD hdr.fragCount

/-- What holds of every datagram that a call takes, when it is taken. -/
def EachArrival (q : Impl → Arrival → Prop) (impl : Impl) : Call → Prop
  | .poll env t arrivals => impl.socketOpen = true →
    Run.Admits (turn P) (fun impl x => ∀ a ∈ x.arrival, q impl a) impl
      (arrivals.map .receive ++ [.finish env t])
  | _ => True

/-! ### The sizes of the vectors -/

/-- Each vector has the size that the first fragment of its message had in its header. -/
def Sized (impl : Impl) : Prop :=
  ∀ fa ∈ impl.fragmentAssemblies, fa.fragments.length = fa.fragCount.toNat

theorem sized_findOrCreate {impl : Impl} (h : Sized impl) (now : Time) (addr : Address)
    (sequence : UInt16) (fragCount : UInt8) :
    (findOrCreateFragmentAssembly impl now addr sequence fragCount).fragments.length =
      (((lookup FragmentAssembly.key (addr, sequence) impl.fragmentAssemblies).map
        FragmentAssembly.fragCount).getD fragCount).toNat := by
  rw [findOrCreateFragmentAssembly]
  cases hfind : lookup FragmentAssembly.key (addr, sequence) impl.fragmentAssemblies with
  | none => exact List.length_replicate
  | some fa => exact h fa (lookup_mem hfind)

theorem inBounds_iff_fits {impl : Impl} (h : Sized impl) (a : Arrival) :
    ArrivalInBounds impl a ↔ ArrivalFits impl a := by
  refine forall₂_congr fun p _ => forall_congr' fun hmany => ?_
  rw [sized_findOrCreate h]
  simp only [UInt8.le_iff_toNat_le]
  have : (1 : UInt8).toNat = 1 := rfl
  rw [this]
  omega

theorem Sized.of_eq {impl impl' : Impl} (h : Sized impl)
    (heq : impl'.fragmentAssemblies = impl.fragmentAssemblies) : Sized impl' := by
  rw [Sized, heq]
  exact h

theorem Sized.of_subset {impl impl' : Impl} (h : Sized impl)
    (hsub : impl'.fragmentAssemblies ⊆ impl.fragmentAssemblies) : Sized impl' :=
  fun fa hfa => h fa (hsub hfa)

theorem Sized.put {impl : Impl} (h : Sized impl) {fa : FragmentAssembly}
    (hfa : fa.fragments.length = fa.fragCount.toNat) : Sized (putFragmentAssembly impl fa) := by
  intro fa' hfa'
  rcases mem_upsert hfa' with rfl | hmem
  · exact hfa
  · exact h fa' hmem

theorem Sized.found {impl : Impl} (h : Sized impl) (now : Time) (addr : Address)
    (sequence : UInt16) (fragCount : UInt8) :
    (findOrCreateFragmentAssembly impl now addr sequence fragCount).fragments.length =
      (findOrCreateFragmentAssembly impl now addr sequence fragCount).fragCount.toNat := by
  rw [findOrCreateFragmentAssembly]
  cases hfind : lookup FragmentAssembly.key (addr, sequence) impl.fragmentAssemblies with
  | none => exact List.length_replicate
  | some fa => exact h fa (lookup_mem hfind)

/-- What `process_payload` accesses, and what it leaves. -/
theorem processPayload_spec {impl : Impl} (h : Sized impl) (now : Time) (addr : Address)
    (hdr : PacketHeader) (payload : Bytes) :
    ((processPayload P now impl addr hdr payload).isSome ↔ (hdr.fragCount > 1 →
      1 ≤ hdr.fragIndex.toNat ∧ hdr.fragIndex.toNat - 1 <
        (findOrCreateFragmentAssembly impl now addr hdr.sequence hdr.fragCount).fragments.length)) ∧
    ∀ impl' ∈ processPayload P now impl addr hdr payload, Sized impl' := by
  have hfound := h.found now addr hdr.sequence hdr.fragCount
  rw [processPayload]
  by_cases hmany : hdr.fragCount > 1
  · rw [if_pos hmany]
    generalize findOrCreateFragmentAssembly impl now addr hdr.sequence hdr.fragCount = fa at hfound
    simp only [hmany, forall_const]
    by_cases hzero : hdr.fragIndex = 0
    · rw [if_pos hzero, hzero]
      exact ⟨by simp, by simp⟩
    · rw [if_neg hzero]
      have hpos : 1 ≤ hdr.fragIndex.toNat := by
        rw [Nat.one_le_iff_ne_zero]
        intro h0
        exact hzero (UInt8.toNat_inj.mp h0)
      have hset : ∀ frag, ({ fa with
          fragments := fa.fragments.set (hdr.fragIndex.toNat - 1) frag
          receivedMask := fa.receivedMask ||| (P.oneShl (hdr.fragIndex.toNat - 1)).toUInt8 } :
            FragmentAssembly).fragments.length = fa.fragCount.toNat := by
        intro frag
        rw [← hfound]
        exact List.length_set
      rcases hget : fa.fragments[hdr.fragIndex.toNat - 1]? with _ | frag
      · have hout := List.getElem?_eq_none_iff.mp hget
        exact ⟨by simp; omega, by simp⟩
      · obtain ⟨hlt, -⟩ := List.getElem?_eq_some_iff.mp hget
        cases frag with
        | cons b frag =>
          refine ⟨iff_of_true rfl ⟨hpos, hlt⟩, fun impl' himpl' => ?_⟩
          cases himpl'
          exact h.put hfound
        | nil =>
          simp only
          split
          · refine ⟨iff_of_true rfl ⟨hpos, hlt⟩, fun impl' himpl' => ?_⟩
            cases himpl'
            have hput := h.put (hset payload)
            exact hput.of_subset (List.filter_subset_self _)
          · refine ⟨iff_of_true rfl ⟨hpos, hlt⟩, fun impl' himpl' => ?_⟩
            cases himpl'
            exact h.put (hset payload)
  · rw [if_neg hmany]
    refine ⟨iff_of_true rfl fun h => absurd h hmany, fun impl' himpl' => ?_⟩
    cases himpl'
    exact h

/-- Before its payload, a packet leaves the assemblies alone. -/
theorem processPacket_handsOn (env : Env) (impl : Impl) (sender : Address) (hdr : PacketHeader)
    (payload : Bytes) :
    (HandsOn env impl sender hdr payload ∧ ∃ impl', impl'.fragmentAssemblies = impl.fragmentAssemblies ∧
      processPacket P env impl sender hdr payload =
        (processPayload P env.now impl' sender hdr payload).map fun impl => (impl, [])) ∨
    (¬HandsOn env impl sender hdr payload ∧ ∃ out, processPacket P env impl sender hdr payload = some out ∧
      out.1.fragmentAssemblies = impl.fragmentAssemblies) := by
  rw [processPacket]
  by_cases hid : hdr.protocolId ≠ PacketHeader.PROTOCOL_ID
  · rw [if_pos hid]
    exact .inr ⟨fun h => hid h.1, _, rfl, rfl⟩
  rw [if_neg hid]
  by_cases hhandshake : hdr.packetType = PacketType.handshake.toUInt8
  · simp only [if_pos hhandshake]
    exact .inr ⟨fun h => h.2.1 hhandshake, _, rfl, rfl⟩
  simp only [if_neg hhandshake]
  by_cases hdisconnect : hdr.packetType = PacketType.disconnect.toUInt8
  · rw [if_pos hdisconnect]
    exact .inr ⟨fun h => h.2.2.1 hdisconnect, _, rfl, rfl⟩
  rw [if_neg hdisconnect]
  by_cases hack : hdr.packetType = PacketType.ack.toUInt8
  · rw [if_pos hack]
    exact .inr ⟨fun h => h.2.2.2.1 hack, _, rfl, rfl⟩
  rw [if_neg hack]
  split
  · rename_i haccepted
    refine .inl ⟨⟨not_not.mp hid, hhandshake, hdisconnect, hack, haccepted⟩, _, ?_, rfl⟩
    rfl
  · rename_i haccepted
    exact .inr ⟨fun h => haccepted h.2.2.2.2, _, rfl, rfl⟩

theorem receiveOne_bounds {impl : Impl} (h : Sized impl) (a : Arrival) :
    ((receiveOne P impl a).isSome ↔ ArrivalInBounds impl a) ∧
      ∀ out ∈ receiveOne P impl a, Sized out.1 := by
  rw [receiveOne_eq, ArrivalInBounds, handedOn]
  rcases packet a.bytes with _ | ⟨hdr, payload⟩
  · refine ⟨iff_of_true rfl (fun _ hhdr => nomatch hhdr), fun out hout => ?_⟩
    cases hout
    exact h
  · simp only
    rcases processPacket_handsOn P a.env impl a.sender hdr payload with
      ⟨hon, impl', hsame, heq⟩ | ⟨hon, out, heq, hsame⟩
    · obtain ⟨hsome, hsized⟩ := processPayload_spec P (h.of_eq hsame) a.env.now a.sender hdr payload
      have hfound : findOrCreateFragmentAssembly impl' a.env.now a.sender hdr.sequence hdr.fragCount =
          findOrCreateFragmentAssembly impl a.env.now a.sender hdr.sequence hdr.fragCount := by
        rw [findOrCreateFragmentAssembly, findOrCreateFragmentAssembly, hsame]
      rw [hfound] at hsome
      rw [heq, Option.isSome_map, hsome]
      refine ⟨by simp [hon], fun out hout => ?_⟩
      obtain ⟨impl₁, himpl₁, rfl⟩ := Option.map_eq_some_iff.mp hout
      exact hsized impl₁ himpl₁
    · rw [heq]
      refine ⟨iff_of_true rfl (by simp [hon]), fun out' hout => ?_⟩
      cases hout
      exact h.of_eq hsame

theorem sized_turn {impl impl' : Impl} (h : Sized impl) {x : Turn} (hturn : turn P impl x = some impl') :
    Sized impl' := by
  cases x with
  | receive a =>
    obtain ⟨out, hout, rfl⟩ := Option.map_eq_some_iff.mp hturn
    exact (receiveOne_bounds P h a).2 out hout
  | finish env t =>
    cases hturn
    exact h.of_subset (List.filter_subset_self _)

theorem isSome_turn {impl : Impl} (h : Sized impl) (x : Turn) :
    (turn P impl x).isSome ↔ ∀ a ∈ x.arrival, ArrivalInBounds impl a := by
  cases x with
  | receive a =>
    rw [turn, Option.isSome_map, (receiveOne_bounds P h a).1]
    simp [Turn.arrival]
  | finish env t => simp [turn, Turn.arrival]

/-! ### Runs of calls -/

theorem sized_nil {impl : Impl} (h : impl.fragmentAssemblies = []) : Sized impl := by
  intro fa hfa
  rw [h] at hfa
  cases hfa

theorem sized_call {impl impl' : Impl} (h : Sized impl) {c : Call} (hcall : call P impl c = some impl') :
    Sized impl' := by
  cases c with
  | bind env opened =>
    cases hcall
    refine sized_nil ?_
    cases opened <;> rfl
  | connect env opened address =>
    cases hcall
    refine sized_nil ?_
    cases opened <;> rfl
  | disconnect env =>
    cases hcall
    exact sized_nil rfl
  | send env data r =>
    cases hcall
    refine h.of_eq ?_
    rw [send]
    split <;> rfl
  | sendWithPriority env address data r priority =>
    cases hcall
    refine h.of_eq ?_
    rw [sendWithPriority]
    split <;> rfl
  | poll env t arrivals =>
    by_cases hclosed : impl.socketOpen = false
    · rw [call, poll, if_pos hclosed] at hcall
      cases hcall
      exact h
    · rw [call, exec_turn_poll P env t arrivals impl (by simpa using hclosed)] at hcall
      exact Run.invariant_exec hcall h fun _ _ _ hs hturn => sized_turn P hs hturn
  | popReceive maxLength =>
    cases hcall
    refine h.of_eq ?_
    rw [popReceive]
    split <;> rfl
  | setConnectionBandwidthLimit address n =>
    cases hcall
    refine h.of_eq ?_
    rw [setConnectionBandwidthLimit]
    split <;> rfl
  | setChannelBandwidthLimit address r n =>
    cases hcall
    refine h.of_eq ?_
    rw [setChannelBandwidthLimit]
    split <;> rfl

/-- The accesses of a call are the only thing in it that may be undefined. -/
theorem isSome_call {impl : Impl} (h : Sized impl) (c : Call) :
    (call P impl c).isSome ↔ EachArrival P ArrivalInBounds impl c := by
  cases c with
  | poll env t arrivals =>
    by_cases hopen : impl.socketOpen = true
    · have hexec := Run.isSome_exec_iff (fun _ _ _ hs hturn => sized_turn P hs hturn)
        (fun _ x hs => isSome_turn P hs x) (arrivals.map .receive ++ [.finish env t]) h
      rw [call, exec_turn_poll P env t arrivals impl hopen, hexec, EachArrival]
      exact ⟨fun h _ => h, fun h => h hopen⟩
    · rw [call, poll, if_pos (by simpa using hopen)]
      exact iff_of_true rfl fun h => absurd h hopen
  | bind | connect | disconnect | send | sendWithPriority | popReceive
  | setConnectionBandwidthLimit | setChannelBandwidthLimit => exact iff_of_true rfl trivial

/-- The runs whose accesses are all within their vectors are those with a defined result. -/
theorem isSome_exec_call (calls : List Call) :
    (Run.exec (call P) {} calls).isSome ↔ Run.Admits (call P) (EachArrival P ArrivalInBounds) {} calls :=
  Run.isSome_exec_iff (fun _ _ _ hs hcall => sized_call P hs hcall) (fun _ c hs => isSome_call P hs c)
    calls (sized_nil rfl)

/-- The accesses of a run are within their vectors exactly if each fragment has an index of the count
that its message began with. -/
theorem inBounds_iff (calls : List Call) :
    Run.Admits (call P) (EachArrival P ArrivalInBounds) {} calls ↔
      Run.Admits (call P) (EachArrival P ArrivalFits) {} calls := by
  refine Run.admits_iff_of_invariant (fun _ _ _ hs hcall => sized_call P hs hcall) ?_ calls
    (sized_nil rfl)
  intro impl c h
  cases c with
  | poll env t arrivals =>
    refine forall_congr' fun _ => Run.admits_iff_of_invariant
      (fun _ _ _ hs hturn => sized_turn P hs hturn) ?_ _ h
    exact fun impl x hs => forall₂_congr fun a _ => inBounds_iff_fits hs a
  | bind | connect | disconnect | send | sendWithPriority | popReceive
  | setConnectionBandwidthLimit | setChannelBandwidthLimit => exact Iff.rfl

def somePeer : Address := .inet 7777 #v[192, 0, 2, 1]

/-- A fragment with the index 0 from an unknown sender. -/
def indexZero : List Call :=
  [.bind ⟨0, fun _ => true⟩ true, .poll ⟨0, fun _ => true⟩ 0
    [⟨somePeer, (fragmentHeader PacketReliability.unreliable.index {} 0 255 2 0).serialize,
      ⟨0, fun _ => true⟩⟩]]

theorem not_inBounds : ¬ ∀ (P : Platform) (calls : List Call),
    Run.Admits (call P) (EachArrival P ArrivalInBounds) {} calls := by
  intro h
  have hsome := (isSome_exec_call ⟨fun _ => 0⟩ indexZero).mpr (h _ _)
  revert hsome
  decide +kernel

end CampelloNet.Transport.Udp
