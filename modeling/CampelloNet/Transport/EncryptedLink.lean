import CampelloNet.Transport.EncryptedDelivery
import CampelloNet.Transport.Medium

/-!
# Two ends of an encrypted link

A client and a server with one key, each on its side of a medium that brings every packet of either
side to the other, once and in order. Whatever the order of their calls, each side pops what the other
has sent, in order and without a gap, short of what is still on the way (`transparent`).
-/

namespace CampelloNet.Transport

open Lib Crypto Encrypted

/-- For whom a side seals, when the client is at this address. -/
def Side.dest (addr : Address) : Side → Peer
  | .client => .server
  | .server => .client (addressHash addr)

namespace EncryptedTransport

variable {σ : Type}

/-! ### The ends -/

/-- The two ends and the medium between them. -/
structure Ends (σ : Type) where
  world : σ
  enc : Side → EncryptedTransport σ

/-- A call on one of the ends. -/
inductive Action
  | send (side : Side) (data : Bytes) (r : PacketReliability)
  | poll (side : Side)
  | pop (side : Side) (maxLength : ℕ)

namespace Action

def side : Action → Side
  | send side _ _ => side
  | poll side => side
  | pop side _ => side

/-- The method that is called, when the client is at this address. -/
def call (addr : Address) : Action → Call
  | send .client data r => .send data r
  | send .server data r => .sendTo addr data r
  | poll _ => .poll
  | pop _ maxLength => .popReceive maxLength

/-- What a side sends. -/
def sent (s : Side) : Action → Option Bytes
  | send side data _ => if side = s then some data else none
  | poll _ | pop _ _ => none

end Action

namespace Ends

/-- Both ends are made from one key. -/
def start (key : Bytes) (w : σ) : Ends σ := ⟨w, fun _ => new w key⟩

/-- An end with its inner transport. -/
def own (ends : Ends σ) (side : Side) : EncryptedTransport σ :=
  { ends.enc side with inner := ends.world }

section
variable (T : Side → ITransport σ) (addr : Address)

def step (ends : Ends σ) (a : Action) : Ends σ :=
  let enc := EncryptedTransport.call (T a.side) (ends.own a.side) (a.call addr)
  ⟨enc.inner, Function.update ends.enc a.side enc⟩

/-- What a side pops by a call. -/
def output (ends : Ends σ) (s : Side) : Action → Option Bytes
  | .pop side maxLength =>
    if side = s then (((ends.own side).popReceive (T side) maxLength).2).map Prod.fst else none
  | .send _ _ _ | .poll _ => none

def run : Ends σ → List Action → Ends σ
  | ends, [] => ends
  | ends, a :: as => run (ends.step T addr a) as

/-- The payloads that a side pops in a run. -/
def popped (s : Side) : Ends σ → List Action → List Bytes
  | _, [] => []
  | ends, a :: as => (ends.output T s a).toList ++ popped s (ends.step T addr a) as

end

end Ends

/-- The payloads that a side sends in a run. -/
def sends (s : Side) (actions : List Action) : List Bytes := actions.filterMap (Action.sent s)

theorem sends_cons (s : Side) (a : Action) (actions : List Action) :
    sends s (a :: actions) = (a.sent s).toList ++ sends s actions := by
  unfold sends
  rw [List.filterMap_cons]
  rcases a.sent s with _ | data <;> rfl

/-! ### One direction -/

/-- The packets of some payloads, from a counter on. -/
def packets (keyed : Key × UInt8) : ℕ → List Bytes → List Bytes
  | _, [] => []
  | n, data :: rest => packet keyed (.ofNat n) data :: packets keyed (n + 1) rest

theorem packets_append (keyed : Key × UInt8) (n : ℕ) (l l' : List Bytes) :
    packets keyed n (l ++ l') = packets keyed n l ++ packets keyed (n + l.length) l' := by
  induction l generalizing n with
  | nil => rfl
  | cons data l ih =>
    rw [List.cons_append, packets, packets, ih, List.cons_append, List.length_cons, Nat.add_assoc,
      Nat.add_comm 1]

/-- What one side receives is found by what the other seals for. -/
theorem facing_dest (addr : Address) (side : Side) :
    facing (side.other.dest addr) addr = side.dest addr := by cases side <;> rfl

/-- From a side to the other: so many payloads were sent and so many popped, the counter and the
window stand there, and what is missing is on the way. -/
structure Flow (key : Bytes) (addr : Address) (flight : Side → σ → List Bytes) (side : Side)
    (sent popped : List Bytes) (ends : Ends σ) : Prop where
  counted : ((ends.enc side).counters (side.dest addr)).outbound = .ofNat sent.length
  tracked : (window ((ends.enc side.other).counters (side.other.dest addr))).Tracks
    {n | n < popped.length}
  highest : (window ((ends.enc side.other).counters (side.other.dest addr))).highest ≤ popped.length
  waiting : ∃ rest, sent = popped ++ rest ∧ flight side ends.world =
    packets ((new () key).outboundKey (side.dest addr)) popped.length rest

/-- Both directions. -/
structure Linked (key : Bytes) (addr : Address) (up : σ → Prop) (flight : Side → σ → List Bytes)
    (sent popped : Side → List Bytes) (ends : Ends σ) : Prop where
  up : up ends.world
  keys : ∀ side p, (ends.enc side).inboundKey p = (new () key).inboundKey p
  flow : ∀ side, Flow key addr flight side (sent side) (popped side.other) ends

section
variable {T : Side → ITransport σ} {addr : Address} {up : σ → Prop} {flight : Side → σ → List Bytes}
  {key : Bytes} {sent popped : Side → List Bytes} {ends : Ends σ}

/-- The keys for what is opened are those for what is sealed. -/
theorem outboundKey_of_inboundKey (enc : EncryptedTransport σ)
    (h : ∀ p, enc.inboundKey p = (new () key).inboundKey p) (dest : Peer) :
    enc.outboundKey dest = (new () key).outboundKey dest := by
  have hkey := h (facing dest .invalid)
  rw [inboundKey_facing, inboundKey_facing] at hkey
  cases dest with
  | server => exact Prod.ext hkey rfl
  | client hash => exact Prod.ext hkey rfl

/-- Where an end keeps its counters and its keys, and the medium its packets, nothing has changed. -/
theorem Linked.still (h : Linked key addr up flight sent popped ends) (side : Side)
    (enc : EncryptedTransport σ) (hcounters : ∀ p, enc.counters p = (ends.enc side).counters p)
    (hkeys : ∀ p, enc.inboundKey p = (ends.enc side).inboundKey p) (hup : up enc.inner)
    (hflight : ∀ s, flight s enc.inner = flight s ends.world) :
    Linked key addr up flight sent popped ⟨enc.inner, Function.update ends.enc side enc⟩ := by
  have hsame : ∀ s p, (Function.update ends.enc side enc s).counters p = (ends.enc s).counters p := by
    intro s p
    by_cases hs : s = side
    · rw [hs, Function.update_self, hcounters]
    · rw [Function.update_of_ne hs]
  refine ⟨hup, fun s p => ?_, fun s => ?_⟩
  · show (Function.update ends.enc side enc s).inboundKey p = _
    by_cases hs : s = side
    · rw [hs, Function.update_self, hkeys, h.keys]
    · rw [Function.update_of_ne hs, h.keys]
  · obtain ⟨hcounted, htracked, hhighest, hwaiting⟩ := h.flow s
    refine ⟨?_, ?_, ?_, ?_⟩
    · rw [hsame]
      exact hcounted
    · rw [hsame]
      exact htracked
    · rw [hsame]
      exact hhighest
    · rw [hflight]
      exact hwaiting

/-! ### Steps -/

theorem own_counters (ends : Ends σ) (side : Side) (p : Peer) :
    (ends.own side).counters p = (ends.enc side).counters p := by cases p <;> rfl

theorem own_inboundKey (ends : Ends σ) (side : Side) (p : Peer) :
    (ends.own side).inboundKey p = (ends.enc side).inboundKey p := by cases p <;> rfl

/-- The end that is called, after the call. -/
theorem step_enc_self (ends : Ends σ) (a : Action) :
    (ends.step T addr a).enc a.side = call (T a.side) (ends.own a.side) (a.call addr) :=
  Function.update_self a.side _ ends.enc

theorem step_enc_ne (ends : Ends σ) (a : Action) {s : Side} (h : s ≠ a.side) :
    (ends.step T addr a).enc s = ends.enc s := Function.update_of_ne h _ ends.enc

theorem call_send (enc : EncryptedTransport σ) (side : Side) (data : Bytes) (r : PacketReliability) :
    call (T side) enc (Action.call addr (.send side data r)) =
      { enc.setCounters (side.dest addr) { enc.counters (side.dest addr) with
          outbound := (enc.counters (side.dest addr)).outbound + 1 } with
        inner := transmit T addr (packet (enc.outboundKey (side.dest addr))
          (enc.counters (side.dest addr)).outbound data) r enc.inner side } := by
  cases side with
  | client => exact congrArg Prod.fst (sendSealed_eq enc .server data _)
  | server => exact congrArg Prod.fst (sendSealed_eq enc (.client (addressHash addr)) data _)

/-- What sending does to the counters and the keys of the end. -/
theorem counters_send (T : Side → ITransport σ) (addr : Address) (ends : Ends σ) (side : Side)
    (data : Bytes) (r : PacketReliability) (p : Peer) :
    window (((ends.step T addr (.send side data r)).enc side).counters p) =
        window ((ends.enc side).counters p) ∧
      (((ends.step T addr (.send side data r)).enc side).counters (side.dest addr)).outbound =
        ((ends.enc side).counters (side.dest addr)).outbound + 1 ∧
      ((ends.step T addr (.send side data r)).enc side).inboundKey p =
        (ends.enc side).inboundKey p := by
  have henc : (ends.step T addr (.send side data r)).enc side =
    call (T side) (ends.own side) (Action.call addr (.send side data r)) :=
      step_enc_self ends (.send side data r)
  obtain ⟨hout, -⟩ := call_outbound (T side) (ends.own side)
    (Action.call addr (.send side data r)) (side.dest addr)
  have hagree : Agree (fun _ => True) (ends.own side)
      (call (T side) (ends.own side) (Action.call addr (.send side data r))) := by
    cases side with
    | client => exact agree_sendSealed _ _ _
    | server => exact agree_sendSealed _ _ _
  rw [henc]
  refine ⟨?_, ?_, ?_⟩
  · rw [← own_counters]
    exact (hagree.windows p trivial).symm
  · rw [← own_counters]
    refine hout.trans (congrArg _ (if_pos ?_))
    cases side <;> rfl
  · rw [← own_inboundKey]
    exact (hagree.keys p).symm

theorem Linked.send (hT : InOrder T addr up flight) (h : Linked key addr up flight sent popped ends)
    (side : Side) (data : Bytes) (r : PacketReliability) :
    Linked key addr up flight (Function.update sent side (sent side ++ [data])) popped
      (ends.step T addr (.send side data r)) := by
  have hside := counters_send T addr ends side data r
  have hother : ∀ {s}, s ≠ side → (ends.step T addr (.send side data r)).enc s = ends.enc s :=
    step_enc_ne ends (.send side data r)
  have hwindow : ∀ s p, window (((ends.step T addr (.send side data r)).enc s).counters p) =
      window ((ends.enc s).counters p) := by
    intro s p
    by_cases hs : s = side
    · rw [hs, (hside p).1]
    · rw [hother hs]
  have hworld : (ends.step T addr (.send side data r)).world =
      transmit T addr (packet ((new () key).outboundKey (side.dest addr)) (.ofNat (sent side).length)
        data) r ends.world side := by
    have hout := (h.flow side).counted
    have hkey := outboundKey_of_inboundKey (ends.own side)
      (fun p => (own_inboundKey ends side p).trans (h.keys side p)) (side.dest addr)
    rw [← hkey, ← hout, ← own_counters]
    exact congrArg EncryptedTransport.inner (call_send (ends.own side) side data r)
  obtain ⟨hgrown, hsame⟩ := hT.transmit side
    (packet ((new () key).outboundKey (side.dest addr)) (.ofNat (sent side).length) data) r _ h.up
  refine ⟨?_, fun s p => ?_, fun s => ?_⟩
  · rw [hworld]
    exact hT.up_transmit side _ r _ h.up
  · by_cases hs : s = side
    · rw [hs, (hside p).2.2, h.keys]
    · rw [hother hs, h.keys]
  · obtain ⟨hcounted, htracked, hhighest, rest, hrest, hwaiting⟩ := h.flow s
    rcases s.eq_or_eq_other side with rfl | rfl
    · refine ⟨?_, ?_, ?_, rest ++ [data], ?_, ?_⟩
      · rw [(hside .server).2.1, hcounted, Function.update_self, List.length_append,
          List.length_singleton]
        exact (UInt64.ofNat_add _ _).symm
      · rw [hwindow]
        exact htracked
      · rw [hwindow]
        exact hhighest
      · rw [Function.update_self, hrest, List.append_assoc]
      · rw [hworld, hgrown, hwaiting, packets_append, ← List.length_append, ← hrest]
        rfl
    · refine ⟨?_, ?_, ?_, rest, ?_, ?_⟩
      · rw [hother side.other_ne, Function.update_of_ne side.other_ne]
        exact hcounted
      · rw [hwindow]
        exact htracked
      · rw [hwindow]
        exact hhighest
      · rw [Function.update_of_ne side.other_ne]
        exact hrest
      · rw [hworld, hsame, hwaiting]

theorem Linked.poll (hT : InOrder T addr up flight) (h : Linked key addr up flight sent popped ends)
    (side : Side) : Linked key addr up flight sent popped (ends.step T addr (.poll side)) :=
  h.still side ((ends.own side).poll (T side)) (fun p => own_counters ends side p)
    (fun p => own_inboundKey ends side p) (hT.up_poll side _ h.up) (hT.poll side _ h.up)

/-! ### Popping -/

/-- What a popped packet makes of an end, and what is returned. -/
theorem popReceive_of_some {U : ITransport σ} {enc : EncryptedTransport σ} {maxLength : ℕ}
    {received : Bytes} {sender : Address}
    (h : (U.popReceive (max enc.recvScratch (maxLength + OVERHEAD)) enc.inner).2 =
      some (received, sender)) :
    ∃ enc₀ : EncryptedTransport σ, Agree (fun _ => True) enc enc₀ ∧
      (∀ p, enc₀.counters p = enc.counters p) ∧
      (enc.popReceive U maxLength).1 = (enc₀.openReceived maxLength received sender).1 ∧
      (enc.popReceive U maxLength).2 =
        (enc₀.openReceived maxLength received sender).2.map fun data => (data, sender) := by
  refine ⟨{ enc with
      inner := (U.popReceive (max enc.recvScratch (maxLength + OVERHEAD)) enc.inner).1
      recvScratch := max enc.recvScratch (maxLength + OVERHEAD) }, agree_inner enc _ _,
    fun p => by cases p <;> rfl, ?_, ?_⟩
  · unfold popReceive
    dsimp only
    rw [h]
  · unfold popReceive
    dsimp only
    rw [h]

/-- A window through which the counters below `k` have passed, one after the other, lets `k` pass. -/
theorem checkReplay_next {st : CounterState} {k : ℕ} (hk : k < 2 ^ 64 - 64)
    (htracks : (window st).Tracks {n | n < k}) (hhighest : (window st).highest ≤ k) :
    (checkReplay st (.ofNat k)).2 = true ∧
      (window (checkReplay st (.ofNat k)).1).Tracks {n | n < k + 1} ∧
      (window (checkReplay st (.ofNat k)).1).highest ≤ k + 1 := by
  have hnat : (UInt64.ofNat k).toNat = k := UInt64.toNat_ofNat_of_lt' (by
    show k < 2 ^ 64
    omega)
  have hbound : (UInt64.ofNat k).toNat < 2 ^ 64 - 64 := by rwa [hnat]
  obtain ⟨hacc, hhigh, hnext⟩ := tracks_checkReplay hbound htracks
  rw [hnat] at hacc hhigh hnext
  have hfresh := hacc.mpr ⟨lt_irrefl k, by omega⟩
  rw [if_pos hfresh] at hnext
  have hset : insert k {n | n < k} = {n | n < k + 1} := by
    ext n
    simp only [Set.mem_insert_iff, Set.mem_ofPred_eq]
    omega
  rw [hset] at hnext
  exact ⟨hfresh, hnext, by omega⟩

/-- The next packet of the other side is opened. -/
theorem openReceived_next {enc : EncryptedTransport σ} {dest : Peer} {k maxLength : ℕ} {data : Bytes}
    {sender : Address} (hkeys : ∀ p, enc.inboundKey p = (new () key).inboundKey p)
    (hfits : data.length ≤ maxLength) (hk : k < 2 ^ 64 - 64)
    (htracks : (window (enc.counters (facing dest sender))).Tracks {n | n < k})
    (hhighest : (window (enc.counters (facing dest sender))).highest ≤ k) :
    ∃ st, enc.openReceived maxLength (packet ((new () key).outboundKey dest) (.ofNat k) data) sender =
        (enc.setCounters (facing dest sender) st, some data) ∧
      st.outbound = (enc.counters (facing dest sender)).outbound ∧
      (window st).Tracks {n | n < k + 1} ∧ (window st).highest ≤ k + 1 := by
  obtain ⟨hfresh, hnext, hhigh⟩ := checkReplay_next hk htracks hhighest
  have hauth := authentic_packet (new () key) dest hkeys sender (.ofNat k) hfits
  have hopen : enc.OpenTo (facing dest sender)
      (packet ((new () key).outboundKey dest) (.ofNat k) data) := by
    unfold OpenTo
    rw [counterOf_packet]
    exact hfresh
  refine ⟨_, Prod.ext ?_ (openReceived_eq_some_iff.mpr ⟨_, hauth, hopen⟩),
    checkReplay_outbound _ _, hnext, hhigh⟩
  rw [openReceived_of_addressed hauth.addressed, counterOf_packet]

/-- The end after a packet was opened: one window has moved. -/
theorem Linked.opened (h : Linked key addr up flight sent popped ends) {side : Side}
    {enc : EncryptedTransport σ} (st : CounterState) {data : Bytes} (rest : List Bytes)
    (hup : up enc.inner)
    (hkeys : ∀ p, enc.inboundKey p = (ends.enc side).inboundKey p)
    (hself : enc.counters (side.dest addr) = st)
    (hout : st.outbound = ((ends.enc side).counters (side.dest addr)).outbound)
    (htracks : (window st).Tracks {n | n < (popped side).length + 1})
    (hhighest : (window st).highest ≤ (popped side).length + 1)
    (hrest : sent side.other = popped side ++ data :: rest)
    (hown : flight side enc.inner = flight side ends.world)
    (hother : flight side.other enc.inner =
      packets ((new () key).outboundKey (side.other.dest addr)) ((popped side).length + 1) rest) :
    Linked key addr up flight sent (Function.update popped side (popped side ++ [data]))
      ⟨enc.inner, Function.update ends.enc side enc⟩ := by
  refine ⟨hup, fun s p => ?_, fun s => ?_⟩
  · show (Function.update ends.enc side enc s).inboundKey p = _
    by_cases hs : s = side
    · rw [hs, Function.update_self, hkeys, h.keys]
    · rw [Function.update_of_ne hs, h.keys]
  · obtain ⟨hcounted, htracked, hhigh, hwaiting⟩ := h.flow s
    rcases s.eq_or_eq_other side with rfl | rfl
    · have hne := s.other_ne
      refine ⟨?_, ?_, ?_, ?_⟩
      · show ((Function.update ends.enc s enc s).counters _).outbound = _
        rw [Function.update_self, hself, hout, hcounted]
      · show (window ((Function.update ends.enc s enc s.other).counters _)).Tracks _
        rw [Function.update_of_ne hne, Function.update_of_ne hne]
        exact htracked
      · show (window ((Function.update ends.enc s enc s.other).counters _)).highest ≤ _
        rw [Function.update_of_ne hne, Function.update_of_ne hne]
        exact hhigh
      · rw [Function.update_of_ne hne, hown]
        exact hwaiting
    · have hne := side.other_ne
      refine ⟨?_, ?_, ?_, rest, ?_, ?_⟩
      · show ((Function.update ends.enc side enc side.other).counters _).outbound = _
        rw [Function.update_of_ne hne]
        exact hcounted
      · show (window ((Function.update ends.enc side enc side.other.other).counters _)).Tracks _
        rw [Side.other_other, Function.update_self, Function.update_self, hself, List.length_append,
          List.length_singleton]
        exact htracks
      · show (window ((Function.update ends.enc side enc side.other.other).counters _)).highest ≤ _
        rw [Side.other_other, Function.update_self, Function.update_self, hself, List.length_append,
          List.length_singleton]
        exact hhighest
      · rw [Side.other_other, Function.update_self, hrest, List.append_assoc, List.singleton_append]
      · rw [Side.other_other, Function.update_self, List.length_append, List.length_singleton]
        exact hother

theorem Linked.pop (hT : InOrder T addr up flight) (h : Linked key addr up flight sent popped ends)
    (side : Side) (n : ℕ) (hfew : (sent side.other).length < 2 ^ 64 - 64)
    (hfits : ∀ data ∈ sent side.other, data.length ≤ n) :
    Linked key addr up flight sent (Function.update popped side
        (popped side ++ (((ends.own side).popReceive (T side) n).2.map Prod.fst).toList))
      (ends.step T addr (.pop side n)) := by
  have hinner := inner_popReceive (T := T side) (ends.own side) n
  have hup := hT.up_pop side (max (ends.own side).recvScratch (n + OVERHEAD)) ends.world h.up
  have hown := hT.pop_own side (max (ends.own side).recvScratch (n + OVERHEAD)) ends.world h.up
  rcases hT.pop side (max (ends.own side).recvScratch (n + OVERHEAD)) ends.world h.up with
    ⟨hnone, hsame⟩ | ⟨received, sender, hflight, hpop, hsender⟩
  · have hresult : (ends.own side).popReceive (T side) n = ({ ends.own side with
        inner := ((T side).popReceive (max (ends.own side).recvScratch (n + OVERHEAD)) ends.world).1
        recvScratch := max (ends.own side).recvScratch (n + OVERHEAD) }, none) := by
      unfold popReceive
      dsimp only
      rw [show (ends.own side).inner = ends.world from rfl, hnone]
    rw [hresult, Option.map_none, Option.toList_none, List.append_nil, Function.update_eq_self]
    show Linked key addr up flight sent popped
      ⟨((ends.own side).popReceive (T side) n).1.inner,
        Function.update ends.enc side ((ends.own side).popReceive (T side) n).1⟩
    rw [hresult]
    refine h.still side _ (fun p => ?_) (fun p => ?_) hup fun s => ?_
    · refine Eq.trans ?_ (own_counters ends side p)
      cases p <;> rfl
    · refine Eq.trans ?_ (own_inboundKey ends side p)
      cases p <;> rfl
    · rcases s.eq_or_eq_other side with rfl | rfl
      · exact hown
      · exact hsame
  · have hflow := h.flow side.other
    obtain ⟨-, htracked, hhigh, rest, hrest, hwaiting⟩ := hflow
    rw [Side.other_other] at htracked hhigh hrest hwaiting
    rw [hflight] at hwaiting
    rcases rest with _ | ⟨data, rest⟩
    · cases hwaiting
    · obtain ⟨rfl, hleft⟩ := List.cons.inj hwaiting
      have hmem : data ∈ sent side.other := by
        rw [hrest]
        simp
      have hlength : (popped side).length < 2 ^ 64 - 64 := by
        have := congrArg List.length hrest
        rw [List.length_append] at this
        omega
      -- the buffer of the inner transport has room for the packet
      have hwhole : ∀ keyed k, (packet keyed k data).take
          (max (ends.own side).recvScratch (n + OVERHEAD)) = packet keyed k data := by
        intro keyed k
        apply List.take_of_length_le
        rw [packet_eq, length_stamped]
        have := hfits data hmem
        omega
      rw [hwhole] at hpop
      obtain ⟨enc₀, hagree, hcounters, hnext, houtput⟩ := popReceive_of_some hpop
      have hface : facing (side.other.dest addr) sender = side.dest addr := by
        rw [← facing_dest addr side]
        cases side with
        | client => rfl
        | server => rw [hsender rfl]
      have hcount : enc₀.counters (side.dest addr) = (ends.enc side).counters (side.dest addr) :=
        (hcounters _).trans (own_counters ends side _)
      have hkeys : ∀ p, enc₀.inboundKey p = (ends.enc side).inboundKey p := fun p =>
        (hagree.keys p).symm.trans (own_inboundKey ends side p)
      rw [← hcount, ← hface] at htracked hhigh
      obtain ⟨st, hopened, hout, htracks, hhighest⟩ := openReceived_next
        (fun p => (hkeys p).trans (h.keys side p)) (hfits data hmem) hlength htracked hhigh
      rw [hface] at hopened hout
      rw [hopened] at hnext houtput
      rw [houtput]
      show Linked key addr up flight sent (Function.update popped side (popped side ++ [data]))
        ⟨((ends.own side).popReceive (T side) n).1.inner,
          Function.update ends.enc side ((ends.own side).popReceive (T side) n).1⟩
      refine h.opened st rest ?_ (fun p => ?_) ?_ ?_ htracks hhighest hrest ?_ ?_
      · rw [hinner]
        exact hup
      · rw [hnext, inboundKey_setCounters, hkeys]
      · rw [hnext, counters_setCounters_self]
      · rw [hout, hcount]
      · rw [hinner]
        exact hown
      · rw [hinner]
        exact hleft

/-! ### Runs -/

theorem Linked.step (hT : InOrder T addr up flight) (h : Linked key addr up flight sent popped ends)
    (a : Action) (hfew : ∀ s, (sent s).length < 2 ^ 64 - 64)
    (hfits : ∀ s, ∀ data ∈ sent s, ∀ n, a = .pop s.other n → data.length ≤ n) :
    Linked key addr up flight (fun s => sent s ++ (a.sent s).toList)
      (fun s => popped s ++ (ends.output T s a).toList) (ends.step T addr a) := by
  have hnone : ∀ f : Side → List Bytes, (fun s => f s ++ (none : Option Bytes).toList) = f :=
    fun f => funext fun s => List.append_nil _
  cases a with
  | send side data r =>
    have hsent : (fun s => sent s ++ (Action.sent s (.send side data r)).toList) =
        Function.update sent side (sent side ++ [data]) := by
      funext s
      unfold Action.sent
      dsimp only
      by_cases hs : side = s
      · rw [← hs, if_pos rfl, Function.update_self]
        rfl
      · rw [if_neg hs, Function.update_of_ne (Ne.symm hs)]
        exact List.append_nil _
    rw [hsent]
    exact (hnone popped).symm ▸ h.send hT side data r
  | poll side => exact (hnone sent).symm ▸ (hnone popped).symm ▸ h.poll hT side
  | pop side n =>
    have hpopped : (fun s => popped s ++ (ends.output T s (.pop side n)).toList) =
        Function.update popped side
          (popped side ++ (((ends.own side).popReceive (T side) n).2.map Prod.fst).toList) := by
      funext s
      unfold Ends.output
      by_cases hs : side = s
      · rw [← hs, Function.update_self]
        dsimp only
        rw [if_pos rfl]
      · rw [Function.update_of_ne (Ne.symm hs)]
        dsimp only
        rw [if_neg hs]
        exact List.append_nil _
    rw [hpopped]
    exact (hnone sent).symm ▸ h.pop hT side n (hfew _) fun data hdata =>
      hfits _ data hdata n (by rw [Side.other_other])

theorem Linked.run (hT : InOrder T addr up flight) (actions : List Action)
    (h : Linked key addr up flight sent popped ends)
    (hfew : ∀ s, (sent s ++ sends s actions).length < 2 ^ 64 - 64)
    (hfits : ∀ s, ∀ data ∈ sent s ++ sends s actions, ∀ n, .pop s.other n ∈ actions →
      data.length ≤ n) :
    Linked key addr up flight (fun s => sent s ++ sends s actions)
      (fun s => popped s ++ ends.popped T addr s actions) (ends.run T addr actions) := by
  induction actions generalizing sent popped ends with
  | nil =>
    have hnil : ∀ f : Side → List Bytes, (fun s => f s ++ []) = f :=
      fun f => funext fun s => List.append_nil _
    exact (hnil sent).symm ▸ (hnil popped).symm ▸ h
  | cons a actions ih =>
    have hsends : ∀ s, sent s ++ sends s (a :: actions) =
        (sent s ++ (a.sent s).toList) ++ sends s actions := fun s => by
      rw [sends_cons, List.append_assoc]
    simp only [hsends] at hfew hfits ⊢
    have hnext := h.step hT a
      (fun s => by
        have := hfew s
        rw [List.length_append, List.length_append] at this
        omega)
      (fun s data hdata n ha => hfits s data
        (List.mem_append_left _ (List.mem_append_left _ hdata)) n (ha ▸ List.mem_cons_self))
    have hrest := ih hnext hfew fun s data hdata n hn =>
      hfits s data hdata n (List.mem_cons_of_mem _ hn)
    have hpopped : (fun s => popped s ++ ends.popped T addr s (a :: actions)) =
        fun s => (popped s ++ (ends.output T s a).toList) ++
          (ends.step T addr a).popped T addr s actions :=
      funext fun s => (List.append_assoc _ _ _).symm
    rw [hpopped]
    exact hrest

end

end EncryptedTransport

end CampelloNet.Transport
