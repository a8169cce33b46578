import CampelloNet.Crypto.Aead
import CampelloNet.Transport.EncryptedNonces
import CampelloNet.Transport.EncryptedWindow
import CampelloNet.Transport.Queue

/-!
# What an encrypted transport receives in a run

A run is any sequence of method calls; the packets that it receives are those that the inner transport
pops, each with the state in which it was popped and with what `pop_receive` made of it. A packet is
accepted if and only if it is authentic under the key that its first byte names, fits, and finds the
window of its peer open (`openReceived_eq_some_iff`). Of the state only the keys and the windows
matter (`Agree`), and these change only by receiving.
-/

namespace CampelloNet.Transport

open Lib Crypto

namespace Encrypted

/-! ### Packets -/

/-- The packet that `send` and `send_to` hand on. -/
def packet (keyed : Key × UInt8) (counter : UInt64) (data : Bytes) : Bytes :=
  (nonceOf keyed.2 counter).toList ++
    ChaCha20Poly1305.sealing keyed.1 (nonceOf keyed.2 counter) [] data

/-- A nonce and what was sealed with it. -/
def stamped (key : Key) (nonce : Nonce) (data : Bytes) : Bytes :=
  nonce.toList ++ ChaCha20Poly1305.sealing key nonce [] data

theorem packet_eq (keyed : Key × UInt8) (counter : UInt64) (data : Bytes) :
    packet keyed counter data = stamped keyed.1 (nonceOf keyed.2 counter) data := rfl

@[simp] theorem counterOf_nonceOf (direction : UInt8) (counter : UInt64) :
    counterOf (nonceOf direction counter) = counter := ofLe64_le64 counter

section
variable (key : Key) (nonce : Nonce) (data : Bytes)

@[simp] theorem length_stamped : (stamped key nonce data).length = data.length + OVERHEAD := by
  rw [stamped, List.length_append, Vector.length_toList, ChaCha20Poly1305.length_sealing]
  unfold OVERHEAD NONCE_SIZE TAG_SIZE ChaCha20Poly1305.NONCE_SIZE
  omega

@[simp] theorem drop_stamped :
    (stamped key nonce data).drop NONCE_SIZE = ChaCha20Poly1305.sealing key nonce [] data :=
  List.drop_left' (Vector.length_toList)

@[simp] theorem nonceIn_stamped : EncryptedTransport.nonceIn (stamped key nonce data) = nonce := by
  apply Vector.ext
  intro i hi
  unfold EncryptedTransport.nonceIn stamped
  rw [Vector.getElem_ofFn, List.getD_eq_getElem?_getD,
    List.getElem?_append_left (by rw [Vector.length_toList]; exact hi)]
  simp [hi]

end

/-- A byte string is its nonce and the rest. -/
theorem nonceIn_append_drop {received : Bytes} (h : NONCE_SIZE ≤ received.length) :
    (EncryptedTransport.nonceIn received).toList ++ received.drop NONCE_SIZE = received := by
  have htake : (EncryptedTransport.nonceIn received).toList = received.take NONCE_SIZE := by
    apply List.ext_getElem
    · rw [Vector.length_toList, List.length_take, min_eq_left h]
      rfl
    · intro i hi hi'
      have hlt : i < received.length := (List.length_take ▸ hi' : i < min _ _).trans_le (min_le_right _ _)
      rw [Vector.getElem_toList, List.getElem_take]
      unfold EncryptedTransport.nonceIn
      rw [Vector.getElem_ofFn, List.getD_eq_getElem?_getD, List.getElem?_eq_getElem hlt,
        Option.getD_some]
  rw [htake, List.take_append_drop]

end Encrypted

open Encrypted

namespace EncryptedTransport

variable {σ τ : Type}

/-! ### The peer that a packet names -/

/-- The peer whose counters a packet with this first byte uses. -/
def claimed (direction : UInt8) (sender : Address) : Option Peer :=
  if direction = DIR_CLIENT_TO_SERVER then some (.client (addressHash sender))
  else if direction = DIR_SERVER_TO_CLIENT then some .server
  else none

/-- The key under which a peer's packets are opened. -/
def inboundKey (enc : EncryptedTransport σ) : Peer → Key
  | .server => enc.serverToClientKey
  | .client _ => enc.clientToServerKey

theorem inbound_eq (enc : EncryptedTransport σ) (direction : UInt8) (sender : Address) :
    enc.inbound direction sender = (claimed direction sender).map fun p => (enc.inboundKey p, p) := by
  unfold inbound claimed
  split_ifs <;> rfl

theorem Addressed.named {enc : EncryptedTransport σ} {maxLength : Nat} {received : Bytes}
    {sender : Address} {key : Key} {peer : Peer}
    (h : enc.Addressed maxLength received sender key peer) :
    claimed (directionOf (nonceIn received)) sender = some peer ∧ key = enc.inboundKey peer := by
  have hin := h.inbound
  rw [inbound_eq] at hin
  obtain ⟨p, hp, hkey⟩ := Option.map_eq_some_iff.mp hin
  obtain ⟨rfl, rfl⟩ := Prod.ext_iff.mp hkey
  exact ⟨hp, rfl⟩

/-- A packet of `peer` with some data that the buffer has room for. -/
structure Authentic (enc : EncryptedTransport σ) (maxLength : Nat) (received : Bytes)
    (sender : Address) (peer : Peer) (data : Bytes) : Prop where
  named : claimed (directionOf (nonceIn received)) sender = some peer
  sealed : received = stamped (enc.inboundKey peer) (nonceIn received) data
  fits : data.length ≤ maxLength

theorem Authentic.addressed {enc : EncryptedTransport σ} {maxLength : Nat} {received : Bytes}
    {sender : Address} {peer : Peer} {data : Bytes}
    (h : enc.Authentic maxLength received sender peer data) :
    enc.Addressed maxLength received sender (enc.inboundKey peer) peer := by
  have hlen : received.length = data.length + OVERHEAD := by
    rw [h.sealed, length_stamped]
  refine ⟨by omega, ?_, by rw [inbound_eq, h.named, Option.map_some]⟩
  have hover : OVERHEAD = NONCE_SIZE + TAG_SIZE := rfl
  have := h.fits
  omega

/-- The window of the peer lets the packet pass. -/
def OpenTo (enc : EncryptedTransport σ) (peer : Peer) (received : Bytes) : Prop :=
  (checkReplay (enc.counters peer) (counterOf (nonceIn received))).2 = true

/-- What is accepted: an authentic packet that finds its peer's window open. -/
theorem openReceived_eq_some_iff {enc : EncryptedTransport σ} {maxLength : Nat} {received : Bytes}
    {sender : Address} {data : Bytes} :
    (enc.openReceived maxLength received sender).2 = some data ↔
      ∃ peer, enc.Authentic maxLength received sender peer data ∧ enc.OpenTo peer received := by
  constructor
  · intro h
    rcases openReceived_cases enc maxLength received sender with hnone | ⟨key, peer, haddr⟩
    · rw [hnone] at h
      cases h
    · obtain ⟨hp, rfl⟩ := haddr.named
      rw [openReceived_of_addressed haddr] at h
      by_cases hfresh : (checkReplay (enc.counters peer) (counterOf (nonceIn received))).2 = true
      · rw [if_pos hfresh] at h
        obtain ⟨hseal, hfits⟩ := ChaCha20Poly1305.opened_eq_some_iff.mp h
        refine ⟨peer, ⟨hp, ?_, hfits⟩, hfresh⟩
        rw [stamped, ← hseal]
        refine (nonceIn_append_drop (le_trans ?_ haddr.long)).symm
        exact Nat.le_add_right NONCE_SIZE TAG_SIZE
      · rw [if_neg hfresh] at h
        cases h
  · rintro ⟨peer, hauth, hfresh⟩
    unfold OpenTo at hfresh
    rw [openReceived_of_addressed hauth.addressed, if_pos hfresh]
    refine ChaCha20Poly1305.opened_eq_some_iff.mpr ⟨?_, hauth.fits⟩
    have := congrArg (List.drop NONCE_SIZE) hauth.sealed
    rwa [drop_stamped] at this

/-! ### Runs -/

/-- A method call. -/
inductive Use
  | bind (address : Address)
  | connect (address : Address)
  | disconnect
  | call (c : Call)

def use (T : ITransport σ) (enc : EncryptedTransport σ) : Use → EncryptedTransport σ
  | .bind address => ((iTransport T).bind address enc).1
  | .connect address => ((iTransport T).connect address enc).1
  | .disconnect => (iTransport T).disconnect enc
  | .call c => call T enc c

/-- A packet that the inner transport popped. -/
structure Arrival (σ : Type) where
  /-- the transport when `pop_receive` was called -/
  before : EncryptedTransport σ
  maxLength : Nat
  packet : Bytes
  sender : Address
  /-- what `pop_receive` returned -/
  output : Option (Bytes × Address)

def arrival (T : ITransport σ) (enc : EncryptedTransport σ) : Use → Option (Arrival σ)
  | .call (.popReceive maxLength) =>
    (T.popReceive (max enc.recvScratch (maxLength + OVERHEAD)) enc.inner).2.map fun p =>
      ⟨enc, maxLength, p.1, p.2, (enc.popReceive T maxLength).2⟩
  | _ => none

/-- The packets that a run receives, in order. -/
def arrivals (T : ITransport σ) : EncryptedTransport σ → List Use → List (Arrival σ)
  | _, [] => []
  | enc, u :: us => (arrival T enc u).toList ++ arrivals T (use T enc u) us

namespace Arrival

def accepted (a : Arrival σ) : Bool := a.output.isSome

def counter (a : Arrival σ) : UInt64 := counterOf (nonceIn a.packet)

/-- The transport when the packet has been looked at. -/
def next (a : Arrival σ) : EncryptedTransport σ :=
  (a.before.openReceived a.maxLength a.packet a.sender).1

/-- The output is what opening the packet gives. -/
def Sound (a : Arrival σ) : Prop :=
  a.output = (a.before.openReceived a.maxLength a.packet a.sender).2.map fun data => (data, a.sender)

theorem Sound.accepted_iff {a : Arrival σ} (h : a.Sound) : a.accepted ↔
    ∃ peer data, a.before.Authentic a.maxLength a.packet a.sender peer data ∧
      a.before.OpenTo peer a.packet := by
  unfold accepted
  rw [h, Option.isSome_map, Option.isSome_iff_exists]
  simp only [openReceived_eq_some_iff]
  exact exists_comm

end Arrival

/-! ### What receiving depends on -/

/-- The keys are the same, and so are the windows of the peers in `P`. -/
structure Agree (P : Peer → Prop) (enc : EncryptedTransport σ) (enc' : EncryptedTransport τ) :
    Prop where
  keys : ∀ p, enc.inboundKey p = enc'.inboundKey p
  windows : ∀ p, P p → window (enc.counters p) = window (enc'.counters p)

section
variable {P : Peer → Prop} {enc : EncryptedTransport σ} {enc' : EncryptedTransport τ}

theorem Agree.refl (enc : EncryptedTransport σ) : Agree P enc enc := ⟨fun _ => rfl, fun _ _ => rfl⟩

theorem Agree.symm (h : Agree P enc enc') : Agree P enc' enc :=
  ⟨fun p => (h.keys p).symm, fun p hp => (h.windows p hp).symm⟩

theorem Agree.trans {υ : Type} {enc'' : EncryptedTransport υ} (h : Agree P enc enc')
    (h' : Agree P enc' enc'') : Agree P enc enc'' :=
  ⟨fun p => (h.keys p).trans (h'.keys p), fun p hp => (h.windows p hp).trans (h'.windows p hp)⟩

theorem Agree.mono {Q : Peer → Prop} (h : Agree P enc enc') (hQ : ∀ p, Q p → P p) :
    Agree Q enc enc' :=
  ⟨h.keys, fun p hp => h.windows p (hQ p hp)⟩

@[simp] theorem inboundKey_setCounters (peer : Peer) (st : CounterState) (p : Peer) :
    (enc.setCounters peer st).inboundKey p = enc.inboundKey p := by
  cases peer <;> cases p <;> rfl

theorem agree_setCounters (enc : EncryptedTransport σ) (peer : Peer) (st : CounterState)
    (h : P peer → window st = window (enc.counters peer)) :
    Agree P enc (enc.setCounters peer st) := by
  refine ⟨fun p => (inboundKey_setCounters peer st p).symm, fun p hp => ?_⟩
  by_cases heq : p = peer
  · subst heq
    rw [counters_setCounters_self]
    exact (h hp).symm
  · rw [counters_setCounters_ne _ _ _ heq]

/-- A packet of a peer outside `P` touches nothing that `P` looks at. -/
theorem agree_openReceived_self (enc : EncryptedTransport σ) (maxLength : Nat) (received : Bytes)
    (sender : Address) (h : ∀ p, claimed (directionOf (nonceIn received)) sender = some p → ¬P p) :
    Agree P enc (enc.openReceived maxLength received sender).1 := by
  rcases openReceived_cases enc maxLength received sender with hnone | ⟨key, peer, haddr⟩
  · rw [hnone]
    exact Agree.refl enc
  · rw [openReceived_of_addressed haddr]
    exact agree_setCounters enc peer _ fun hP => absurd hP (h peer haddr.named.1)

/-- Where two transports agree they make the same of a packet, and still agree. -/
theorem Agree.openReceived (hagree : Agree P enc enc') (maxLength : Nat) (received : Bytes)
    (sender : Address) (h : ∀ p, claimed (directionOf (nonceIn received)) sender = some p → P p) :
    (enc.openReceived maxLength received sender).2 =
        (enc'.openReceived maxLength received sender).2 ∧
      Agree P (enc.openReceived maxLength received sender).1
        (enc'.openReceived maxLength received sender).1 := by
  have haddr : ∀ key p, enc.Addressed maxLength received sender key p ↔
      enc'.Addressed maxLength received sender key p := by
    have hin : enc.inbound (directionOf (nonceIn received)) sender = enc'.inbound (directionOf (nonceIn received)) sender := by
      rw [inbound_eq, inbound_eq]
      simp only [hagree.keys]
    exact fun key p => ⟨fun h => ⟨h.long, h.fits, hin ▸ h.inbound⟩,
      fun h => ⟨h.long, h.fits, hin ▸ h.inbound⟩⟩
  by_cases hex : ∃ key peer, enc.Addressed maxLength received sender key peer
  · obtain ⟨key, peer, h₁⟩ := hex
    have h₂ := (haddr key peer).mp h₁
    have hwin := hagree.windows peer (h peer h₁.named.1)
    obtain ⟨hfresh, hwindow⟩ := checkReplay_congr (counterOf (nonceIn received)) hwin
    rw [openReceived_of_addressed h₁, openReceived_of_addressed h₂, hfresh]
    refine ⟨rfl, fun p => ?_, fun p hp => ?_⟩
    · rw [inboundKey_setCounters, inboundKey_setCounters, hagree.keys]
    · by_cases heq : p = peer
      · rw [heq, counters_setCounters_self, counters_setCounters_self, hwindow]
      · rw [counters_setCounters_ne _ _ _ heq, counters_setCounters_ne _ _ _ heq,
          hagree.windows p hp]
  · have hnone := (openReceived_cases enc maxLength received sender).resolve_right hex
    have hnone' := (openReceived_cases enc' maxLength received sender).resolve_right
      fun ⟨key, peer, h'⟩ => hex ⟨key, peer, (haddr key peer).mpr h'⟩
    rw [hnone, hnone']
    exact ⟨rfl, hagree⟩

/-- Sending changes no window. -/
theorem agree_sendSealed (peer : Peer) (data : Bytes) (transmit : Bytes → σ → σ × Bool) :
    Agree P enc (enc.sendSealed peer data transmit).1 := by
  have hset := agree_setCounters (P := P) enc peer
    { enc.counters peer with outbound := (enc.counters peer).outbound + 1 } fun _ => rfl
  unfold sendSealed
  dsimp only
  rcases ChaCha20Poly1305.sealed _ _ _ _ _ with _ | out
  · exact hset
  · exact ⟨hset.keys, hset.windows⟩

end

/-! ### One call -/

section
variable {T : ITransport σ} {enc : EncryptedTransport σ} {P : Peer → Prop}

/-- The inner transport is nothing that receiving depends on. -/
theorem agree_inner (enc : EncryptedTransport σ) (inner : σ) (scratch : Nat) :
    Agree P enc { enc with inner := inner, recvScratch := scratch } :=
  ⟨fun p => by cases p <;> rfl, fun p _ => by cases p <;> rfl⟩

/-- What a call that takes no packet does. -/
theorem agree_use_of_none {u : Use} (h : arrival T enc u = none) : Agree P enc (use T enc u) := by
  cases u with
  | bind address => exact agree_inner enc _ enc.recvScratch
  | connect address => exact agree_inner enc _ enc.recvScratch
  | disconnect => exact agree_inner enc _ enc.recvScratch
  | call c =>
    cases c with
    | send data r => exact agree_sendSealed _ _ _
    | sendTo address data r => exact agree_sendSealed _ _ _
    | poll => exact agree_inner enc _ enc.recvScratch
    | popReceive maxLength =>
      have hnone : (T.popReceive (max enc.recvScratch (maxLength + OVERHEAD)) enc.inner).2 = none :=
        Option.map_eq_none_iff.mp h
      show Agree P enc (enc.popReceive T maxLength).1
      unfold popReceive
      dsimp only
      rw [hnone]
      exact agree_inner enc _ _

/-- What a call that takes a packet does. -/
theorem agree_use_of_arrival {u : Use} {a : Arrival σ} (h : arrival T enc u = some a) :
    a.before = enc ∧ a.Sound ∧ Agree P a.next (use T enc u) := by
  cases u with
  | bind address => cases h
  | connect address => cases h
  | disconnect => cases h
  | call c =>
    cases c with
    | send data r => cases h
    | sendTo address data r => cases h
    | poll => cases h
    | popReceive maxLength =>
      obtain ⟨⟨received, sender⟩, hpop, rfl⟩ := Option.map_eq_some_iff.mp h
      have hsame := (agree_inner (P := fun _ => True) enc
        (T.popReceive (max enc.recvScratch (maxLength + OVERHEAD)) enc.inner).1
        (max enc.recvScratch (maxLength + OVERHEAD))).openReceived maxLength received sender
        fun _ _ => trivial
      refine ⟨rfl, ?_, ?_⟩
      · show (enc.popReceive T maxLength).2 = _
        unfold popReceive
        dsimp only
        rw [hpop]
        dsimp only
        rw [← hsame.1]
      · show Agree P (enc.openReceived maxLength received sender).1 (enc.popReceive T maxLength).1
        unfold popReceive
        dsimp only
        rw [hpop]
        exact hsame.2.mono fun _ _ => trivial

end

/-! ### A whole run -/

section
variable {T : ITransport σ}

/-- What holds of the past and the state and is kept by every packet holds at every arrival. -/
theorem arrivals_rule {I : List (Arrival σ) → EncryptedTransport σ → Prop} {Q : Arrival σ → Prop}
    (hagree : ∀ past e e', Agree (fun _ => True) e e' → I past e → I past e')
    (hnext : ∀ past a, a.Sound → Q a → I past a.before → I (past ++ [a]) a.next)
    {enc : EncryptedTransport σ} {uses : List Use} (hQ : ∀ a ∈ arrivals T enc uses, Q a)
    (past : List (Arrival σ)) (h0 : I past enc) {before : List (Arrival σ)} {a : Arrival σ}
    {after : List (Arrival σ)} (h : arrivals T enc uses = before ++ a :: after) :
    a.Sound ∧ I (past ++ before) a.before := by
  induction uses generalizing enc past before with
  | nil => simp [arrivals] at h
  | cons u us ih =>
    rw [arrivals] at h hQ
    rcases harr : arrival T enc u with _ | b
    · rw [harr] at h hQ
      exact ih hQ past (hagree _ _ _ (agree_use_of_none harr) h0) h
    · rw [harr] at h hQ
      obtain ⟨hbefore, hsound, hstep⟩ := agree_use_of_arrival (P := fun _ => True) harr
      rw [Option.toList_some, List.singleton_append] at h hQ
      have hb := hQ b List.mem_cons_self
      cases before with
      | nil =>
        obtain ⟨rfl, -⟩ := List.cons.inj h
        rw [List.append_nil]
        exact ⟨hsound, hbefore ▸ h0⟩
      | cons b' before =>
        obtain ⟨rfl, hrest⟩ := List.cons.inj h
        have hI := hagree _ _ _ hstep (hnext past b hsound hb (hbefore ▸ h0))
        have := ih (fun a ha => hQ a (List.mem_cons_of_mem _ ha)) _ hI hrest
        rwa [List.append_assoc, List.singleton_append] at this

/-- The keys of a run are those it begins with. -/
theorem arrivals_keys {enc : EncryptedTransport σ} {uses : List Use} {a : Arrival σ}
    (ha : a ∈ arrivals T enc uses) : a.Sound ∧ ∀ p, a.before.inboundKey p = enc.inboundKey p := by
  obtain ⟨before, after, h⟩ := List.append_of_mem ha
  refine arrivals_rule (T := T) (Q := fun _ => True)
    (I := fun _ e => ∀ p, e.inboundKey p = enc.inboundKey p) (fun _ e e' hag hI p => ?_)
    (fun _ a _ _ hI p => ?_) (fun _ _ => trivial) [] (fun _ => rfl) h
  · rw [← hag.keys, hI]
  · have := (agree_openReceived_self (P := fun _ => False) a.before a.maxLength a.packet a.sender
      fun _ _ => id).keys p
    exact this.symm.trans (hI p)

end

/-! ### Taking packets from a queue -/

/-- What one call of `pop_receive` was handed. -/
structure Delivery where
  maxLength : Nat
  packet : Bytes
  sender : Address

def Arrival.delivery (a : Arrival σ) : Delivery := ⟨a.maxLength, a.packet, a.sender⟩

/-- What is made of some packets, one after the other. -/
def replies : EncryptedTransport σ → List Delivery → List (Option (Bytes × Address))
  | _, [] => []
  | enc, d :: ds =>
    let (enc, plaintext) := enc.openReceived d.maxLength d.packet d.sender
    (plaintext.map fun data => (data, d.sender)) :: replies enc ds

theorem replies_cons (enc : EncryptedTransport σ) (d : Delivery) (ds : List Delivery) :
    replies enc (d :: ds) =
      ((enc.openReceived d.maxLength d.packet d.sender).2.map fun data => (data, d.sender)) ::
        replies (enc.openReceived d.maxLength d.packet d.sender).1 ds := rfl

theorem replies_congr {enc : EncryptedTransport σ} {enc' : EncryptedTransport τ}
    (h : Agree (fun _ => True) enc enc') (ds : List Delivery) : replies enc ds = replies enc' ds := by
  induction ds generalizing enc enc' with
  | nil => rfl
  | cons d ds ih =>
    obtain ⟨hout, hnext⟩ := h.openReceived d.maxLength d.packet d.sender fun _ _ => trivial
    rw [replies_cons, replies_cons, ih hnext, hout]

/-- The outputs of a run are determined by what is delivered. -/
theorem outputs_eq_replies (T : ITransport σ) (enc : EncryptedTransport σ) (uses : List Use) :
    (arrivals T enc uses).map Arrival.output =
      replies enc ((arrivals T enc uses).map Arrival.delivery) := by
  induction uses generalizing enc with
  | nil => rfl
  | cons u us ih =>
    rw [arrivals]
    rcases harr : arrival T enc u with _ | a
    · rw [Option.toList_none, List.nil_append, ih]
      exact replies_congr (agree_use_of_none harr).symm _
    · obtain ⟨rfl, hsound, hnext⟩ := agree_use_of_arrival (P := fun _ => True) harr
      rw [Option.toList_some, List.singleton_append, List.map_cons, List.map_cons, ih,
        replies_congr hnext.symm, hsound]
      rfl

/-- Some calls of `pop_receive` in a row. -/
def pops (maxLength n : Nat) : List Use := List.replicate n (.call (.popReceive maxLength))

section
variable {T : ITransport σ} {queue : σ → List (Bytes × Address)}

theorem frame_openReceived (enc : EncryptedTransport σ) (maxLength : Nat) (received : Bytes)
    (sender : Address) : (enc.openReceived maxLength received sender).1.inner = enc.inner ∧
      (enc.openReceived maxLength received sender).1.recvScratch = enc.recvScratch := by
  rcases openReceived_cases enc maxLength received sender with h | ⟨key, peer, h⟩
  · rw [h]
    exact ⟨rfl, rfl⟩
  · rw [openReceived_of_addressed h]
    cases peer <;> exact ⟨rfl, rfl⟩

theorem inner_popReceive (enc : EncryptedTransport σ) (maxLength : Nat) :
    (enc.popReceive T maxLength).1.inner =
      (T.popReceive (max enc.recvScratch (maxLength + OVERHEAD)) enc.inner).1 := by
  unfold popReceive
  dsimp only
  rcases (T.popReceive (max enc.recvScratch (maxLength + OVERHEAD)) enc.inner).2 with
    _ | ⟨received, sender⟩
  · rfl
  · exact (frame_openReceived _ _ _ _).1

/-- Packets that the buffer has room for arrive as they are and in order. -/
theorem deliveries_pops (hq : Queued T queue) (enc : EncryptedTransport σ) (maxLength n : Nat)
    (hfits : ∀ q ∈ queue enc.inner, q.1.length ≤ maxLength + OVERHEAD) :
    (arrivals T enc (pops maxLength n)).map Arrival.delivery =
      ((queue enc.inner).take n).map fun q => ⟨maxLength, q.1, q.2⟩ := by
  induction n generalizing enc with
  | zero => rw [List.take_zero]; rfl
  | succ n ih =>
    rw [pops, List.replicate_succ, arrivals]
    have hinner := inner_popReceive (T := T) enc maxLength
    rcases hqueue : queue enc.inner with _ | ⟨⟨data, sender⟩, rest⟩
    · obtain ⟨hpop, hempty⟩ := hq.pop_nil (max enc.recvScratch (maxLength + OVERHEAD)) _ hqueue
      have hnone : arrival T enc (.call (.popReceive maxLength)) = none := by
        show Option.map _ _ = none
        rw [hpop]
        rfl
      have hnext : queue (use T enc (.call (.popReceive maxLength))).inner = [] := by
        show queue (enc.popReceive T maxLength).1.inner = []
        rw [hinner, hempty]
      have hrest := ih (use T enc (.call (.popReceive maxLength)))
        (by rw [hnext]; exact fun q hmem => absurd hmem List.not_mem_nil)
      rw [hnext] at hrest
      rw [hnone, List.take_nil]
      rw [List.take_nil] at hrest
      exact hrest
    · obtain ⟨hpop, hleft⟩ := hq.pop_cons (max enc.recvScratch (maxLength + OVERHEAD)) _ _ _ _ hqueue
      have hlen : data.length ≤ max enc.recvScratch (maxLength + OVERHEAD) :=
        le_trans (hfits (data, sender) (hqueue ▸ List.mem_cons_self)) (le_max_right _ _)
      have hnext : queue (use T enc (.call (.popReceive maxLength))).inner = rest := by
        show queue (enc.popReceive T maxLength).1.inner = rest
        rw [hinner, hleft]
      have hrest := ih (use T enc (.call (.popReceive maxLength)))
        (by rw [hnext]; exact fun q hmem => hfits q (hqueue ▸ List.mem_cons_of_mem _ hmem))
      rw [hnext] at hrest
      have hsome : arrival T enc (.call (.popReceive maxLength)) =
          some ⟨enc, maxLength, data, sender, (enc.popReceive T maxLength).2⟩ := by
        show Option.map _ _ = some _
        rw [hpop, List.take_of_length_le hlen]
        rfl
      rw [hsome, List.take_succ_cons, List.map_cons, Option.toList_some, List.singleton_append,
        List.map_cons]
      exact congrArg _ hrest

end

/-! ### A server with packets in its queue -/

open LoopbackHub in
/-- A hub whose bound transport has these packets ready. -/
def holding (queue : List (Bytes × Address)) : LoopbackHub :=
  connected.set 0 { connected.transports 0 with
    readyRecv := queue.map fun q => ⟨q.2, q.1, .reliableOrdered⟩ }

theorem ready_holding (queue : List (Bytes × Address)) :
    LoopbackTransport.ready 0 (holding queue) = queue := by
  unfold LoopbackTransport.ready holding LoopbackHub.set
  dsimp only
  rw [Function.update_self, List.map_map]
  exact List.map_id queue

/-- The packets that a server takes from its queue. -/
def taking (key : Bytes) (maxLength : Nat) (queue : List (Bytes × Address)) :
    List (Arrival LoopbackHub) :=
  arrivals (LoopbackTransport.iTransport 0) (new (holding queue) key) (pops maxLength queue.length)

theorem deliveries_taking (key : Bytes) (maxLength : Nat) (queue : List (Bytes × Address))
    (hfits : ∀ q ∈ queue, q.1.length ≤ maxLength + OVERHEAD) :
    (taking key maxLength queue).map Arrival.delivery =
      queue.map fun q => ⟨maxLength, q.1, q.2⟩ := by
  have hready : LoopbackTransport.ready 0 (new (holding queue) key).inner = queue :=
    ready_holding queue
  have h := deliveries_pops (LoopbackTransport.queued 0) (new (holding queue) key) maxLength
    queue.length (by rwa [hready])
  rwa [hready, List.take_length] at h

/-- What a server makes of the packets that it takes. -/
theorem outputs_taking (key : Bytes) (maxLength : Nat) (queue : List (Bytes × Address))
    (hfits : ∀ q ∈ queue, q.1.length ≤ maxLength + OVERHEAD) :
    (taking key maxLength queue).map Arrival.output =
      replies (new () key) (queue.map fun q => ⟨maxLength, q.1, q.2⟩) := by
  have hagree : Agree (fun _ => True) (new (holding queue) key) (new () key) :=
    ⟨fun p => by cases p <;> rfl, fun p _ => by cases p <;> rfl⟩
  rw [← deliveries_taking key maxLength queue hfits, ← replies_congr hagree]
  exact outputs_eq_replies _ _ _

end EncryptedTransport

end CampelloNet.Transport
