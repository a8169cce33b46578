import CampelloNet.Crypto.Aead
import CampelloNet.Transport.EncryptedWindow
import CampelloNet.Transport.Loopback

/-!
# What a forged packet leaves behind

`pop_receive` moves `highest_inbound` and marks `seen_bitmap` before it opens a packet. Whenever a
packet gets as far as `open` the replay check has changed the peer's counters in such a way that it
refuses the same counter from then on (`checkReplay_fresh`), so that a forged packet always leaves a
trace and always shuts out the genuine packet whose counter it carries (`forged_leaves_trace`).
-/

namespace CampelloNet.Transport.EncryptedTransport

open Lib Crypto Encrypted

/-! ### Forged packets -/

variable {σ : Type}

/-- The inner transport pops the packet `received` from `sender`, and it gets as far as `open` with
the counters of `peer`. -/
structure Opens (T : ITransport σ) (enc : EncryptedTransport σ) (maxLength : Nat) (received : Bytes)
    (sender : Address) (key : Key) (peer : Peer) : Prop where
  popped : (T.popReceive (max enc.recvScratch (maxLength + OVERHEAD)) enc.inner).2 =
    some (received, sender)
  addressed : enc.Addressed maxLength received sender key peer
  fresh : (checkReplay (enc.counters peer) (counterOf (nonceIn received))).2 = true

/-- The packet fails authentication in `open`. -/
structure Forged (T : ITransport σ) (enc : EncryptedTransport σ) (maxLength : Nat) (received : Bytes)
    (sender : Address) (key : Key) (peer : Peer) : Prop extends
    Opens T enc maxLength received sender key peer where
  rejected : ChaCha20Poly1305.opened key (nonceIn received) [] (received.drop NONCE_SIZE) maxLength =
    none

/-- A packet that gets as far as the replay check changes its peer's counters. -/
theorem popReceive_of_addressed {T : ITransport σ} {enc : EncryptedTransport σ} {maxLength : Nat}
    {received : Bytes} {sender : Address} {key : Key} {peer : Peer}
    (hpopped : (T.popReceive (max enc.recvScratch (maxLength + OVERHEAD)) enc.inner).2 =
      some (received, sender)) (haddr : enc.Addressed maxLength received sender key peer) :
    ((enc.popReceive T maxLength).1.counters peer =
      (checkReplay (enc.counters peer) (counterOf (nonceIn received))).1) ∧
    (enc.popReceive T maxLength).2 =
      (if (checkReplay (enc.counters peer) (counterOf (nonceIn received))).2 then
        ChaCha20Poly1305.opened key (nonceIn received) [] (received.drop NONCE_SIZE) maxLength
      else none).map fun data => (data, sender) := by
  have haddr' : Addressed { enc with
      inner := (T.popReceive (max enc.recvScratch (maxLength + OVERHEAD)) enc.inner).1
      recvScratch := max enc.recvScratch (maxLength + OVERHEAD) } maxLength received sender key peer :=
    ⟨haddr.long, haddr.fits, haddr.inbound⟩
  have hcount : counters { enc with
      inner := (T.popReceive (max enc.recvScratch (maxLength + OVERHEAD)) enc.inner).1
      recvScratch := max enc.recvScratch (maxLength + OVERHEAD) } peer = enc.counters peer := by
    cases peer <;> rfl
  unfold popReceive
  dsimp only
  rw [hpopped]
  dsimp only
  rw [openReceived_of_addressed haddr', hcount]
  exact ⟨counters_setCounters_self _ _ _, rfl⟩

/-- A packet that gets as far as `open` has already changed its peer's counters. -/
theorem popReceive_of_opens {T : ITransport σ} {enc : EncryptedTransport σ} {maxLength : Nat}
    {received : Bytes} {sender : Address} {key : Key} {peer : Peer}
    (h : Opens T enc maxLength received sender key peer) :
    ((enc.popReceive T maxLength).1.counters peer =
      (checkReplay (enc.counters peer) (counterOf (nonceIn received))).1) ∧
    (enc.popReceive T maxLength).2 =
      (ChaCha20Poly1305.opened key (nonceIn received) [] (received.drop NONCE_SIZE) maxLength).map
        fun data => (data, sender) := by
  obtain ⟨hcount, hpopped⟩ := popReceive_of_addressed h.popped h.addressed
  rw [if_pos h.fresh] at hpopped
  exact ⟨hcount, hpopped⟩

/-- A call changes no key. -/
theorem inbound_popReceive (T : ITransport σ) (enc : EncryptedTransport σ) (maxLength : Nat)
    (direction : UInt8) (sender : Address) :
    (enc.popReceive T maxLength).1.inbound direction sender = enc.inbound direction sender := by
  unfold popReceive
  dsimp only
  rcases (T.popReceive (max enc.recvScratch (maxLength + OVERHEAD)) enc.inner).2 with
    _ | ⟨received, s⟩
  · rfl
  · dsimp only
    rcases openReceived_cases { enc with
        inner := (T.popReceive (max enc.recvScratch (maxLength + OVERHEAD)) enc.inner).1
        recvScratch := max enc.recvScratch (maxLength + OVERHEAD) } maxLength received s with
      h | ⟨key, peer, h⟩
    · rw [h]
      rfl
    · rw [openReceived_of_addressed h]
      exact inbound_setCounters _ _ _ _ _

/-- A packet that fails authentication changes the counters of the peer it claims to be from, and a
packet of the same peer with the same counter, which would have been opened without it, is refused
after it. -/
theorem forged_leaves_trace {T : ITransport σ} {enc : EncryptedTransport σ} {maxLength : Nat}
    {received : Bytes} {sender : Address} {key : Key} {peer : Peer}
    (h : Forged T enc maxLength received sender key peer) :
    (enc.popReceive T maxLength).1.counters peer ≠ enc.counters peer ∧
    ∀ (maxLength' : Nat) (genuine : Bytes) (sender' : Address) (key' : Key),
      enc.Addressed maxLength' genuine sender' key' peer →
      counterOf (nonceIn genuine) = counterOf (nonceIn received) →
      (enc.openReceived maxLength' genuine sender').2 =
        ChaCha20Poly1305.opened key' (nonceIn genuine) [] (genuine.drop NONCE_SIZE) maxLength' ∧
      ((enc.popReceive T maxLength).1.openReceived maxLength' genuine sender').2 = none := by
  obtain ⟨hne, hagain⟩ := checkReplay_fresh h.fresh
  have hcount := (popReceive_of_opens h.toOpens).1
  constructor
  · rw [hcount]
    exact hne
  · intro maxLength' genuine sender' key' haddr hctr
    have haddr' : (enc.popReceive T maxLength).1.Addressed maxLength' genuine sender' key' peer :=
      ⟨haddr.long, haddr.fits, by rw [inbound_popReceive, haddr.inbound]⟩
    constructor
    · rw [openReceived_of_addressed haddr, hctr, if_pos h.fresh]
    · rw [openReceived_of_addressed haddr', hcount, hctr, hagain]
      rfl

/-! ### An execution -/

open LoopbackHub

def sharedKey : Bytes := List.replicate 32 7

/-- The packet with which the client sends one byte. -/
def genuinePacket : Bytes :=
  (((new connected sharedKey).send (LoopbackTransport.iTransport 1) [1]
    .reliableOrdered).1.inner.transports 0).pendingRecv.flatMap Loopback.Packet.data

/-- A packet of zeros, with the direction byte and the counter of the genuine one. -/
def forgedPacket : Bytes := List.replicate 29 0

/-- The server with these packets from the client's address in its queue. -/
def serverWith (packets : List Bytes) : EncryptedTransport LoopbackHub :=
  new (arrived packets) sharedKey

theorem genuinePacket_eq : genuinePacket = (nonceOf DIR_CLIENT_TO_SERVER 0).toList ++
    ChaCha20Poly1305.sealing (new () sharedKey).clientToServerKey (nonceOf DIR_CLIENT_TO_SERVER 0)
      [] [1] := by
  have hsealed : ChaCha20Poly1305.sealed ((new connected sharedKey).nextSeal .server).1
      ((new connected sharedKey).nextSeal .server).2 [] [1] ([(1 : UInt8)].length + TAG_SIZE) =
        some (ChaCha20Poly1305.sealing (new () sharedKey).clientToServerKey
          (nonceOf DIR_CLIENT_TO_SERVER 0) [] [1]) := ChaCha20Poly1305.sealed_eq _ _ _ _
  unfold genuinePacket send sendSealed
  dsimp only
  rw [hsealed]
  exact List.append_nil _

theorem genuinePacket_drop : genuinePacket.drop NONCE_SIZE =
    ChaCha20Poly1305.sealing (new () sharedKey).clientToServerKey (nonceIn genuinePacket) [] [1] := by
  have hnonce : nonceIn genuinePacket = nonceOf DIR_CLIENT_TO_SERVER 0 := by decide +kernel
  rw [hnonce, genuinePacket_eq]
  rfl

theorem opens_genuinePacket :
    Opens (LoopbackTransport.iTransport 0) (serverWith [genuinePacket]) 100 genuinePacket clientAddr
      (new () sharedKey).clientToServerKey (.client (addressHash clientAddr)) where
  popped := by
    show some (genuinePacket.take _, clientAddr) = some (genuinePacket, clientAddr)
    rw [List.take_of_length_le (by decide +kernel)]
  addressed := ⟨by decide +kernel, by decide +kernel, rfl⟩
  fresh := by decide +kernel

theorem forged_forgedPacket :
    Forged (LoopbackTransport.iTransport 0) (serverWith [forgedPacket, genuinePacket]) 100
      forgedPacket clientAddr (new () sharedKey).clientToServerKey (.client (addressHash clientAddr)) where
  popped := rfl
  addressed := ⟨by decide, by decide, rfl⟩
  fresh := by decide +kernel
  rejected := by decide +kernel

theorem forged_leaves_trace_forgedPacket :
    ((serverWith [forgedPacket, genuinePacket]).popReceive (LoopbackTransport.iTransport 0)
      100).1.counters (.client (addressHash clientAddr)) ≠ {} :=
  (forged_leaves_trace forged_forgedPacket).1

/-- The server opens the client's packet; with the forged packet before it the counters move and
neither packet is accepted. -/
theorem forgedPacket_shuts_out :
    ((serverWith [genuinePacket]).popReceive (LoopbackTransport.iTransport 0) 100).2 =
      some ([1], clientAddr) ∧
    Forged (LoopbackTransport.iTransport 0) (serverWith [forgedPacket, genuinePacket]) 100
      forgedPacket clientAddr (new () sharedKey).clientToServerKey
      (.client (addressHash clientAddr)) ∧
    ((serverWith [forgedPacket, genuinePacket]).popReceive (LoopbackTransport.iTransport 0)
      100).1.counters (.client (addressHash clientAddr)) ≠
      (serverWith [forgedPacket, genuinePacket]).counters (.client (addressHash clientAddr)) ∧
    (((serverWith [forgedPacket, genuinePacket]).popReceive (LoopbackTransport.iTransport 0)
      100).1.popReceive (LoopbackTransport.iTransport 0) 100).2 = none := by
  obtain ⟨hmoved, hagain⟩ := checkReplay_fresh forged_forgedPacket.fresh
  obtain ⟨hcount, -⟩ := popReceive_of_opens forged_forgedPacket.toOpens
  refine ⟨?_, forged_forgedPacket, ?_, ?_⟩
  · have hopened : ChaCha20Poly1305.opened (new () sharedKey).clientToServerKey
        (nonceIn genuinePacket) [] (genuinePacket.drop NONCE_SIZE) 100 = some [1] :=
      ChaCha20Poly1305.opened_eq_some_iff.mpr ⟨genuinePacket_drop, by decide⟩
    rw [(popReceive_of_opens opens_genuinePacket).2, hopened]
    rfl
  · rw [hcount]
    exact hmoved
  · -- the genuine packet is next, and its counter is spent
    have haddr : Addressed ((serverWith [forgedPacket, genuinePacket]).popReceive
        (LoopbackTransport.iTransport 0) 100).1 100 genuinePacket clientAddr
        (new () sharedKey).clientToServerKey (.client (addressHash clientAddr)) := by
      refine ⟨opens_genuinePacket.addressed.long, opens_genuinePacket.addressed.fits, ?_⟩
      rw [inbound_popReceive]
      rfl
    have hcounter : counterOf (nonceIn genuinePacket) = counterOf (nonceIn forgedPacket) := by
      decide +kernel
    rw [(popReceive_of_addressed ?_ haddr).2, hcount, hcounter, hagain]
    · rfl
    · show some (genuinePacket.take _, clientAddr) = some (genuinePacket, clientAddr)
      rw [List.take_of_length_le (by decide +kernel)]

end CampelloNet.Transport.EncryptedTransport
