import CampelloNet.Crypto.ChaCha20Poly1305
import CampelloNet.Transport.Interface

/-!
# The encrypted transport

`EncryptedTransport` over any inner transport: every payload is sealed under the key of its
direction with a nonce of direction and counter, and every received packet passes the replay window
before it is opened. The counters of a server's peers are found by a hash of the peer's address; an
entry that `unordered_map` has not created yet is a default one. Of the two scratch buffers only the
size of the receiving one matters, which grows and is never cut.
-/

namespace CampelloNet.Transport

open Lib Crypto

namespace Encrypted

def NONCE_SIZE : Nat := ChaCha20Poly1305.NONCE_SIZE

def TAG_SIZE : Nat := ChaCha20Poly1305.TAG_SIZE

def OVERHEAD : Nat := NONCE_SIZE + TAG_SIZE

/-- Accept counters within 64 of the highest seen. -/
def REPLAY_WINDOW : UInt64 := 64

def DIR_CLIENT_TO_SERVER : UInt8 := 0x00

def DIR_SERVER_TO_CLIENT : UInt8 := 0x01

structure CounterState where
  outbound : UInt64 := 0
  highestInbound : UInt64 := 0
  /-- bit i set: counter (highestInbound - i) already received -/
  seenBitmap : UInt64 := 0
  deriving DecidableEq, Repr

/-- Direction byte, three zero bytes, and the counter stored little-endian. -/
def nonceOf (direction : UInt8) (counter : UInt64) : Nonce :=
  #v[direction, 0, 0, 0, counter.toUInt8, (counter >>> 8).toUInt8, (counter >>> 16).toUInt8,
    (counter >>> 24).toUInt8, (counter >>> 32).toUInt8, (counter >>> 40).toUInt8,
    (counter >>> 48).toUInt8, (counter >>> 56).toUInt8]

/-- `load_counter_le` on the last eight bytes of a nonce. -/
def counterOf (nonce : Nonce) : UInt64 :=
  ofLe64 nonce[4] nonce[5] nonce[6] nonce[7] nonce[8] nonce[9] nonce[10] nonce[11]

/-- The direction byte of a nonce. -/
abbrev directionOf (nonce : Nonce) : UInt8 := nonce[0]

def addressHash (addr : Address) : UInt64 :=
  addr.rawStorage.foldl (fun h b => h * 31 + b.toUInt64) 0

/-- The replay check of `pop_receive`: the counters after it, and whether the packet goes on to be
opened. -/
def checkReplay (st : CounterState) (counter : UInt64) : CounterState × Bool :=
  if counter + REPLAY_WINDOW ≤ st.highestInbound then (st, false)
  else
    let st :=
      if counter > st.highestInbound then
        let shift := counter - st.highestInbound
        { st with
          seenBitmap := if shift ≥ 64 then 0 else st.seenBitmap <<< shift
          highestInbound := counter }
      else st
    let diff := st.highestInbound - counter
    if diff < 64 then
      let bit := (1 : UInt64) <<< diff
      if st.seenBitmap &&& bit ≠ 0 then (st, false)
      else ({ st with seenBitmap := st.seenBitmap ||| bit }, true)
    else (st, true)

/-- Whose counters a packet uses: the server's, or those of a client at an address with this
hash. -/
inductive Peer
  | server
  | client (hash : UInt64)
  deriving DecidableEq

end Encrypted

open Encrypted

structure EncryptedTransport (σ : Type) where
  inner : σ
  clientToServerKey : Key
  serverToClientKey : Key
  perAddress : UInt64 → CounterState := fun _ => {}
  clientState : CounterState := {}
  /-- `recv_scratch.size()` -/
  recvScratch : Nat := 0

namespace EncryptedTransport

variable {σ : Type}

/-- The constructor. A key of another length is cut or padded with zeros. -/
def new (inner : σ) (key : Bytes) : EncryptedTransport σ :=
  let masterKey : Key := Vector.ofFn fun i => key.getD i 0
  let keys := ChaCha20Poly1305.deriveKeys masterKey
  { inner := inner, clientToServerKey := keys.1, serverToClientKey := keys.2 }

/-- The counters kept for a peer. -/
def counters (enc : EncryptedTransport σ) : Peer → CounterState
  | .server => enc.clientState
  | .client hash => enc.perAddress hash

def setCounters (enc : EncryptedTransport σ) (peer : Peer) (st : CounterState) :
    EncryptedTransport σ :=
  match peer with
  | .server => { enc with clientState := st }
  | .client hash => { enc with perAddress := Function.update enc.perAddress hash st }

/-- The key and the direction byte for what is sent to a peer. -/
def outboundKey (enc : EncryptedTransport σ) : Peer → Key × UInt8
  | .server => (enc.clientToServerKey, DIR_CLIENT_TO_SERVER)
  | .client _ => (enc.serverToClientKey, DIR_SERVER_TO_CLIENT)

/-- The key and the nonce with which the next payload for a peer is sealed. -/
def nextSeal (enc : EncryptedTransport σ) (peer : Peer) : Key × Nonce :=
  ((enc.outboundKey peer).1, nonceOf (enc.outboundKey peer).2 (enc.counters peer).outbound)

/-- The part that `send` and `send_to` share: count, seal, and hand the packet on. -/
def sendSealed (enc : EncryptedTransport σ) (peer : Peer) (data : Bytes)
    (transmit : Bytes → σ → σ × Bool) : EncryptedTransport σ × Bool :=
  let st := enc.counters peer
  let (key, nonce) := enc.nextSeal peer
  let enc := enc.setCounters peer { st with outbound := st.outbound + 1 }
  match ChaCha20Poly1305.sealed key nonce [] data (data.length + TAG_SIZE) with
  | none => (enc, false)
  | some out =>
    let (inner, ok) := transmit (nonce.toList ++ out) enc.inner
    ({ enc with inner := inner }, ok)

section
variable (T : ITransport σ)

/-- Client to server. -/
def send (data : Bytes) (r : PacketReliability) (enc : EncryptedTransport σ) :
    EncryptedTransport σ × Bool :=
  enc.sendSealed .server data fun packet inner => T.send packet r inner

/-- Server to client. -/
def sendTo (address : Address) (data : Bytes) (r : PacketReliability) (enc : EncryptedTransport σ) :
    EncryptedTransport σ × Bool :=
  enc.sendSealed (.client (addressHash address)) data fun packet inner =>
    T.sendTo address packet r inner

def poll (enc : EncryptedTransport σ) : EncryptedTransport σ :=
  { enc with inner := T.poll enc.inner }

/-- The key and the peer's counters for a received packet, by its direction byte. -/
def inbound (enc : EncryptedTransport σ) (direction : UInt8) (sender : Address) :
    Option (Key × Peer) :=
  if direction = DIR_CLIENT_TO_SERVER then
    some (enc.clientToServerKey, .client (addressHash sender))
  else if direction = DIR_SERVER_TO_CLIENT then some (enc.serverToClientKey, .server)
  else none

/-- The nonce of a packet of at least `OVERHEAD` bytes. -/
def nonceIn (received : Bytes) : Nonce := Vector.ofFn fun i => received.getD i 0

/-- What `pop_receive` does with a packet that the inner transport popped. -/
def openReceived (maxLength : Nat) (received : Bytes) (sender : Address)
    (enc : EncryptedTransport σ) : EncryptedTransport σ × Option Bytes :=
  if received.length < OVERHEAD then (enc, none)
  else
    let nonce := nonceIn received
    let ciphertextLen := received.length - NONCE_SIZE
    let plaintextLen := ciphertextLen - TAG_SIZE
    if plaintextLen > maxLength then (enc, none)
    else
      match enc.inbound nonce[0] sender with
      | none => (enc, none)
      | some (key, peer) =>
        let (st, fresh) := checkReplay (enc.counters peer) (counterOf nonce)
        let enc := enc.setCounters peer st
        if fresh then
          (enc, ChaCha20Poly1305.opened key nonce [] (received.drop NONCE_SIZE) maxLength)
        else (enc, none)

def popReceive (maxLength : Nat) (enc : EncryptedTransport σ) :
    EncryptedTransport σ × Option (Bytes × Address) :=
  let scratch := max enc.recvScratch (maxLength + OVERHEAD)
  let (inner, popped) := T.popReceive scratch enc.inner
  let enc := { enc with inner := inner, recvScratch := scratch }
  match popped with
  | none => (enc, none)
  | some (received, sender) =>
    let (enc, plaintext) := enc.openReceived maxLength received sender
    (enc, plaintext.map fun data => (data, sender))

/-- An encrypted transport is a transport. -/
def iTransport : ITransport (EncryptedTransport σ) where
  bind address enc := ({ enc with inner := (T.bind address enc.inner).1 }, (T.bind address enc.inner).2)
  connect address enc :=
    ({ enc with inner := (T.connect address enc.inner).1 }, (T.connect address enc.inner).2)
  disconnect enc := { enc with inner := T.disconnect enc.inner }
  isConnected enc := T.isConnected enc.inner
  send := send T
  sendTo := sendTo T
  poll := poll T
  popReceive := popReceive T
  getConnectionRtt address enc := T.getConnectionRtt address enc.inner

end

/-! ### Counters -/

section
variable (enc : EncryptedTransport σ) (peer : Peer) (st : CounterState)

@[simp] theorem counters_setCounters_self : (enc.setCounters peer st).counters peer = st := by
  cases peer with
  | server => rfl
  | client hash => exact Function.update_self hash st enc.perAddress

@[simp] theorem counters_setCounters_ne {p : Peer} (h : p ≠ peer) :
    (enc.setCounters peer st).counters p = enc.counters p := by
  cases peer with
  | server =>
    cases p with
    | server => exact absurd rfl h
    | client hash => rfl
  | client hash =>
    cases p with
    | server => rfl
    | client hash' =>
      exact Function.update_of_ne (fun heq => h (congrArg Peer.client heq)) st enc.perAddress

@[simp] theorem outboundKey_setCounters (p : Peer) :
    (enc.setCounters peer st).outboundKey p = enc.outboundKey p := by
  cases peer <;> cases p <;> rfl

@[simp] theorem inbound_setCounters (direction : UInt8) (sender : Address) :
    (enc.setCounters peer st).inbound direction sender = enc.inbound direction sender := by
  cases peer <;> rfl

end

/-! ### One received packet -/

/-- The packet is long enough, fits the caller's buffer and names a direction: the key and the
counters are those of `peer`. -/
structure Addressed (enc : EncryptedTransport σ) (maxLength : Nat) (received : Bytes)
    (sender : Address) (key : Key) (peer : Peer) : Prop where
  long : OVERHEAD ≤ received.length
  fits : received.length - NONCE_SIZE - TAG_SIZE ≤ maxLength
  inbound : enc.inbound (nonceIn received)[0] sender = some (key, peer)

/-- What the packet does to an encrypted transport when it gets as far as the replay check. -/
theorem openReceived_of_addressed {enc : EncryptedTransport σ} {maxLength : Nat} {received : Bytes}
    {sender : Address} {key : Key} {peer : Peer}
    (h : enc.Addressed maxLength received sender key peer) :
    enc.openReceived maxLength received sender =
      (enc.setCounters peer (checkReplay (enc.counters peer) (counterOf (nonceIn received))).1,
        if (checkReplay (enc.counters peer) (counterOf (nonceIn received))).2 then
          ChaCha20Poly1305.opened key (nonceIn received) [] (received.drop NONCE_SIZE) maxLength
        else none) := by
  unfold openReceived
  rw [if_neg (not_lt.mpr h.long)]
  dsimp only
  rw [if_neg (not_lt.mpr h.fits), h.inbound]
  dsimp only
  split_ifs <;> rfl

theorem openReceived_cases (enc : EncryptedTransport σ) (maxLength : Nat) (received : Bytes)
    (sender : Address) :
    enc.openReceived maxLength received sender = (enc, none) ∨
      ∃ key peer, enc.Addressed maxLength received sender key peer := by
  by_cases hlong : received.length < OVERHEAD
  · left
    unfold openReceived
    rw [if_pos hlong]
  · by_cases hfits : received.length - NONCE_SIZE - TAG_SIZE > maxLength
    · left
      unfold openReceived
      rw [if_neg hlong]
      dsimp only
      rw [if_pos hfits]
    · rcases hin : enc.inbound (nonceIn received)[0] sender with _ | ⟨key, peer⟩
      · left
        unfold openReceived
        rw [if_neg hlong]
        dsimp only
        rw [if_neg hfits, hin]
      · exact .inr ⟨key, peer, not_lt.mp hlong, not_lt.mp hfits, hin⟩

end EncryptedTransport

end CampelloNet.Transport
