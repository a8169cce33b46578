import CampelloNet.Transport.Address

/-!
# Packet headers

The 16-byte header of every UDP packet, `PacketHeader::serialize` and `deserialize`, and the two
2-bit fields packed into `flags`. A header read back from the bytes of a packet is the header that
was written (`deserialize_serialize_append`).
-/

namespace CampelloNet.Transport

open Lib

/-- Reliability semantics for packet delivery. -/
inductive PacketReliability
  | unreliable
  | reliableOrdered
  | reliableUnordered
  | unreliableSequenced
  deriving DecidableEq, Repr

namespace PacketReliability

/-- `static_cast<uint8_t>(reliability)`: the number of the reliability's own channel. -/
def index : PacketReliability → Fin 4
  | unreliable => 0
  | reliableOrdered => 1
  | reliableUnordered => 2
  | unreliableSequenced => 3

def ofIndex : Fin 4 → PacketReliability
  | 0 => unreliable
  | 1 => reliableOrdered
  | 2 => reliableUnordered
  | 3 => unreliableSequenced

/-- `is_reliable` -/
def isReliable (r : PacketReliability) : Bool := r = reliableOrdered ∨ r = reliableUnordered

@[simp] theorem ofIndex_index (r : PacketReliability) : ofIndex r.index = r := by cases r <;> rfl
@[simp] theorem index_ofIndex (i : Fin 4) : (ofIndex i).index = i := by revert i; decide

end PacketReliability

/-- Internal packet types, by their value on the wire. -/
inductive PacketType
  | user
  | handshake
  | disconnect
  | ack
  | fragment
  deriving DecidableEq, Repr

def PacketType.toUInt8 : PacketType → UInt8
  | user => 0
  | handshake => 1
  | disconnect => 2
  | ack => 3
  | fragment => 4

def MAX_PACKET_SIZE : Nat := 1200

structure PacketHeader where
  protocolId : UInt16 := 0xCA17
  packetType : UInt8 := 0
  /-- reliability << 2 | channel -/
  flags : UInt8 := 0
  sequence : UInt16 := 0
  ack : UInt16 := 0
  ackBits : UInt32 := 0
  payloadLen : UInt16 := 0
  fragIndex : UInt8 := 0
  fragCount : UInt8 := 0
  deriving DecidableEq, Repr

namespace PacketHeader

def PROTOCOL_ID : UInt16 := 0xCA17

def SIZE : Nat := 16

def reliability (h : PacketHeader) : PacketReliability :=
  .ofIndex ⟨((h.flags >>> 2) &&& (3 : UInt8)).toNat, by
    rw [UInt8.toNat_and]; exact lt_of_le_of_lt Nat.and_le_right (by decide)⟩

def channel (h : PacketHeader) : Fin 4 :=
  ⟨(h.flags &&& 3).toNat, by
    rw [UInt8.toNat_and]; exact lt_of_le_of_lt Nat.and_le_right (by decide)⟩

def setReliability (h : PacketHeader) (r : PacketReliability) : PacketHeader :=
  { h with flags := (h.flags &&& 3) ||| ((UInt8.ofNat r.index.val &&& (3 : UInt8)) <<< (2 : UInt8)) }

def setChannel (h : PacketHeader) (ch : Fin 4) : PacketHeader :=
  { h with flags := (h.flags &&& ~~~3) ||| (UInt8.ofNat ch.val &&& 3) }

/-- The `SIZE` bytes of the header. -/
def serialize (h : PacketHeader) : Bytes :=
  be16 h.protocolId ++ [h.packetType, h.flags] ++ be16 h.sequence ++ be16 h.ack ++
    be32 h.ackBits ++ be16 h.payloadLen ++ [h.fragIndex, h.fragCount]

/-- Read a header from the front of a buffer; `none` when it holds fewer than `SIZE` bytes. -/
def deserialize : Bytes → Option PacketHeader
  | b0 :: b1 :: b2 :: b3 :: b4 :: b5 :: b6 :: b7 :: b8 :: b9 :: b10 :: b11 :: b12 :: b13 :: b14 ::
      b15 :: _ =>
    some { protocolId := ofBe16 b0 b1, packetType := b2, flags := b3, sequence := ofBe16 b4 b5,
           ack := ofBe16 b6 b7, ackBits := ofBe32 b8 b9 b10 b11, payloadLen := ofBe16 b12 b13,
           fragIndex := b14, fragCount := b15 }
  | _ => none

@[simp] theorem length_serialize (h : PacketHeader) : h.serialize.length = SIZE := rfl

/-- Reading back a packet's header gives the header that was sent. -/
@[simp] theorem deserialize_serialize_append (h : PacketHeader) (payload : Bytes) :
    deserialize (h.serialize ++ payload) = some h := by
  simp [serialize, be16, be32, deserialize]

@[simp] theorem drop_serialize_append (h : PacketHeader) (payload : Bytes) :
    (h.serialize ++ payload).drop SIZE = payload := by
  rw [← length_serialize h, List.drop_left]

/-! ### The flag fields

Every header is built on zero flags, with the number of the channel it travels on and the
reliability of the same number. -/

theorem channel_setChannel_setReliability (h : PacketHeader) (r : PacketReliability)
    (hf : h.flags = 0) : ((h.setReliability r).setChannel r.index).channel = r.index := by
  cases r <;> simp only [setChannel, setReliability, channel, hf] <;> rfl

theorem reliability_setChannel_setReliability (h : PacketHeader) (r : PacketReliability)
    (hf : h.flags = 0) : ((h.setReliability r).setChannel r.index).reliability = r := by
  cases r <;> simp only [setChannel, setReliability, reliability, hf] <;> rfl

end PacketHeader

/-- User payload capacity inside a single non-fragmented packet. -/
def MAX_PAYLOAD_SIZE : Nat := MAX_PACKET_SIZE - PacketHeader.SIZE

end CampelloNet.Transport
