import CampelloNet.Lib.Bytes
import CampelloNet.Lib.Codec

/-!
# Bit streams

`BitStream`: bits are packed most significant first, some values at any bit and some at the next byte
boundary. The byte order of the machine is an argument where `to_net` looks at it. A `float` or a
`double` is its bits. A reading method that returns false is a reader that fails, and leaves the stream
where it was then.
-/

namespace CampelloNet.Serialization

open Lib

/-- `std::endian::native` -/
inductive Endian
  | little
  | big
  deriving DecidableEq

structure BitStream where
  buffer : Bytes := []
  writeBitPos : ℕ := 0
  readBitPos : ℕ := 0

namespace BitStream

abbrev Reader := OptionT (StateM BitStream)

/-- A stream to read from. -/
def ofSpan (data : Bytes) : BitStream := { buffer := data, writeBitPos := data.length * 8 }

def byteCount (s : BitStream) : ℕ := (s.writeBitPos + 7) / 8

def span (s : BitStream) : Bytes := s.buffer.take s.byteCount

/-! ### Byte order -/

def toNet16 (native : Endian) (v : UInt16) : UInt16 :=
  match native with
  | .big => v
  | .little => (v >>> 8) ||| (v <<< 8)

def toNet32 (native : Endian) (v : UInt32) : UInt32 :=
  match native with
  | .big => v
  | .little =>
    ((v >>> 24) &&& (0xFF : UInt32)) ||| ((v >>> 8) &&& (0xFF00 : UInt32)) |||
      ((v <<< 8) &&& (0xFF0000 : UInt32)) ||| (v <<< 24)

def toNet64 (native : Endian) (v : UInt64) : UInt64 :=
  match native with
  | .big => v
  | .little =>
    ((toNet32 .little v.toUInt32).toUInt64 <<< 32) ||| (toNet32 .little (v >>> 32).toUInt32).toUInt64

/-! ### Writing -/

/-- One turn of the loop of `write_bits`. -/
def writeBit (bit : Bool) (s : BitStream) : BitStream :=
  let byteIdx := s.writeBitPos / 8
  let bitIdx := 7 - s.writeBitPos % 8
  let buffer := if byteIdx ≥ s.buffer.length then s.buffer ++ [0] else s.buffer
  { s with
    buffer := if bit then buffer.modify byteIdx (· ||| (1 <<< UInt8.ofNat bitIdx)) else buffer
    writeBitPos := s.writeBitPos + 1 }

/-- The lowest bits of a value, as many as are asked for. -/
def writeBits (value : UInt64) : ℕ → BitStream → BitStream
  | 0, s => s
  | i + 1, s => writeBits value i (s.writeBit ((value >>> UInt64.ofNat i) &&& 1 = 1))

def writeBool (value : Bool) : BitStream → BitStream := writeBits (if value then 1 else 0) 1

def writeUint8 (value : UInt8) : BitStream → BitStream := writeBits value.toUInt64 8

def alignToByte (s : BitStream) : BitStream :=
  if s.writeBitPos % 8 ≠ 0 then s.writeBits 0 (8 - s.writeBitPos % 8) else s

/-- The bytes go up to 0x7F, with the high bit set on all but the last. -/
def writeVarintLoop (value : UInt64) (s : BitStream) : BitStream :=
  if value > 0x7F then
    writeVarintLoop (value >>> 7) (s.writeUint8 ((value &&& 0x7F) ||| 0x80).toUInt8)
  else s.writeUint8 (value &&& 0x7F).toUInt8
termination_by value.toNat
decreasing_by
  rename_i h
  rw [gt_iff_lt, UInt64.lt_iff_toNat_lt] at h
  rw [UInt64.toNat_shiftRight]
  change 127 < _ at h
  change value.toNat >>> 7 < _
  omega

def writeVarint (value : UInt64) (s : BitStream) : BitStream := s.alignToByte.writeVarintLoop value

/-- `std::vector::resize` -/
def resize (n : ℕ) (data : Bytes) : Bytes := data.take n ++ List.replicate (n - data.length) 0

def writeBytes (data : Bytes) (s : BitStream) : BitStream :=
  let s := s.alignToByte
  let startByte := s.writeBitPos / 8
  { s with
    buffer := (resize (startByte + data.length) s.buffer).take startByte ++ data
    writeBitPos := s.writeBitPos + data.length * 8 }

def writeString (str : Bytes) (s : BitStream) : BitStream :=
  (s.writeVarint (UInt64.ofNat str.length)).writeBytes str

section
variable (native : Endian)

def writeUint16 (value : UInt16) : BitStream → BitStream :=
  writeBits (toNet16 native value).toUInt64 16

def writeUint32 (value : UInt32) : BitStream → BitStream :=
  writeBits (toNet32 native value).toUInt64 32

def writeUint64 (value : UInt64) : BitStream → BitStream := writeBits (toNet64 native value) 64

def writeInt8 (value : Int8) : BitStream → BitStream := writeBits value.toUInt8.toUInt64 8

def writeInt16 (value : Int16) : BitStream → BitStream := writeUint16 native value.toUInt16

def writeInt32 (value : Int32) : BitStream → BitStream := writeUint32 native value.toUInt32

def writeInt64 (value : Int64) : BitStream → BitStream := writeUint64 native value.toUInt64

def writeFloat (bits : UInt32) (s : BitStream) : BitStream := s.alignToByte.writeUint32 native bits

def writeDouble (bits : UInt64) (s : BitStream) : BitStream := s.alignToByte.writeUint64 native bits

end

/-! ### Reading -/

def readBitsLoop : ℕ → UInt64 → BitStream → UInt64 × BitStream
  | 0, value, s => (value, s)
  | n + 1, value, s =>
    let bit := (s.buffer.getD (s.readBitPos / 8) 0 >>> UInt8.ofNat (7 - s.readBitPos % 8)) &&& 1
    readBitsLoop n ((value <<< 1) ||| bit.toUInt64) { s with readBitPos := s.readBitPos + 1 }

def readBits (n : ℕ) : Reader UInt64 := fun s =>
  if n = 0 then (some 0, s)
  else if s.readBitPos + n > s.writeBitPos then (none, s)
  else
    let (value, s) := readBitsLoop n 0 s
    (some value, s)

def readBool : Reader Bool := (· ≠ 0) <$> readBits 1

def readUint8 : Reader UInt8 := UInt64.toUInt8 <$> readBits 8

def alignReadToByte : Reader Unit := fun s =>
  if s.readBitPos % 8 ≠ 0 then ((fun _ => ()) <$> readBits (8 - s.readBitPos % 8) : Reader Unit) s
  else (some (), s)

def readVarintLoop (shift : ℕ) (value : UInt64) : Reader UInt64 := do
  let byte ← readUint8
  let value := value ||| ((byte &&& 0x7F).toUInt64 <<< UInt64.ofNat shift)
  if byte &&& 0x80 = 0 then pure value
  else if shift + 7 ≥ 64 then failure
  else readVarintLoop (shift + 7) value
termination_by 64 - shift

def readVarint : Reader UInt64 := do
  alignReadToByte
  readVarintLoop 0 0

/-- The copy of `read_bytes`, from a byte boundary. -/
def copyBytes (len : ℕ) : Reader Bytes := fun s =>
  if s.readBitPos + len * 8 > s.writeBitPos then (none, s)
  else
    (some ((s.buffer.drop (s.readBitPos / 8)).take len),
      { s with readBitPos := s.readBitPos + len * 8 })

def readBytes (len : ℕ) : Reader Bytes := do
  alignReadToByte
  copyBytes len

def readString : Reader Bytes := do
  let len ← readVarint
  if len > 65535 then failure
  else if len > 0 then readBytes len.toNat
  else pure []

/-- The bits of the float that a half stands for. -/
def floatOfHalf (h : UInt16) : UInt32 :=
  let sign := (h >>> 15) &&& 1
  let exponent := (h >>> 10) &&& 0x1F
  let mantissa := h &&& 0x3FF
  if exponent = 0 then sign.toUInt32 <<< 31
  else if exponent = 0x1F then
    (sign.toUInt32 <<< 31) ||| ((0xFF : UInt32) <<< 23) ||| (mantissa.toUInt32 <<< 13)
  else
    (sign.toUInt32 <<< 31) ||| ((exponent.toUInt32 - 15 + 127) <<< 23) |||
      (mantissa.toUInt32 <<< 13)

def readHalf : Reader UInt32 := do
  alignReadToByte
  let hv ← readBits 16
  pure (floatOfHalf hv.toUInt16)

/-- `read_array`, from the read of an element. -/
def readArray {α : Type} (elem : Reader α) : Reader (List α) := do
  let len ← readVarint
  if len > 1000000 then failure
  else List.Vector.toList <$> Medium.readEach elem len.toNat

section
variable (native : Endian)

def readUint16 : Reader UInt16 := (fun v => toNet16 native v.toUInt16) <$> readBits 16

def readUint32 : Reader UInt32 := (fun v => toNet32 native v.toUInt32) <$> readBits 32

def readUint64 : Reader UInt64 := toNet64 native <$> readBits 64

def readInt8 : Reader Int8 := UInt8.toInt8 <$> readUint8

def readInt16 : Reader Int16 := UInt16.toInt16 <$> readUint16 native

def readInt32 : Reader Int32 := UInt32.toInt32 <$> readUint32 native

def readInt64 : Reader Int64 := UInt64.toInt64 <$> readUint64 native

def readFloat : Reader UInt32 := do
  alignReadToByte
  readUint32 native

def readDouble : Reader UInt64 := do
  alignReadToByte
  readUint64 native

end

end BitStream

end CampelloNet.Serialization
