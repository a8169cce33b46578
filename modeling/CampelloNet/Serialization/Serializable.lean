import CampelloNet.Serialization.BitStream

/-!
# The `serialize` and `deserialize` overloads

The types that have overloads: the numbers, arrays of such types and vectors of such types. An `Item`
is one typed write, its `Kind` the read that belongs to it.
-/

namespace CampelloNet.Serialization

open Lib BitStream

/-- The types of numbers. -/
inductive Scalar
  | uint8
  | uint16
  | uint32
  | uint64
  | int8
  | int16
  | int32
  | int64
  | float
  | double

/-- A number, a `float` and a `double` by their bits. -/
abbrev Scalar.Value : Scalar → Type
  | uint8 => UInt8
  | uint16 => UInt16
  | uint32 => UInt32
  | uint64 => UInt64
  | int8 => Int8
  | int16 => Int16
  | int32 => Int32
  | int64 => Int64
  | float => UInt32
  | double => UInt64

/-- What an array or a vector can hold: numbers, and arrays again. -/
inductive Elem
  | scalar (type : Scalar)
  | array (n : ℕ) (type : Elem)

abbrev Elem.Value : Elem → Type
  | scalar type => type.Value
  | array n type => List.Vector type.Value n

section
variable (native : Endian)

def serializeScalar : (type : Scalar) → type.Value → BitStream → BitStream
  | .uint8, value => writeUint8 value
  | .uint16, value => writeUint16 native value
  | .uint32, value => writeUint32 native value
  | .uint64, value => writeUint64 native value
  | .int8, value => writeUint8 value.toUInt8
  | .int16, value => writeUint16 native value.toUInt16
  | .int32, value => writeUint32 native value.toUInt32
  | .int64, value => writeUint64 native value.toUInt64
  | .float, value => writeFloat native value
  | .double, value => writeDouble native value

def deserializeScalar : (type : Scalar) → Reader type.Value
  | .uint8 => readUint8
  | .uint16 => readUint16 native
  | .uint32 => readUint32 native
  | .uint64 => readUint64 native
  | .int8 => UInt8.toInt8 <$> readUint8
  | .int16 => UInt16.toInt16 <$> readUint16 native
  | .int32 => UInt32.toInt32 <$> readUint32 native
  | .int64 => UInt64.toInt64 <$> readUint64 native
  | .float => readFloat native
  | .double => readDouble native

/-- A number, or an array element by element. -/
def serialize : (type : Elem) → type.Value → BitStream → BitStream
  | .scalar type, value => serializeScalar native type value
  | .array _ type, value => fun stream =>
    value.toList.foldl (fun stream elem => serialize type elem stream) stream

def deserialize : (type : Elem) → Reader type.Value
  | .scalar type => deserializeScalar native type
  | .array n type => Medium.readEach (deserialize type) n

/-- A vector: the number of elements, then the elements. -/
def serializeVector (type : Elem) (value : List type.Value) (stream : BitStream) : BitStream :=
  value.foldl (fun stream elem => serialize native type elem stream)
    (stream.writeVarint (UInt64.ofNat value.length))

def deserializeVector (type : Elem) : Reader (List type.Value) := do
  let size ← readVarint
  if size > 1000000 then failure
  else List.Vector.toList <$> Medium.readEach (deserialize native type) size.toNat

end

/-! ### Typed writes and reads -/

/-- The typed reads. -/
inductive Kind
  | bool
  | bits (n : ℕ)
  | scalar (type : Scalar)
  | varint
  | bytes (len : ℕ)
  | string
  | array (n : ℕ) (type : Elem)
  | vector (type : Elem)

abbrev Kind.Value : Kind → Type
  | bool => Bool
  | bits _ => UInt64
  | scalar type => type.Value
  | varint => UInt64
  | bytes _ => Bytes
  | string => Bytes
  | array n type => List.Vector type.Value n
  | vector type => List type.Value

/-- A typed write. -/
structure Item where
  kind : Kind
  value : kind.Value

section
variable (native : Endian)

/-- The writing method of a kind; that of a number is `write_uint8` and its siblings. -/
def Kind.write : (kind : Kind) → kind.Value → BitStream → BitStream
  | bool, value => writeBool value
  | bits n, value => writeBits value n
  | scalar .int8, value => writeInt8 value
  | scalar .int16, value => writeInt16 native value
  | scalar .int32, value => writeInt32 native value
  | scalar .int64, value => writeInt64 native value
  | scalar type, value => serializeScalar native type value
  | varint, value => writeVarint value
  | bytes _, value => writeBytes value
  | string, value => writeString value
  | array n type, value => serialize native (.array n type) value
  | vector type, value => serializeVector native type value

def Kind.read : (kind : Kind) → Reader kind.Value
  | bool => readBool
  | bits n => readBits n
  | scalar .int8 => readInt8
  | scalar .int16 => readInt16 native
  | scalar .int32 => readInt32 native
  | scalar .int64 => readInt64 native
  | scalar type => deserializeScalar native type
  | varint => readVarint
  | bytes len => readBytes len
  | string => readString
  | array n type => deserialize native (.array n type)
  | vector type => deserializeVector native type

def writeAll (items : List Item) (stream : BitStream) : BitStream :=
  items.foldl (fun stream item => item.kind.write native item.value stream) stream

/-- One read after the other, up to the first that fails. -/
def readAll : List Kind → Reader (List Item)
  | [] => pure []
  | kind :: kinds => do
    let value ← kind.read native
    let items ← readAll kinds
    pure (⟨kind, value⟩ :: items)

end

end CampelloNet.Serialization
