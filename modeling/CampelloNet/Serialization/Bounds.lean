import CampelloNet.Lib.Checked
import CampelloNet.Serialization.Serializable

/-!
# The bounds of a read

The reading methods once more, with the positions in 64 bits and every byte looked up in the buffer:
where one lies outside, there is no result. On a stream whose cursors are in order they all have one,
and it is that of the methods that do not look (`reads_safe`).
-/

namespace CampelloNet.Serialization

open Lib

namespace BitStream

/-- The cursors are in order. -/
structure Valid (s : BitStream) : Prop where
  read : s.readBitPos ≤ s.writeBitPos
  write : s.writeBitPos ≤ 8 * s.buffer.length
  small : s.buffer.length < 2 ^ 60

/-- The position at which an aligned read begins. -/
def alignedPos (s : BitStream) : ℕ := (s.readBitPos + 7) / 8 * 8

end BitStream

open BitStream

/-! ### Reads that look -/

namespace Checked

def readBitsLoop : ℕ → UInt64 → BitStream → Option (UInt64 × BitStream)
  | 0, value, s => some (value, s)
  | n + 1, value, s => do
    let byte ← s.buffer[s.readBitPos / 8]?
    let bit := (byte >>> UInt8.ofNat (7 - s.readBitPos % 8)) &&& 1
    readBitsLoop n ((value <<< 1) ||| bit.toUInt64)
      { s with readBitPos := (s.readBitPos + 1) % 2 ^ 64 }

def readBits (n : ℕ) : Checked BitStream UInt64 := fun s =>
  if n = 0 then some (some 0, s)
  else if (s.readBitPos + n) % 2 ^ 64 > s.writeBitPos then some (none, s)
  else (readBitsLoop n 0 s).map fun out => (some out.1, out.2)

def readBool : Checked BitStream Bool := (· ≠ 0) <$> readBits 1

def readUint8 : Checked BitStream UInt8 := UInt64.toUInt8 <$> readBits 8

def alignReadToByte : Checked BitStream Unit := fun s =>
  if s.readBitPos % 8 ≠ 0 then
    ((fun _ => ()) <$> readBits (8 - s.readBitPos % 8) : Checked BitStream Unit) s
  else some (some (), s)

def readVarintLoop (shift : ℕ) (value : UInt64) : Checked BitStream UInt64 := do
  let byte ← readUint8
  let value := value ||| ((byte &&& 0x7F).toUInt64 <<< UInt64.ofNat shift)
  if byte &&& 0x80 = 0 then pure value
  else if shift + 7 ≥ 64 then failure
  else readVarintLoop (shift + 7) value
termination_by 64 - shift

def readVarint : Checked BitStream UInt64 := do
  alignReadToByte
  readVarintLoop 0 0

/-- The bytes of a `memcpy`, one by one. -/
def fetch (buffer : Bytes) (i : ℕ) : ℕ → Option Bytes
  | 0 => some []
  | n + 1 => do
    let byte ← buffer[i]?
    let bytes ← fetch buffer (i + 1) n
    some (byte :: bytes)

def copyBytes (len : ℕ) : Checked BitStream Bytes := fun s =>
  let next := (s.readBitPos + len * 8 % 2 ^ 64) % 2 ^ 64
  if next > s.writeBitPos then some (none, s)
  else (fetch s.buffer (s.readBitPos / 8) len).map fun data => (some data, { s with readBitPos := next })

def readBytes (len : ℕ) : Checked BitStream Bytes := do
  alignReadToByte
  copyBytes len

def readString : Checked BitStream Bytes := do
  let len ← readVarint
  if len > 65535 then failure
  else if len > 0 then readBytes len.toNat
  else pure []

def readHalf : Checked BitStream UInt32 := do
  alignReadToByte
  let hv ← readBits 16
  pure (floatOfHalf hv.toUInt16)

def readArray {α : Type} (elem : Checked BitStream α) : Checked BitStream (List α) := do
  let len ← readVarint
  if len > 1000000 then failure
  else List.Vector.toList <$> elem.readEach len.toNat

section
variable (native : Endian)

def readUint16 : Checked BitStream UInt16 := (fun v => toNet16 native v.toUInt16) <$> readBits 16

def readUint32 : Checked BitStream UInt32 := (fun v => toNet32 native v.toUInt32) <$> readBits 32

def readUint64 : Checked BitStream UInt64 := toNet64 native <$> readBits 64

def readFloat : Checked BitStream UInt32 := do
  alignReadToByte
  readUint32 native

def readDouble : Checked BitStream UInt64 := do
  alignReadToByte
  readUint64 native

def readScalar : (type : Scalar) → Checked BitStream type.Value
  | .uint8 => readUint8
  | .uint16 => readUint16 native
  | .uint32 => readUint32 native
  | .uint64 => readUint64 native
  | .int8 => UInt8.toInt8 <$> readUint8
  | .int16 => UInt16.toInt16 <$> readUint16 native
  | .int32 => UInt32.toInt32 <$> readUint32 native
  | .int64 => UInt64.toInt64 <$> readUint64 native
  | .float => readFloat native
  | .double => readDouble native

end

end Checked

/-! ### They agree with the reads that do not look -/

theorem agrees_readBits {n : ℕ} (hn : n ≤ 64) :
    Agrees Valid (Checked.readBits n) (BitStream.readBits n) := by
  have hloop : ∀ (n : ℕ) (value : UInt64) (s : BitStream), s.Valid → s.readBitPos + n ≤ s.writeBitPos →
      Checked.readBitsLoop n value s = some (BitStream.readBitsLoop n value s) ∧
        (BitStream.readBitsLoop n value s).2.Valid := by
    intro n
    induction n with
    | zero => exact fun value s hs _ => ⟨rfl, hs⟩
    | succ n ih =>
      intro value s hs hroom
      obtain ⟨hread, hwrite, hsmall⟩ := hs
      have hinside : s.readBitPos / 8 < s.buffer.length := by omega
      have hpos : (s.readBitPos + 1) % 2 ^ 64 = s.readBitPos + 1 := Nat.mod_eq_of_lt (by omega)
      rw [Checked.readBitsLoop, BitStream.readBitsLoop, hpos, List.getD_eq_getElem?_getD,
        List.getElem?_eq_getElem hinside]
      exact ih _ { s with readBitPos := s.readBitPos + 1 }
        ⟨by show s.readBitPos + 1 ≤ s.writeBitPos; omega, hwrite, hsmall⟩
        (by show s.readBitPos + 1 + n ≤ s.writeBitPos; omega)
  have hrun : ∀ s : BitStream, s.Valid → Checked.readBits n s = some (BitStream.readBits n s) ∧
      (BitStream.readBits n s).2.Valid := by
    intro s hs
    have hmod : (s.readBitPos + n) % 2 ^ 64 = s.readBitPos + n := Nat.mod_eq_of_lt (by
      have := hs.read
      have := hs.write
      have := hs.small
      omega)
    unfold Checked.readBits BitStream.readBits
    rw [hmod]
    split_ifs with hzero hlong
    · exact ⟨rfl, hs⟩
    · exact ⟨rfl, hs⟩
    · obtain ⟨heq, hvalid⟩ := hloop n 0 s hs (by omega)
      rw [heq]
      exact ⟨rfl, hvalid⟩
  exact ⟨fun s hs => (hrun s hs).1, fun s hs => (hrun s hs).2⟩

theorem agrees_readBool : Agrees Valid Checked.readBool BitStream.readBool :=
  (agrees_readBits (by decide)).map _

theorem agrees_readUint8 : Agrees Valid Checked.readUint8 BitStream.readUint8 :=
  (agrees_readBits (by decide)).map _

theorem agrees_alignReadToByte : Agrees Valid Checked.alignReadToByte BitStream.alignReadToByte := by
  have hpad : ∀ s : BitStream, Agrees Valid
      ((fun _ => ()) <$> Checked.readBits (8 - s.readBitPos % 8) : Checked BitStream Unit)
      ((fun _ => ()) <$> BitStream.readBits (8 - s.readBitPos % 8) : Reader Unit) :=
    fun s => (agrees_readBits (by omega)).map _
  constructor
  · intro s hs
    unfold Checked.alignReadToByte BitStream.alignReadToByte
    split_ifs
    · exact (hpad s).defined s hs
    · rfl
  · intro s hs
    unfold BitStream.alignReadToByte
    split_ifs
    · exact (hpad s).keeps s hs
    · exact hs

theorem agrees_readVarintLoop (shift : ℕ) (value : UInt64) :
    Agrees Valid (Checked.readVarintLoop shift value) (BitStream.readVarintLoop shift value) := by
  unfold Checked.readVarintLoop BitStream.readVarintLoop
  refine agrees_readUint8.bind fun byte => .ite (.pure _) ?_
  by_cases hlong : shift + 7 ≥ 64
  · rw [if_pos hlong, if_pos hlong]
    exact .failure
  · rw [if_neg hlong, if_neg hlong]
    exact agrees_readVarintLoop (shift + 7) _
termination_by 64 - shift

theorem agrees_readVarint : Agrees Valid Checked.readVarint BitStream.readVarint :=
  agrees_alignReadToByte.bind fun _ => agrees_readVarintLoop 0 0

theorem fetch_eq {buffer : Bytes} {i n : ℕ} (h : i + n ≤ buffer.length) :
    Checked.fetch buffer i n = some ((buffer.drop i).take n) := by
  induction n generalizing i with
  | zero => simp [Checked.fetch]
  | succ n ih =>
    have hi : i < buffer.length := by omega
    rw [Checked.fetch, List.getElem?_eq_getElem hi, ih (by omega), List.drop_eq_getElem_cons hi]
    rfl

theorem agrees_copyBytes {len : ℕ} (hlen : len < 2 ^ 60) :
    Agrees Valid (Checked.copyBytes len) (BitStream.copyBytes len) := by
  have hrun : ∀ s : BitStream, s.Valid → Checked.copyBytes len s = some (BitStream.copyBytes len s) ∧
      (BitStream.copyBytes len s).2.Valid := by
    intro s hs
    obtain ⟨hread, hwrite, hsmall⟩ := hs
    have hmod : (s.readBitPos + len * 8 % 2 ^ 64) % 2 ^ 64 = s.readBitPos + len * 8 := by omega
    unfold Checked.copyBytes BitStream.copyBytes
    dsimp only
    rw [hmod]
    split_ifs with hlong
    · exact ⟨rfl, hread, hwrite, hsmall⟩
    · rw [fetch_eq (by omega)]
      exact ⟨rfl, not_lt.mp hlong, hwrite, hsmall⟩
  exact ⟨fun s hs => (hrun s hs).1, fun s hs => (hrun s hs).2⟩

theorem agrees_readBytes {len : ℕ} (hlen : len < 2 ^ 60) :
    Agrees Valid (Checked.readBytes len) (BitStream.readBytes len) :=
  agrees_alignReadToByte.bind fun _ => agrees_copyBytes hlen

theorem agrees_readString : Agrees Valid Checked.readString BitStream.readString := by
  refine agrees_readVarint.bind fun len => ?_
  by_cases hlong : len > 65535
  · rw [if_pos hlong, if_pos hlong]
    exact .failure
  · rw [if_neg hlong, if_neg hlong]
    have hlen : len.toNat ≤ 65535 := by
      rw [gt_iff_lt, UInt64.lt_iff_toNat_lt] at hlong
      exact not_lt.mp hlong
    exact .ite (agrees_readBytes (by omega)) (.pure _)

theorem agrees_readHalf : Agrees Valid Checked.readHalf BitStream.readHalf :=
  agrees_alignReadToByte.bind fun _ => (agrees_readBits (by decide)).bind fun _ => .pure _

theorem agrees_readArray {α : Type} {c : Checked BitStream α} {r : Reader α} (h : Agrees Valid c r) :
    Agrees Valid (Checked.readArray c) (BitStream.readArray r) :=
  agrees_readVarint.bind fun _ => .ite .failure ((h.readEach _).map _)

theorem agrees_readScalar (native : Endian) (type : Scalar) :
    Agrees Valid (Checked.readScalar native type) (deserializeScalar native type) := by
  cases type with
  | uint8 => exact agrees_readUint8
  | uint16 => exact (agrees_readBits (by decide)).map _
  | uint32 => exact (agrees_readBits (by decide)).map _
  | uint64 => exact (agrees_readBits (by decide)).map _
  | int8 => exact agrees_readUint8.map _
  | int16 => exact ((agrees_readBits (by decide)).map _).map _
  | int32 => exact ((agrees_readBits (by decide)).map _).map _
  | int64 => exact ((agrees_readBits (by decide)).map _).map _
  | float => exact agrees_alignReadToByte.bind fun _ => (agrees_readBits (by decide)).map _
  | double => exact agrees_alignReadToByte.bind fun _ => (agrees_readBits (by decide)).map _

/-! ### Calls -/

/-- What a reading call asks for. The elements of an array may be of any type whose `deserialize` is
made of such calls. -/
inductive ReadCall
  | bool
  | bits (n : ℕ)
  | scalar (type : Scalar)
  | half
  | varint
  | bytes (len : ℕ)
  | string
  | each (n : ℕ) (elem : ReadCall)
  | array (elem : ReadCall)
  | both (first second : ReadCall)

namespace ReadCall

abbrev Value : ReadCall → Type
  | bool => Bool
  | bits _ => UInt64
  | scalar type => type.Value
  | half => UInt32
  | varint => UInt64
  | bytes _ => Bytes
  | string => Bytes
  | each n elem => List.Vector elem.Value n
  | array elem => List elem.Value
  | both first second => first.Value × second.Value

/-- At most 64 bits and fewer than `2 ^ 60` bytes at a time. -/
def Allowed : ReadCall → Prop
  | bits n => n ≤ 64
  | bytes len => len < 2 ^ 60
  | each _ elem => elem.Allowed
  | array elem => elem.Allowed
  | both first second => first.Allowed ∧ second.Allowed
  | bool | scalar _ | half | varint | string => True

/-- The number of bits that a read of fixed width takes, and whether it begins at a byte. -/
def width : ReadCall → Option (ℕ × Bool)
  | bool => some (1, false)
  | bits n => some (n, false)
  | scalar .uint8 | scalar .int8 => some (8, false)
  | scalar .uint16 | scalar .int16 => some (16, false)
  | scalar .uint32 | scalar .int32 => some (32, false)
  | scalar .uint64 | scalar .int64 => some (64, false)
  | scalar .float => some (32, true)
  | scalar .double => some (64, true)
  | half => some (16, true)
  | bytes len => some (len * 8, true)
  | varint | string | each _ _ | array _ | both _ _ => none

section
variable (native : Endian)

def read : (call : ReadCall) → Reader call.Value
  | bool => readBool
  | bits n => readBits n
  | scalar type => deserializeScalar native type
  | half => readHalf
  | varint => readVarint
  | bytes len => readBytes len
  | string => readString
  | each n elem => Medium.readEach elem.read n
  | array elem => readArray elem.read
  | both first second => do
    let x ← first.read
    let y ← second.read
    pure (x, y)

def check : (call : ReadCall) → Checked BitStream call.Value
  | bool => Checked.readBool
  | bits n => Checked.readBits n
  | scalar type => Checked.readScalar native type
  | half => Checked.readHalf
  | varint => Checked.readVarint
  | bytes len => Checked.readBytes len
  | string => Checked.readString
  | each n elem => elem.check.readEach n
  | array elem => Checked.readArray elem.check
  | both first second => do
    let x ← first.check
    let y ← second.check
    pure (x, y)

/-- The stream after some calls, whether they succeed or fail. -/
def run (calls : List ReadCall) (s : BitStream) : Option BitStream :=
  calls.foldlM (fun s call => (call.check native s).map Prod.snd) s

theorem agrees_check {call : ReadCall} (h : call.Allowed) :
    Agrees Valid (call.check native) (call.read native) := by
  induction call with
  | bool => exact agrees_readBool
  | bits n => exact agrees_readBits h
  | scalar type => exact agrees_readScalar native type
  | half => exact agrees_readHalf
  | varint => exact agrees_readVarint
  | bytes len => exact agrees_readBytes h
  | string => exact agrees_readString
  | each n elem ih => exact (ih h).readEach n
  | array elem ih => exact agrees_readArray (ih h)
  | both first second ih ih' => exact (ih h.1).bind fun x => (ih' h.2).bind fun y => .pure (x, y)

/-- Calls that are allowed have a result in every run. -/
theorem run_valid {calls : List ReadCall} (h : ∀ call ∈ calls, call.Allowed) {s : BitStream}
    (hs : s.Valid) : ∃ s', run native calls s = some s' ∧ s'.Valid := by
  induction calls generalizing s with
  | nil => exact ⟨s, rfl, hs⟩
  | cons call calls ih =>
    have hcall := agrees_check native (h call List.mem_cons_self)
    obtain ⟨s', hrun, hs'⟩ := ih (fun c hc => h c (List.mem_cons_of_mem _ hc)) (hcall.keeps s hs)
    refine ⟨s', ?_, hs'⟩
    unfold run at hrun ⊢
    rw [List.foldlM_cons, hcall.defined s hs]
    exact hrun

end

/-! ### When a read succeeds -/

theorem readBitsLoop_stream (n : ℕ) (value : UInt64) (s : BitStream) :
    (readBitsLoop n value s).2 = { s with readBitPos := s.readBitPos + n } := by
  induction n generalizing value s with
  | zero => rfl
  | succ n ih =>
    rw [readBitsLoop, ih]
    dsimp only
    rw [Nat.add_right_comm]
    rfl

/-- A read that succeeds, on the streams with cursors in order, if so many bits remain. -/
def Takes {α : Type} (r : Reader α) (n : ℕ) : Prop :=
  ∀ s : BitStream, s.Valid → ((r s).1.isSome ↔ s.readBitPos + n ≤ s.writeBitPos)

theorem takes_readBits (n : ℕ) : Takes (readBits n) n := by
  intro s hs
  have := hs.read
  unfold readBits
  split_ifs with hzero hlong
  · simp only [Option.isSome_some, true_iff]
    omega
  · simp only [Option.isSome_none, Bool.false_eq_true, false_iff]
    omega
  · simp only [Option.isSome_some, true_iff]
    omega

theorem Takes.map {α β : Type} {r : Reader α} {n : ℕ} (h : Takes r n) (f : α → β) :
    Takes (f <$> r) n := by
  intro s hs
  rw [← h s hs]
  change ((f <$> r).run.run s).1.isSome = true ↔ (r.run.run s).1.isSome = true
  rw [OptionT.run_map, StateT.run_map]
  exact iff_of_eq (congrArg (· = true) Option.isSome_map)

/-- Going on to the next byte. -/
theorem alignReadToByte_eq {s : BitStream} (hread : s.readBitPos ≤ s.writeBitPos) : alignReadToByte s =
    if s.alignedPos ≤ s.writeBitPos then (some (), { s with readBitPos := s.alignedPos })
    else (none, s) := by
  unfold alignReadToByte alignedPos
  by_cases haligned : s.readBitPos % 8 = 0
  · have hpos : (s.readBitPos + 7) / 8 * 8 = s.readBitPos := by omega
    rw [if_neg (not_not.mpr haligned), hpos, if_pos hread]
  · have hpos : (s.readBitPos + 7) / 8 * 8 = s.readBitPos + (8 - s.readBitPos % 8) := by omega
    rw [if_pos haligned, hpos]
    change ((fun _ => ()) <$> readBits (8 - s.readBitPos % 8) : Reader Unit).run.run s = _
    rw [OptionT.run_map, StateT.run_map]
    change (fun out : Option UInt64 × BitStream => (out.1.map fun _ => (), out.2))
      (readBits (8 - s.readBitPos % 8) s) = _
    unfold readBits
    rw [if_neg (by omega)]
    split_ifs with hlong hroom
    · omega
    · rfl
    · dsimp only
      rw [readBitsLoop_stream]
      rfl
    · omega

/-- A read behind the alignment succeeds if so many bits remain from the next byte on. -/
theorem Takes.aligned {α : Type} {r : Reader α} {n : ℕ} (h : Takes r n) {s : BitStream}
    (hs : s.Valid) : ((alignReadToByte >>= fun _ => r) s).1.isSome ↔
      s.alignedPos + n ≤ s.writeBitPos := by
  have halign := alignReadToByte_eq hs.read
  split_ifs at halign with hroom
  · rw [Medium.run_bind_some halign]
    exact h _ ⟨hroom, hs.write, hs.small⟩
  · rw [Medium.run_bind_none halign]
    simp only [Option.isSome_none, Bool.false_eq_true, false_iff]
    omega

theorem takes_copyBytes (len : ℕ) : Takes (copyBytes len) (len * 8) := by
  intro s hs
  unfold copyBytes
  split_ifs with hlong
  · simp only [Option.isSome_none, Bool.false_eq_true, false_iff]
    omega
  · simp only [Option.isSome_some, true_iff]
    omega

theorem takes_readHalf_rest : Takes (do
    let hv ← readBits 16
    pure (floatOfHalf hv.toUInt16) : Reader UInt32) 16 := by
  have hmap : (do
      let hv ← readBits 16
      pure (floatOfHalf hv.toUInt16) : Reader UInt32) =
        (fun hv => floatOfHalf hv.toUInt16) <$> readBits 16 := (map_eq_pure_bind _ _).symm
  rw [hmap]
  exact (takes_readBits 16).map _

/-- Where a read of fixed width begins. -/
def start (aligned : Bool) (s : BitStream) : ℕ := if aligned then s.alignedPos else s.readBitPos

theorem isSome_read_iff (native : Endian) {call : ReadCall} {n : ℕ} {aligned : Bool}
    (h : call.width = some (n, aligned)) {s : BitStream} (hs : s.Valid) :
    (call.read native s).1.isSome ↔ start aligned s + n ≤ s.writeBitPos := by
  have hplain : ∀ {m : ℕ} {b : Bool}, some (m, b) = some (n, aligned) → m = n ∧ b = aligned :=
    fun heq => Prod.mk.inj (Option.some.inj heq)
  cases call with
  | bool =>
    obtain ⟨rfl, rfl⟩ := hplain h
    exact ((takes_readBits 1).map _) s hs
  | bits m =>
    obtain ⟨rfl, rfl⟩ := hplain h
    exact takes_readBits m s hs
  | scalar type =>
    cases type with
    | uint8 =>
      obtain ⟨rfl, rfl⟩ := hplain h
      exact ((takes_readBits 8).map _) s hs
    | uint16 =>
      obtain ⟨rfl, rfl⟩ := hplain h
      exact ((takes_readBits 16).map _) s hs
    | uint32 =>
      obtain ⟨rfl, rfl⟩ := hplain h
      exact ((takes_readBits 32).map _) s hs
    | uint64 =>
      obtain ⟨rfl, rfl⟩ := hplain h
      exact ((takes_readBits 64).map _) s hs
    | int8 =>
      obtain ⟨rfl, rfl⟩ := hplain h
      exact (((takes_readBits 8).map _).map _) s hs
    | int16 =>
      obtain ⟨rfl, rfl⟩ := hplain h
      exact (((takes_readBits 16).map _).map _) s hs
    | int32 =>
      obtain ⟨rfl, rfl⟩ := hplain h
      exact (((takes_readBits 32).map _).map _) s hs
    | int64 =>
      obtain ⟨rfl, rfl⟩ := hplain h
      exact (((takes_readBits 64).map _).map _) s hs
    | float =>
      obtain ⟨rfl, rfl⟩ := hplain h
      exact ((takes_readBits 32).map _).aligned hs
    | double =>
      obtain ⟨rfl, rfl⟩ := hplain h
      exact ((takes_readBits 64).map _).aligned hs
  | half =>
    obtain ⟨rfl, rfl⟩ := hplain h
    exact takes_readHalf_rest.aligned hs
  | bytes len =>
    obtain ⟨rfl, rfl⟩ := hplain h
    exact (takes_copyBytes len).aligned hs
  | _ => cases h

/-- Whatever the bytes are and whichever calls are made on them: no byte outside of the buffer is
looked at, the cursors stay in order, a read of fixed width succeeds exactly if its bits remain, and a
`read_bits` that fails leaves the stream as it was. -/
theorem reads_safe (native : Endian) (data : Bytes) (hdata : data.length < 2 ^ 60)
    (calls : List ReadCall) (hcalls : ∀ call ∈ calls, call.Allowed) :
    ∃ s, run native calls (ofSpan data) = some s ∧
      s.readBitPos ≤ s.writeBitPos ∧ s.writeBitPos ≤ 8 * s.buffer.length ∧
      (∀ call : ReadCall, call.Allowed → call.check native s = some (call.read native s)) ∧
      (∀ (call : ReadCall) (n : ℕ) (aligned : Bool), call.Allowed → call.width = some (n, aligned) →
        ((call.read native s).1.isSome ↔ start aligned s + n ≤ s.writeBitPos)) ∧
      ∀ n ≤ 64, (readBits n s).1 = none → (readBits n s).2 = s := by
  have hstart : (ofSpan data).Valid :=
    ⟨Nat.zero_le _, le_of_eq (Nat.mul_comm data.length 8), hdata⟩
  obtain ⟨s, hrun, hs⟩ := run_valid native hcalls hstart
  refine ⟨s, hrun, hs.read, hs.write, fun call h => (agrees_check native h).defined s hs,
    fun call n aligned _ hwidth => isSome_read_iff native hwidth hs, fun n _ hfail => ?_⟩
  unfold readBits at hfail ⊢
  split_ifs with hzero hlong
  · rfl
  · rfl
  · rw [if_neg hzero, if_neg hlong] at hfail
    cases hfail

/-- A string, of which a byte is missing, and an array of halfs. -/
theorem reads_safe_short : ∃ s, run .little [.string, .array .half] (ofSpan [2, 65]) = some s ∧
    s.readBitPos ≤ s.writeBitPos ∧ s.writeBitPos ≤ 8 * s.buffer.length :=
  have ⟨s, hrun, hread, hwrite, _⟩ := reads_safe .little [2, 65] (by decide)
    [.string, .array .half] (by simp [Allowed])
  ⟨s, hrun, hread, hwrite⟩

end ReadCall

end CampelloNet.Serialization
