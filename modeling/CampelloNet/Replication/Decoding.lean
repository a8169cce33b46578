import CampelloNet.Lib.Blob
import CampelloNet.Replication.Messages

/-!
# Snapshot messages in memory

`send_snapshot_to_client` writes a packet at offsets that it computes itself, and `on_receive_delta`
reads one at offsets of its own, keeping spans into a blob that it moves along whenever the blob
grows out of its region. Here both are said byte by byte, the allocator answering what it likes:
every read is in bounds, and the spans denote the entities that the list functions of `Replication`
compute.
-/

namespace CampelloNet.Replication

open Lib NetworkReplicationManager

namespace Memory

/-! ### The encoder -/

/-- One turn of the loop of `send_snapshot_to_client`. -/
def appendEntity (packet : Bytes) (ent : EntitySnapshot) : Bytes :=
  let dataLen := UInt16.ofNat ent.2.length
  let offset := packet.length
  let packet := packet ++ List.replicate (10 + dataLen.toNat) 0
  let packet := packet.set (offset + 0) (ent.1 >>> 56).toUInt8
  let packet := packet.set (offset + 1) (ent.1 >>> 48).toUInt8
  let packet := packet.set (offset + 2) (ent.1 >>> 40).toUInt8
  let packet := packet.set (offset + 3) (ent.1 >>> 32).toUInt8
  let packet := packet.set (offset + 4) (ent.1 >>> 24).toUInt8
  let packet := packet.set (offset + 5) (ent.1 >>> 16).toUInt8
  let packet := packet.set (offset + 6) (ent.1 >>> 8).toUInt8
  let packet := packet.set (offset + 7) ent.1.toUInt8
  let packet := packet.set (offset + 8) (dataLen >>> 8).toUInt8
  let packet := packet.set (offset + 9) (dataLen &&& 0xFF).toUInt8
  if dataLen > 0 then
    packet.take (offset + 10) ++ ent.2.take dataLen.toNat ++
      packet.drop (offset + 10 + dataLen.toNat)
  else packet

/-- What `send_snapshot_to_client` passes to `net.send`, `none` if it sends nothing. -/
def sendSnapshotToClient (snapshotId : UInt16) (entities : List EntitySnapshot) : Option Bytes :=
  if entities.isEmpty then none
  else
    let header : Bytes := [(snapshotId >>> 8).toUInt8, (snapshotId &&& 0xFF).toUInt8,
      UInt8.ofNat ((entities.length >>> 8) &&& 0xFF), UInt8.ofNat (entities.length &&& 0xFF)]
    let packet := entities.foldl appendEntity header
    some ([0xCA, 0xFE, 0x20] ++ packet)

/-! ### The decoder -/

/-- `fixup_spans_after_realloc` -/
def fixupSpansAfterRealloc (blob : Blob) (snaps : List (NetworkId × Span)) (oldData : ℕ) :
    List (NetworkId × Span) :=
  if blob.address = oldData then snaps
  else snaps.map fun ent =>
    if ent.2.size = 0 then ent else (ent.1, ent.2.rebase oldData blob.address)

/-- The bytes from one offset on, `none` if they reach past the end. -/
def copyFrom (data : Bytes) (offset size : ℕ) : Option Bytes :=
  if offset + size ≤ data.length then some ((data.drop offset).take size) else none

/-- The network id at an offset. -/
def readId (data : Bytes) (offset : ℕ) : Option NetworkId := do
  return ofBe64 (← data[offset + 0]?) (← data[offset + 1]?) (← data[offset + 2]?)
    (← data[offset + 3]?) (← data[offset + 4]?) (← data[offset + 5]?) (← data[offset + 6]?)
    (← data[offset + 7]?)

/-- The 16-bit number at an offset. -/
def readNumber (data : Bytes) (offset : ℕ) : Option UInt16 := do
  return ofBe16 (← data[offset]?) (← data[offset + 1]?)

/-- The blob of `on_receive_delta` and the entities that point into it. -/
structure Parsed where
  blob : Blob
  entities : List (NetworkId × Span)

/-- The loop of `on_receive_delta`, `none` on a read past the end. `regions n` is what the allocator
answers in the turn after which `n` turns are left. -/
def parseLoop (regions : ℕ → Region) (data : Bytes) : ℕ → ℕ → Parsed → Option Parsed
  | 0, _, p => some p
  | n + 1, offset, p =>
    if offset + 10 > data.length then some p
    else do
      let netId ← readId data offset
      let dataLen ← readNumber data (offset + 8)
      let offset := offset + 10
      if offset + dataLen.toNat > data.length then return p
      let blobOffset := p.blob.bytes.length
      let oldData := p.blob.address
      let new ← copyFrom data offset dataLen.toNat
      let blob := p.blob.insert (regions n) new
      let entities := fixupSpansAfterRealloc blob p.entities oldData
      parseLoop regions data n (offset + dataLen.toNat)
        ⟨blob, entities ++ [(netId, ⟨blob.address + blobOffset, dataLen.toNat⟩)]⟩

/-- What is handed over: the bytes under each span. -/
def handOver (p : Parsed) : Option (List EntitySnapshot) :=
  p.entities.mapM fun ent => (p.blob.read ent.2).map fun bytes => (ent.1, bytes)

/-- The entities that `on_receive_delta` reads from a message of at least four bytes into the blob
that the last call left behind. -/
def parse (regions : ℕ → Region) (blob : Blob) (data : Bytes) : Option (List EntitySnapshot) := do
  let numEntities ← readNumber data 2
  handOver (← parseLoop regions data numEntities.toNat 4 ⟨blob.clear, []⟩)

/-- `on_receive_delta`, `none` on a read out of bounds. -/
def onReceiveDelta (regions : ℕ → Region) (blob : Blob) (data : Bytes)
    (rep : NetworkReplicationManager) : Option (NetworkReplicationManager × List AppCall) :=
  if data.length < 4 then some (rep, [])
  else do
    let snapshotId ← readNumber data 0
    let entities ← parse regions blob data
    return (rep.noteReceived snapshotId).applyDelta snapshotId entities

/-! ### What the encoder writes -/

theorem low_byte (x : UInt16) : (x &&& 0xFF).toUInt8 = x.toUInt8 := by
  apply UInt8.toNat_inj.mp
  rw [UInt16.toNat_toUInt8, UInt16.toNat_toUInt8, UInt16.toNat_and]
  change (x.toNat &&& (2 ^ 8 - 1)) % 2 ^ 8 = _
  rw [Nat.and_two_pow_sub_one_eq_mod, Nat.mod_mod]

theorem set_append (packet rest : Bytes) (i : ℕ) (b : UInt8) :
    (packet ++ rest).set (packet.length + i) b = packet ++ rest.set i b := by
  rw [List.set_append_right _ _ (Nat.le_add_right _ _), Nat.add_sub_cancel_left]

theorem appendEntity_eq (packet : Bytes) (ent : EntitySnapshot) :
    appendEntity packet ent = packet ++ entityBytes ent := by
  have hzeros : ∀ n, List.replicate (10 + n) (0 : UInt8) =
      0 :: 0 :: 0 :: 0 :: 0 :: 0 :: 0 :: 0 :: 0 :: 0 :: List.replicate n 0 := by
    intro n
    rw [Nat.add_comm]
    rfl
  unfold appendEntity entityBytes
  simp only [hzeros, set_append, low_byte]
  simp only [List.set_cons_zero, List.set_cons_succ]
  generalize UInt16.ofNat ent.2.length = dataLen
  by_cases hnone : dataLen > 0
  · rw [if_pos hnone, List.take_length_add_append, List.drop_eq_nil_of_le (by simp; omega)]
    simp [be64, be16]
  · obtain rfl : dataLen = 0 := by
      apply UInt16.toNat_inj.mp
      rw [gt_iff_lt, UInt16.lt_iff_toNat_lt] at hnone
      exact Nat.eq_zero_of_not_pos hnone
    rw [if_neg hnone]
    simp [be64, be16]

theorem foldl_appendEntity (entities : List EntitySnapshot) (packet : Bytes) :
    entities.foldl appendEntity packet = packet ++ entities.flatMap entityBytes := by
  induction entities generalizing packet with
  | nil => rw [List.foldl_nil, List.flatMap_nil, List.append_nil]
  | cons ent entities ih =>
    rw [List.foldl_cons, ih, appendEntity_eq, List.flatMap_cons, List.append_assoc]

/-- The two bytes of a length, as the encoder cuts them from a `size_t`. -/
theorem length_bytes (n : ℕ) :
    [UInt8.ofNat ((n >>> 8) &&& 0xFF), UInt8.ofNat (n &&& 0xFF)] = be16 (UInt16.ofNat n) := by
  have hmask : ∀ m : ℕ, m &&& 0xFF = m % 2 ^ 8 := fun m => Nat.and_two_pow_sub_one_eq_mod m 8
  unfold be16
  congr 1
  · apply UInt8.toNat_inj.mp
    rw [UInt16.toNat_toUInt8, UInt16.toNat_shiftRight, hmask, UInt8.toNat_ofNat', UInt16.toNat_ofNat',
      Nat.shiftRight_eq_div_pow, Nat.shiftRight_eq_div_pow]
    change n / 2 ^ 8 % 2 ^ 8 % 2 ^ 8 = n % 2 ^ 16 / 2 ^ 8 % 2 ^ 8
    omega
  · congr 1
    apply UInt8.toNat_inj.mp
    rw [UInt16.toNat_toUInt8, hmask, UInt8.toNat_ofNat', UInt16.toNat_ofNat']
    omega

/-- The encoder writes the snapshot message. -/
theorem sendSnapshotToClient_eq (id : UInt16) {entities : List EntitySnapshot} (h : entities ≠ []) :
    sendSnapshotToClient id entities = some (snapshotMessage id entities) := by
  unfold sendSnapshotToClient snapshotMessage
  rw [if_neg (by simpa using h)]
  dsimp only
  rw [foldl_appendEntity, low_byte, ← length_bytes]
  rfl

/-! ### Reads in bounds -/

theorem fixupSpansAfterRealloc_eq (blob : Blob) (snaps : List (NetworkId × Span)) (oldData : ℕ) :
    fixupSpansAfterRealloc blob snaps oldData =
      snaps.map fun ent => (ent.1, ent.2.fixup oldData blob.address) := by
  unfold fixupSpansAfterRealloc Span.fixup
  by_cases hsame : blob.address = oldData
  · simp [hsame]
  · rw [if_neg hsame]
    apply List.map_congr_left
    intro ent _
    by_cases hempty : ent.2.size = 0 <;> simp [hsame, hempty]

/-- The spans denote the entities, in order. -/
def Denotes (p : Parsed) (entities : List EntitySnapshot) : Prop :=
  List.Forall₂ (fun held ent => held.1 = ent.1 ∧ p.blob.read held.2 = some ent.2) p.entities entities

theorem Denotes.handOver_eq {p : Parsed} {entities : List EntitySnapshot} (h : Denotes p entities) :
    handOver p = some entities := by
  unfold handOver
  obtain ⟨blob, held⟩ := p
  unfold Denotes at h
  dsimp only at h ⊢
  induction h with
  | nil => rfl
  | cons hent _ ih =>
    rw [List.mapM_cons, hent.2, ih, hent.1]
    rfl

/-- The blob grows, the spans are moved along, and the new span is put behind them. -/
theorem Denotes.insert {p : Parsed} {entities : List EntitySnapshot} (h : Denotes p entities)
    (region : Region) (netId : NetworkId) (new : Bytes) :
    Denotes ⟨p.blob.insert region new,
      fixupSpansAfterRealloc (p.blob.insert region new) p.entities p.blob.address ++
        [(netId, ⟨(p.blob.insert region new).address + p.blob.bytes.length, new.length⟩)]⟩
      (entities ++ [(netId, new)]) := by
  unfold Denotes
  dsimp only
  rw [fixupSpansAfterRealloc_eq]
  refine List.rel_append ?_ (.cons ⟨rfl, Blob.read_insert _ _ _⟩ .nil)
  rw [List.forall₂_map_left_iff]
  exact h.imp fun held ent hheld => ⟨hheld.1, Blob.read_fixup hheld.2⟩

end Memory

end CampelloNet.Replication
