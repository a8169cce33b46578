import CampelloNet.Transport.Udp.ReliableUnordered

/-!
# Acknowledgements and the wrap of the sequence numbers

What an acknowledgement names does not depend on where the numbering starts (`named_shift`).
`process_acks` takes `ack - seq` as an `int`, and so erases of the named entries only those that do
not lie across the wrap (`isAcked_iff_named`).
-/

namespace CampelloNet.Transport.Udp

open Lib

/-- The packets that an acknowledgement names, modulo `2 ^ 16`: `ack`, and those of the 32 before it
whose bits are set. -/
def Named (ack : UInt16) (ackBits : UInt32) (seq : UInt16) : Prop :=
  seq = ack ∨ ∃ d < 32, seq + .ofNat (d + 1) = ack ∧ ackBits &&& (1 <<< UInt32.ofNat d) ≠ 0

instance (ack : UInt16) (ackBits : UInt32) (seq : UInt16) : Decidable (Named ack ackBits seq) :=
  inferInstanceAs (Decidable (_ ∨ ∃ d < 32, _))

theorem named_shift (ack : UInt16) (ackBits : UInt32) (seq k : UInt16) :
    Named (ack + k) ackBits (seq + k) ↔ Named ack ackBits seq := by
  unfold Named
  have hadd : ∀ d : UInt16, seq + k + d = ack + k ↔ seq + d = ack := by
    intro d
    rw [UInt16.add_assoc, UInt16.add_comm k, ← UInt16.add_assoc]
    exact UInt16.add_left_inj k
  simp only [hadd, UInt16.add_left_inj]

/-- Of the named packets `process_acks` takes those that are not numbered above `ack`. -/
theorem isAcked_iff_named {seq ack : UInt16} {ackBits : UInt32} :
    isAcked seq ack ackBits = true ↔ Named ack ackBits seq ∧ seq ≤ ack := by
  by_cases heq : seq = ack
  · rw [isAcked, if_pos heq]
    exact iff_of_true rfl ⟨.inl heq, UInt16.le_of_eq heq⟩
  · rw [isAcked_iff heq]
    have hlt := ack.toNat_lt
    have hval : ∀ d < 32, (seq + .ofNat (d + 1)).toNat = (seq.toNat + (d + 1)) % 2 ^ 16 := by
      intro d hd
      rw [UInt16.toNat_add, UInt16.toNat_ofNat_of_lt' (show d + 1 < UInt16.size by
        unfold UInt16.size
        omega)]
    constructor
    · rintro ⟨d, hd, hsum, hbit⟩
      refine ⟨.inr ⟨d, hd, ?_, hbit⟩, ?_⟩
      · rw [← UInt16.toNat_inj, hval d hd]
        omega
      · rw [UInt16.le_iff_toNat_le]
        omega
    · rintro ⟨hnamed, hle⟩
      obtain ⟨d, hd, hsum, hbit⟩ := hnamed.resolve_left heq
      rw [← UInt16.toNat_inj, hval d hd] at hsum
      rw [UInt16.le_iff_toNat_le] at hle
      exact ⟨d, hd, by omega, hbit⟩

/-! ### Shifting the numbers -/

def shiftSequence (k : UInt16) (p : Pending) : Pending := { p with sequence := p.sequence + k }

theorem shiftSequence_injective (k : UInt16) : Function.Injective (shiftSequence k) := by
  intro p q h
  obtain ⟨seq, t, n, data, f, prio⟩ := p
  obtain ⟨seq', t', n', data', f', prio'⟩ := q
  simp only [shiftSequence, Pending.mk.injEq, UInt16.add_left_inj] at h ⊢
  exact h

/-- The connection with every pending packet of a channel numbered `k` higher. -/
def shiftPending (k : UInt16) (conn : Connection) (ch : Fin 4) : Connection :=
  conn.setChannel ch
    { conn.channels ch with pending := (conn.channels ch).pending.map (shiftSequence k) }

/-- What `process_acks` leaves pending. -/
def leftPending (now : Time) (conn : Connection) (ch : Fin 4) (ack : UInt16) (ackBits : UInt32) :
    List Pending :=
  ((processAcks now conn ch ack ackBits).channels ch).pending

/-- The numbering does not matter to `process_acks`: with all numbers shifted it keeps the same
entries of the pending list, and whatever the acknowledgement names is erased in both numberings, as
long as fewer than `2 ^ 15` packets are in flight. -/
structure WrapInvariant (now : Time) (conn : Connection) (ch : Fin 4) (ack : UInt16)
    (ackBits : UInt32) (k : UInt16) : Prop where
  positions : leftPending now (shiftPending k conn ch) ch (ack + k) ackBits =
    (leftPending now conn ch ack ackBits).map (shiftSequence k)
  acked : (conn.channels ch).pending.length < 2 ^ 15 → ∀ p ∈ (conn.channels ch).pending,
    Named ack ackBits p.sequence → p ∉ leftPending now conn ch ack ackBits ∧
      shiftSequence k p ∉ leftPending now (shiftPending k conn ch) ch (ack + k) ackBits

theorem filter_eq_filter_iff {α : Type*} {l : List α} {p q : α → Bool} :
    l.filter p = l.filter q ↔ ∀ x ∈ l, p x = q x := by
  refine ⟨fun h x hx => ?_, List.filter_congr⟩
  have hmem : x ∈ l.filter p ↔ x ∈ l.filter q := by rw [h]
  rw [List.mem_filter, List.mem_filter] at hmem
  rw [Bool.eq_iff_iff]
  tauto

section
variable (now : Time) (conn : Connection) {ch : Fin 4} (ack : UInt16) (ackBits : UInt32) (k : UInt16)
  (hreliable : (PacketReliability.ofIndex ch).isReliable = true)

include hreliable

theorem leftPending_eq : leftPending now conn ch ack ackBits =
    (conn.channels ch).pending.filter fun p => !isAcked p.sequence ack ackBits := by
  unfold leftPending
  rw [processAcks_channels_self now conn ack ackBits hreliable]

theorem leftPending_shift : leftPending now (shiftPending k conn ch) ch (ack + k) ackBits =
    ((conn.channels ch).pending.filter fun p =>
      !isAcked (p.sequence + k) (ack + k) ackBits).map (shiftSequence k) := by
  rw [leftPending_eq _ _ _ _ hreliable, shiftPending, Connection.channels_setChannel_self,
    List.filter_map]
  rfl

/-- The numbering does not matter exactly where each named packet lies on the same side of `ack` in
both numberings, and below it if so few packets are in flight. -/
theorem wrapInvariant_iff : WrapInvariant now conn ch ack ackBits k ↔
    ∀ p ∈ (conn.channels ch).pending, Named ack ackBits p.sequence →
      (p.sequence ≤ ack ↔ p.sequence + k ≤ ack + k) ∧
        ((conn.channels ch).pending.length < 2 ^ 15 → p.sequence ≤ ack) := by
  have hpositions : leftPending now (shiftPending k conn ch) ch (ack + k) ackBits =
      (leftPending now conn ch ack ackBits).map (shiftSequence k) ↔
      ∀ p ∈ (conn.channels ch).pending, Named ack ackBits p.sequence →
        (p.sequence ≤ ack ↔ p.sequence + k ≤ ack + k) := by
    rw [leftPending_shift now conn ack ackBits k hreliable, leftPending_eq now conn ack ackBits hreliable,
      (List.map_injective_iff.mpr (shiftSequence_injective k)).eq_iff, filter_eq_filter_iff]
    refine forall₂_congr fun p _ => ?_
    rw [Bool.not_inj_iff, Bool.eq_iff_iff, isAcked_iff_named, isAcked_iff_named, named_shift]
    tauto
  have hmem : ∀ p ∈ (conn.channels ch).pending, Named ack ackBits p.sequence →
      ((p ∉ leftPending now conn ch ack ackBits ↔ p.sequence ≤ ack) ∧
        (shiftSequence k p ∉ leftPending now (shiftPending k conn ch) ch (ack + k) ackBits ↔
          p.sequence + k ≤ ack + k)) := by
    intro p hp hnamed
    rw [leftPending_shift now conn ack ackBits k hreliable, leftPending_eq now conn ack ackBits hreliable,
      List.mem_map_of_injective (shiftSequence_injective k), List.mem_filter, List.mem_filter]
    simp [hp, isAcked_iff_named, hnamed, named_shift]
  constructor
  · intro h p hp hnamed
    refine ⟨hpositions.mp h.positions p hp hnamed, fun hfew => ?_⟩
    exact ((hmem p hp hnamed).1).mp (h.acked hfew p hp hnamed).1
  · intro h
    refine ⟨hpositions.mpr fun p hp hnamed => (h p hp hnamed).1, fun hfew p hp hnamed => ?_⟩
    obtain ⟨hsame, hle⟩ := h p hp hnamed
    obtain ⟨hhere, hthere⟩ := hmem p hp hnamed
    exact ⟨hhere.mpr (hle hfew), hthere.mpr (hsame.mp (hle hfew))⟩

end

/-- A connection on which several packets are pending on channel 1. -/
def severalPending (seqs : List UInt16) : Connection where
  address := .invalid
  channels := Function.update (fun _ => {}) PacketReliability.reliableOrdered.index
    { pending := seqs.map fun seq => ⟨seq, 0, 0, [], false, 0⟩ }

/-- Packets 6, 5 and 3 are acknowledged, and 4 and 9 stay pending. -/
theorem wrapInvariant_several : WrapInvariant 0 (severalPending [3, 4, 5, 6, 9]) 1 6 5 1000 ∧
    (leftPending 0 (severalPending [3, 4, 5, 6, 9]) 1 6 5).map Pending.sequence = [4, 9] :=
  ⟨(wrapInvariant_iff 0 (severalPending [3, 4, 5, 6, 9]) 6 5 1000 (by decide)).mpr (by decide +kernel),
    by decide +kernel⟩

/-- Packet 65535 is acknowledged by bit 0 of the word under 0, and stays pending; were the numbers one
higher, it would be erased. -/
theorem not_wrapInvariant_last : ¬WrapInvariant 0 (severalPending [65535]) 1 0 1 1 :=
  fun h => absurd h.positions (by decide +kernel)

end CampelloNet.Transport.Udp
