import CampelloNet.Replication.Decoding

/-!
# Truncated snapshots

`on_receive_delta` notes the id of a snapshot before it reads the entities, and stops reading at the
first that the message does not hold whole. The id it then acks is that of a snapshot it applied in
part, unless the message holds all the entities that its header announces and somebody is given them.
-/

namespace CampelloNet.Replication

open Lib NetworkReplicationManager

def announced (data : Bytes) : ℕ := (readBe16 (data.drop 2)).toNat

def holdsEntries : ℕ → Bytes → Bool
  | 0, _ => true
  | n + 1, data =>
    let dataLen := (readBe16 (data.drop 8)).toNat
    decide (10 + dataLen ≤ data.length) && holdsEntries n (data.drop (10 + dataLen))

/-- The loop reads as many entities as the header says exactly if the message holds them. -/
theorem length_parseEntities_eq_iff (n : ℕ) (data : Bytes) :
    (parseEntities n data).length = n ↔ holdsEntries n data = true := by
  induction n generalizing data with
  | zero => exact iff_of_true rfl rfl
  | succ n ih =>
    rw [parseEntities, holdsEntries, Bool.and_eq_true, decide_eq_true_eq]
    by_cases hhead : data.length < 10
    · rw [if_pos hhead]
      refine iff_of_false (Nat.succ_ne_zero n).symm ?_
      rintro ⟨hle, -⟩
      omega
    · rw [if_neg hhead]
      dsimp only
      rw [List.length_drop]
      by_cases hbody : data.length - 10 < (readBe16 (data.drop 8)).toNat
      · rw [if_pos hbody]
        refine iff_of_false (Nat.succ_ne_zero n).symm ?_
        rintro ⟨hle, -⟩
        omega
      · rw [if_neg hbody, List.length_cons, Nat.add_right_cancel_iff, List.drop_drop, ih]
        exact (and_iff_right (by omega)).symm

/-- Who is given the entities of a snapshot: the callback, the interpolation buffer or the bridge. -/
def Receives (rep : NetworkReplicationManager) : Prop :=
  (rep.predictionMode && rep.hasSnapshotCb) = true ∨ rep.interpolationEnabled = true ∨ rep.hasBridge = true

/-- The entities were handed to one of the three. -/
def HandedOver (rep : NetworkReplicationManager) (data : Bytes) (entities : List EntitySnapshot) : Prop :=
  (rep.onReceiveDelta data).2 = (entities.map fun ent => .snapshotReceived ent.1 ent.2) ∨
    (rep.onReceiveDelta data).2 = (entities.map fun ent => .deserializeEntity ent.1 ent.2) ∨
    (rep.onReceiveDelta data).1.clientSnapshotBuffer =
      rep.clientSnapshotBuffer.store (readBe16 data) rep.clientTime entities

/-- A snapshot whose id is noted, to be acked, was decoded whole and handed over. -/
def NotesWhole (rep : NetworkReplicationManager) (data : Bytes) : Prop :=
  (rep.onReceiveDelta data).1.lastReceivedSnapshot ≠ rep.lastReceivedSnapshot →
    (deltaEntities data).length = announced data ∧ HandedOver rep data (deltaEntities data)

theorem store_ne (b : ClientSnapshotBuffer) (id : UInt16) (time : ℚ) (entities : List EntitySnapshot) :
    b ≠ b.store id time entities := by
  intro h
  have hhead : b.head = (b.head + 1) % 128 := congrArg ClientSnapshotBuffer.head h
  omega

theorem handedOver_iff {rep : NetworkReplicationManager} {data : Bytes} (hlen : 4 ≤ data.length) :
    HandedOver rep data (deltaEntities data) ↔ Receives rep ∨ deltaEntities data = [] := by
  have hone : rep.onReceiveDelta data =
      (rep.noteReceived (readBe16 data)).applyDelta (readBe16 data) (deltaEntities data) :=
    if_neg (by omega)
  have hsame : ∀ id, (rep.noteReceived id).predictionMode = rep.predictionMode ∧
      (rep.noteReceived id).hasSnapshotCb = rep.hasSnapshotCb ∧
      (rep.noteReceived id).interpolationEnabled = rep.interpolationEnabled ∧
      (rep.noteReceived id).hasBridge = rep.hasBridge := fun _ => ⟨rfl, rfl, rfl, rfl⟩
  obtain ⟨hpred, hcb, hinterp, hbridge⟩ := hsame (readBe16 data)
  by_cases hreceives : Receives rep
  · refine iff_of_true ?_ (.inl hreceives)
    rw [HandedOver, hone, applyDelta, hpred, hcb, hinterp, hbridge]
    by_cases hcallback : (rep.predictionMode && rep.hasSnapshotCb) = true
    · rw [if_pos hcallback]
      exact .inl rfl
    · rw [if_neg hcallback]
      by_cases hbuffer : rep.interpolationEnabled = true
      · rw [if_pos hbuffer]
        exact .inr (.inr rfl)
      · rw [if_neg hbuffer, if_pos ((hreceives.resolve_left hcallback).resolve_left hbuffer)]
        exact .inr (.inl rfl)
  · rw [or_iff_right hreceives]
    obtain ⟨hcallback, hrest⟩ := not_or.mp hreceives
    obtain ⟨hbuffer, hnone⟩ := not_or.mp hrest
    have hnobody : rep.onReceiveDelta data = (rep.noteReceived (readBe16 data), []) := by
      rw [hone, applyDelta, hpred, hcb, hinterp, hbridge, if_neg hcallback, if_neg hbuffer, if_neg hnone]
    constructor
    · intro hgiven
      rw [HandedOver, hnobody] at hgiven
      rcases hgiven with hcalls | hcalls | hbuf
      · exact List.map_eq_nil_iff.mp hcalls.symm
      · exact List.map_eq_nil_iff.mp hcalls.symm
      · exact absurd hbuf (store_ne _ _ _ _)
    · intro hnil
      rw [hnil]
      exact .inl (by rw [hnobody]; rfl)

theorem lastReceived_ne_iff {rep : NetworkReplicationManager} {data : Bytes} :
    (rep.onReceiveDelta data).1.lastReceivedSnapshot ≠ rep.lastReceivedSnapshot ↔
      4 ≤ data.length ∧ newer (readBe16 data) rep.lastReceivedSnapshot = true := by
  by_cases hlen : data.length < 4
  · rw [onReceiveDelta, if_pos hlen]
    exact iff_of_false (fun h => h rfl) fun h => by omega
  · have hnoted : (rep.onReceiveDelta data).1.lastReceivedSnapshot =
        if newer (readBe16 data) rep.lastReceivedSnapshot then readBe16 data
        else rep.lastReceivedSnapshot := by
      rw [onReceiveDelta, if_neg hlen, applyDelta]
      repeat' split_ifs
      all_goals simp_all [noteReceived]
    rw [hnoted]
    by_cases hnewer : newer (readBe16 data) rep.lastReceivedSnapshot = true
    · rw [if_pos hnewer]
      refine iff_of_true (fun heq => ?_) ⟨by omega, hnewer⟩
      rw [heq] at hnewer
      simp [newer] at hnewer
    · rw [if_neg hnewer]
      exact iff_of_false (fun h => h rfl) fun h => hnewer h.2

/-- A snapshot is noted only whole, exactly where its message holds all the entities that it announces
and somebody is there to be given them. -/
theorem notesWhole_iff (rep : NetworkReplicationManager) (data : Bytes) : NotesWhole rep data ↔
    data.length < 4 ∨ newer (readBe16 data) rep.lastReceivedSnapshot = false ∨
      holdsEntries (announced data) (data.drop 4) = true ∧ (Receives rep ∨ announced data = 0) := by
  unfold NotesWhole
  rw [lastReceived_ne_iff]
  by_cases hlen : data.length < 4
  · exact iff_of_true (fun h => by omega) (.inl hlen)
  by_cases hnewer : newer (readBe16 data) rep.lastReceivedSnapshot = true
  · have hcount : (deltaEntities data).length = announced data ↔
        holdsEntries (announced data) (data.drop 4) = true := length_parseEntities_eq_iff _ _
    have hnot : ¬newer (readBe16 data) rep.lastReceivedSnapshot = false := by simp [hnewer]
    rw [imp_iff_right ⟨not_lt.mp hlen, hnewer⟩, handedOver_iff (not_lt.mp hlen), or_iff_right hlen,
      or_iff_right hnot, hcount]
    refine and_congr_right fun hholds => or_congr_right ?_
    rw [← hcount.mpr hholds, List.length_eq_zero_iff]
  · rw [Bool.not_eq_true] at hnewer
    refine iff_of_true (fun h => ?_) (.inr (.inl hnewer))
    rw [hnewer] at h
    exact absurd h.2 Bool.false_ne_true

def AlwaysNotesWhole : Prop := ∀ rep data, NotesWhole rep data

theorem not_alwaysNotesWhole : ¬AlwaysNotesWhole := by
  intro h
  have hone := (h { hasBridge := true } [0, 1, 0, 1] (by decide)).1
  revert hone
  decide

end CampelloNet.Replication
