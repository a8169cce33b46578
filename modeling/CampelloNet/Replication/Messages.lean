import CampelloNet.Replication

/-!
# Snapshot messages

What the client reads of a snapshot message is what the server put in it, as long as the two 16-bit
counts of the format hold the number of entities and the length of each entity's bytes.
-/

namespace CampelloNet.Replication

open Lib NetworkReplicationManager

/-- The counts of the format hold what is to be sent. -/
structure Fits (entities : List EntitySnapshot) : Prop where
  count : entities.length < 65536
  data : ∀ ent ∈ entities, ent.2.length < 65536

instance (entities : List EntitySnapshot) : Decidable (Fits entities) :=
  decidable_of_iff (entities.length < 65536 ∧ ∀ ent ∈ entities, ent.2.length < 65536)
    ⟨fun h => ⟨h.1, h.2⟩, fun h => ⟨h.1, h.2⟩⟩

theorem toNat_ofNat_length {n : ℕ} (h : n < 65536) : (UInt16.ofNat n).toNat = n :=
  UInt16.toNat_ofNat_of_lt' h

theorem entityBytes_eq {ent : EntitySnapshot} (h : ent.2.length < 65536) :
    entityBytes ent = be64 ent.1 ++ (be16 (UInt16.ofNat ent.2.length) ++ ent.2) := by
  unfold entityBytes
  dsimp only
  rw [toNat_ofNat_length h, List.take_length, List.append_assoc]

theorem parseEntities_cons {ent : EntitySnapshot} (h : ent.2.length < 65536) (n : ℕ) (rest : Bytes) :
    parseEntities (n + 1) (entityBytes ent ++ rest) = ent :: parseEntities n rest := by
  have hlen := toNat_ofNat_length h
  have hdrop8 : (be64 ent.1 ++ (be16 (UInt16.ofNat ent.2.length) ++ (ent.2 ++ rest))).drop 8 =
      be16 (UInt16.ofNat ent.2.length) ++ (ent.2 ++ rest) := rfl
  have hdrop10 : (be64 ent.1 ++ (be16 (UInt16.ofNat ent.2.length) ++ (ent.2 ++ rest))).drop 10 =
      ent.2 ++ rest := rfl
  rw [entityBytes_eq h, List.append_assoc, List.append_assoc, parseEntities, hdrop8, hdrop10,
    readBe16_be16, readBe64_be64, hlen]
  rw [if_neg (by simp; omega), if_neg (by simp), List.take_left, List.drop_left]

theorem parseEntities_flatMap {entities : List EntitySnapshot}
    (h : ∀ ent ∈ entities, ent.2.length < 65536) :
    parseEntities entities.length (entities.flatMap entityBytes) = entities := by
  induction entities with
  | nil => rfl
  | cons ent entities ih =>
    rw [List.flatMap_cons, List.length_cons, parseEntities_cons (h ent List.mem_cons_self),
      ih fun e he => h e (List.mem_cons_of_mem _ he)]

theorem drop_snapshotMessage (id : UInt16) (entities : List EntitySnapshot) :
    (snapshotMessage id entities).drop 3 =
      be16 id ++ (be16 (UInt16.ofNat entities.length) ++ entities.flatMap entityBytes) := by
  unfold snapshotMessage
  rw [List.append_assoc, List.append_assoc]
  rfl

@[simp] theorem readBe16_snapshotMessage (id : UInt16) (entities : List EntitySnapshot) :
    readBe16 ((snapshotMessage id entities).drop 3) = id := by
  rw [drop_snapshotMessage, readBe16_be16]

theorem deltaEntities_snapshotMessage {entities : List EntitySnapshot} (h : Fits entities)
    (id : UInt16) : deltaEntities ((snapshotMessage id entities).drop 3) = entities := by
  have hdrop2 : ∀ rest, (be16 id ++ rest).drop 2 = rest := fun _ => rfl
  have hdrop4 : ∀ n rest, (be16 id ++ (be16 n ++ rest)).drop 4 = rest := fun _ _ => rfl
  unfold deltaEntities
  rw [drop_snapshotMessage, hdrop2, hdrop4, readBe16_be16, toNat_ofNat_length h.count]
  exact parseEntities_flatMap h.data

end CampelloNet.Replication
