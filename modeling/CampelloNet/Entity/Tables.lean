import CampelloNet.Lib.Follower
import CampelloNet.Lib.Ledger
import CampelloNet.Manager.State

/-!
# The entity tables of a server and its clients

A server spawns and destroys entities with a `net` argument, so that each change is broadcast, and
sends its full state to a client that joined late. The messages to a client arrive whole, in order and
without loss. The hash table may be visited in any order when the full state is sent.
-/

namespace CampelloNet

open Lib

namespace NetworkEntityManager

/-- What a client does with a message of the server's entity manager. -/
def receive (message : Bytes) (handle : EntityHandle) (em : NetworkEntityManager) :
    NetworkEntityManager × List AppCall :=
  let type := message.getD 2 0
  let data := message.drop 3
  if type = NetworkManager.SysType.entitySpawn then em.onReceiveSpawn data handle
  else if type = NetworkManager.SysType.entityDestroy then em.onReceiveDestroy data
  else (em, [])

/-- The prefab of each entity. -/
def prefabs (em : NetworkEntityManager) : Table NetworkId PrefabId :=
  fun id => (em.find id).map Entity.prefabId

/-- Which entities there are, each with its prefab. -/
def pairs (em : NetworkEntityManager) : Finset (NetworkId × PrefabId) :=
  (em.entities.map fun ent => (ent.netId, ent.prefabId)).toFinset

/-- The keys of the hash table. -/
def Distinct (em : NetworkEntityManager) : Prop := (em.entities.map Entity.netId).Nodup

variable {em em' : NetworkEntityManager} {id k : NetworkId} {prefabId : PrefabId} {initData : Bytes}
  {handle : EntityHandle}

theorem find_put (ent : Entity) : (em.put ent).find k = if k = ent.netId then some ent else em.find k := by
  split_ifs with h
  · subst h
    exact lookup_upsert_self ent em.entities
  · exact lookup_upsert_ne ent em.entities fun heq => h heq.symm

theorem find_erase : (em.erase id).find k = if k = id then none else em.find k := by
  split_ifs with h
  · subst h
    exact lookup_erased k em.entities
  · exact lookup_erased_ne h em.entities

theorem create_fst : ∃ ent : Entity, ent.netId = id ∧ ent.prefabId = prefabId ∧ ent.ownerId = 0 ∧
    (em.create prefabId id initData handle).1 = em.put ent := by
  unfold create
  split_ifs
  · exact ⟨_, rfl, rfl, rfl, rfl⟩
  · exact ⟨_, rfl, rfl, rfl, rfl⟩

theorem prefabs_create : (em.create prefabId id initData handle).1.prefabs k =
    if k = id then some prefabId else em.prefabs k := by
  obtain ⟨ent, rfl, rfl, -, hput⟩ := @create_fst em id prefabId initData handle
  unfold prefabs
  rw [hput, find_put]
  split_ifs <;> rfl

theorem distinct_put (ent : Entity) (h : em.Distinct) : (em.put ent).Distinct :=
  nodup_map_key_upsert ent h

theorem distinct_create (h : em.Distinct) :
    (em.create prefabId id initData handle).1.Distinct := by
  obtain ⟨ent, -, -, -, hput⟩ := @create_fst em id prefabId initData handle
  rw [hput]
  exact distinct_put ent h

theorem distinct_destroy (h : em.Distinct) : (em.destroy id).1.Distinct := by
  unfold destroy
  split
  · exact h
  · exact h.sublist (List.filter_sublist.map _)

theorem prefabs_destroy : (em.destroy id).1.prefabs = em.prefabs.leave id := by
  funext k
  unfold destroy Table.leave
  rcases hfind : em.find id with _ | ent
  · split_ifs with h
    · simp [prefabs, h, hfind]
    · rfl
  · have hid : ent.netId = id := lookup_key hfind
    show ((em.erase ent.netId).find k).map _ = _
    rw [hid, find_erase]
    split_ifs <;> rfl

theorem mem_pairs (h : em.Distinct) : (id, prefabId) ∈ em.pairs ↔ em.prefabs id = some prefabId := by
  unfold pairs prefabs
  simp only [List.mem_toFinset, List.mem_map, Prod.mk.injEq, Option.map_eq_some_iff]
  constructor
  · rintro ⟨ent, hent, rfl, hprefab⟩
    exact ⟨ent, lookup_of_mem h hent, hprefab⟩
  · rintro ⟨ent, hent, hprefab⟩
    exact ⟨ent, lookup_mem hent, lookup_key hent, hprefab⟩

theorem pairs_eq (h : em.Distinct) (h' : em'.Distinct) (heq : em.prefabs = em'.prefabs) :
    em.pairs = em'.pairs := by
  ext ⟨id, prefabId⟩
  rw [mem_pairs h, mem_pairs h', heq]

/-! ### The server -/

theorem spawn_fst : (em.spawn prefabId initData handle).1 = if em.full then em
    else (({ em with nextId := em.nextId + 1 } : NetworkEntityManager).create prefabId em.nextId
      initData handle).1 := by
  unfold spawn
  split_ifs <;> rfl

theorem prefabs_spawn (hfull : em.full = false) : (em.spawn prefabId initData handle).1.prefabs k =
    if k = em.nextId then some prefabId else em.prefabs k := by
  rw [spawn_fst, if_neg (by simp [hfull]), prefabs_create]
  rfl

theorem distinct_spawn (h : em.Distinct) : (em.spawn prefabId initData handle).1.Distinct := by
  rw [spawn_fst]
  split_ifs
  · exact h
  · exact distinct_create h

theorem find_setOwner {owner : ClientId} : (em.setOwner id owner).find k =
    if k = id then (em.find k).map fun ent => { ent with ownerId := owner } else em.find k := by
  unfold setOwner
  rcases hfind : em.find id with _ | ent
  · split_ifs with h
    · rw [h, hfind]
      rfl
    · rfl
  · have hid : ent.netId = id := lookup_key hfind
    show (em.put _).find k = _
    rw [find_put]
    dsimp only
    rw [hid]
    split_ifs with h
    · rw [h, hfind, Option.map_some, ← hid]
    · rfl

theorem prefabs_setOwner {owner : ClientId} : (em.setOwner id owner).prefabs = em.prefabs := by
  funext k
  unfold prefabs
  rw [find_setOwner]
  split_ifs
  · rw [Option.map_map]
    rfl
  · rfl

theorem distinct_setOwner {owner : ClientId} (h : em.Distinct) : (em.setOwner id owner).Distinct := by
  unfold setOwner
  split
  · exact h
  · exact distinct_put _ h

/-! ### The messages -/

/-- A change of the server's table: the entity, its prefab and its initial data. -/
abbrev Update := Edit NetworkId (PrefabId × Bytes)

def message : Update → Bytes
  | .enter id (prefabId, initData) => spawnMessage id prefabId initData
  | .leave id => destroyMessage id

/-- The initial data as a message carries it, its length in 16 bits. -/
def carried (initData : Bytes) : Bytes := initData.take (initData.length % 2 ^ 16)

theorem carried_eq_nil_iff : carried initData = [] ↔ initData.length % 2 ^ 16 = 0 := by
  unfold carried
  rw [List.take_eq_nil_iff]
  refine ⟨fun h => h.elim id fun h => ?_, Or.inl⟩
  rw [h]
  rfl

theorem receive_enter : em.receive (message (.enter id (prefabId, initData))) handle =
    if (em.find id).isSome then (em, []) else if em.full then (em, [])
    else em.create prefabId id (carried initData) handle := by
  have hdata : (spawnMessage id prefabId initData).drop 3 =
      be64 id ++ (be32 prefabId ++ (be16 (UInt16.ofNat initData.length) ++ initData)) := by
    simp [spawnMessage]
  have hdrop₈ : ((spawnMessage id prefabId initData).drop 3).drop 8 =
      be32 prefabId ++ (be16 (UInt16.ofNat initData.length) ++ initData) := by
    rw [hdata]
    exact List.drop_left' (length_be64 id)
  have hdrop₁₂ : ((spawnMessage id prefabId initData).drop 3).drop 12 =
      be16 (UInt16.ofNat initData.length) ++ initData := by
    rw [show 12 = 8 + 4 from rfl, ← List.drop_drop, hdrop₈]
    exact List.drop_left' (length_be32 prefabId)
  have hdrop₁₄ : ((spawnMessage id prefabId initData).drop 3).drop 14 = initData := by
    rw [show 14 = 12 + 2 from rfl, ← List.drop_drop, hdrop₁₂]
    exact List.drop_left' (length_be16 _)
  have hlen : ((spawnMessage id prefabId initData).drop 3).length = 14 + initData.length := by
    rw [hdata]
    simp only [List.length_append, length_be64, length_be32, length_be16]
    omega
  have hinit : (UInt16.ofNat initData.length).toNat = initData.length % 2 ^ 16 := UInt16.toNat_ofNat'
  have hle : initData.length % 2 ^ 16 ≤ initData.length := Nat.mod_le _ _
  show em.onReceiveSpawn ((spawnMessage id prefabId initData).drop 3) handle = _
  unfold onReceiveSpawn
  dsimp only
  rw [hdrop₁₄, hdrop₁₂, hdrop₈, readBe32_be32, readBe16_be16, hinit, hlen, if_neg (by omega),
    if_neg (by omega), hdata, readBe64_be64]
  rfl

theorem receive_leave : em.receive (message (.leave id)) handle = em.destroy id := by
  have hdata : (destroyMessage id).drop 3 = be64 id ++ [] := by simp [destroyMessage]
  show em.onReceiveDestroy ((destroyMessage id).drop 3) = _
  unfold onReceiveDestroy
  rw [hdata, readBe64_be64, if_neg (by simp [length_be64])]

theorem distinct_receive (u : Update) (h : em.Distinct) :
    (em.receive (message u) handle).1.Distinct := by
  cases u with
  | enter id args =>
    rw [receive_enter]
    split_ifs
    · exact h
    · exact h
    · exact distinct_create h
  | leave id =>
    rw [receive_leave]
    exact distinct_destroy h

theorem maxEntities_receive (u : Update) :
    (em.receive (message u) handle).1.maxEntities = em.maxEntities := by
  cases u with
  | enter id args =>
    rw [receive_enter]
    split_ifs
    · rfl
    · rfl
    · obtain ⟨ent, -, -, -, hput⟩ := @create_fst em id args.1 (carried args.2) handle
      rw [hput]
      rfl
  | leave id =>
    rw [receive_leave]
    unfold destroy
    split <;> rfl

/-- Without a limit, a client's table changes as the message says. -/
theorem prefabs_receive (u : Update) (hlimit : em.maxEntities = 0) :
    (em.receive (message u) handle).1.prefabs = em.prefabs.edit (u.map Prod.fst) := by
  cases u with
  | enter id args =>
    have hfull : ¬em.full = true := by simp [full, hlimit]
    rw [receive_enter]
    show _ = em.prefabs.enter id args.1
    split_ifs with hfind
    · obtain ⟨ent, hent⟩ := Option.isSome_iff_exists.mp hfind
      exact (Table.enter_of_some (by rw [prefabs, hent]; rfl)).symm
    · have hnone : em.prefabs id = none := by
        unfold prefabs
        rw [Option.not_isSome_iff_eq_none.mp hfind]
        rfl
      funext k
      rw [prefabs_create, Table.enter_of_none hnone]
  | leave id =>
    rw [receive_leave, prefabs_destroy]
    rfl

end NetworkEntityManager

end CampelloNet
