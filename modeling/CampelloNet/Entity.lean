import CampelloNet.Application
import CampelloNet.Lib.Keyed

/-!
# The entity manager

`NetworkEntityManager`: which networked entities exist, their prefab, local handle and owner. The
hash table is the list of its entries in order of insertion, the order in which they are visited.
Whether a bridge is set is a field; the handle that `bridge->spawn` returns is an argument of the
functions that may call it, and the calls made are returned.
-/

namespace CampelloNet

open Lib

structure Entity where
  netId : NetworkId
  prefabId : PrefabId
  localHandle : EntityHandle := 0
  ownerId : ClientId := 0
  deriving DecidableEq

structure NetworkEntityManager where
  entities : List Entity := []
  hasBridge : Bool := false
  nextId : NetworkId := 1
  /-- 0 for no limit -/
  maxEntities : ℕ := 0
  deriving DecidableEq

namespace NetworkEntityManager

def find (id : NetworkId) (em : NetworkEntityManager) : Option Entity :=
  lookup Entity.netId id em.entities

/-- `entities_[ent.net_id] = ent` -/
def put (ent : Entity) (em : NetworkEntityManager) : NetworkEntityManager :=
  { em with entities := upsert Entity.netId ent em.entities }

def erase (id : NetworkId) (em : NetworkEntityManager) : NetworkEntityManager :=
  { em with entities := em.entities.filter fun ent => ent.netId ≠ id }

/-- The limit on entities is reached. -/
def full (em : NetworkEntityManager) : Bool :=
  em.maxEntities > 0 && em.entities.length ≥ em.maxEntities

/-- Enter an entity under the id, calling `bridge->spawn` if there is a bridge. -/
def create (prefabId : PrefabId) (id : NetworkId) (initData : Bytes) (handle : EntityHandle)
    (em : NetworkEntityManager) : NetworkEntityManager × List AppCall :=
  if em.hasBridge then
    (em.put { netId := id, prefabId := prefabId, localHandle := handle },
      [.spawn prefabId id initData])
  else (em.put { netId := id, prefabId := prefabId }, [])

/-- Erase an entity that is there, calling `bridge->destroy` if there is a bridge. -/
def remove (ent : Entity) (em : NetworkEntityManager) : NetworkEntityManager × List AppCall :=
  (em.erase ent.netId, if em.hasBridge then [.destroy ent.localHandle] else [])

def assign (ent : Entity) (owner : ClientId) (em : NetworkEntityManager) : NetworkEntityManager :=
  em.put { ent with ownerId := owner }

/-! ### Server -/

/-- The new id, or 0 if the limit is reached. -/
def spawn (prefabId : PrefabId) (initData : Bytes) (handle : EntityHandle)
    (em : NetworkEntityManager) : NetworkEntityManager × List AppCall × NetworkId :=
  if em.full then (em, [], 0)
  else
    let id := em.nextId
    let (em, calls) := create prefabId id initData handle { em with nextId := id + 1 }
    (em, calls, id)

def destroy (id : NetworkId) (em : NetworkEntityManager) : NetworkEntityManager × List AppCall :=
  match em.find id with
  | none => (em, [])
  | some ent => em.remove ent

def setOwner (id : NetworkId) (owner : ClientId) (em : NetworkEntityManager) :
    NetworkEntityManager :=
  match em.find id with
  | none => em
  | some ent => em.assign ent owner

def owner (id : NetworkId) (em : NetworkEntityManager) : ClientId :=
  match em.find id with
  | none => 0
  | some ent => ent.ownerId

/-- The message of `broadcast_spawn`. -/
def spawnMessage (id : NetworkId) (prefabId : PrefabId) (initData : Bytes) : Bytes :=
  [0xCA, 0xFE, 0x10] ++ be64 id ++ be32 prefabId ++ be16 (UInt16.ofNat initData.length) ++ initData

/-- The message of `broadcast_destroy`. -/
def destroyMessage (id : NetworkId) : Bytes := [0xCA, 0xFE, 0x11] ++ be64 id

/-- The messages of `send_full_state_to_client`. -/
def fullStateMessages (em : NetworkEntityManager) : List Bytes :=
  em.entities.map fun ent => spawnMessage ent.netId ent.prefabId []

/-! ### Message handlers -/

def onReceiveSpawn (data : Bytes) (handle : EntityHandle) (em : NetworkEntityManager) :
    NetworkEntityManager × List AppCall :=
  if data.length < 14 then (em, [])
  else
    let netId := readBe64 data
    let prefabId := readBe32 (data.drop 8)
    let initLen := (readBe16 (data.drop 12)).toNat
    if data.length < 14 + initLen then (em, [])
    else if (em.find netId).isSome then (em, [])
    else if em.full then (em, [])
    else em.create prefabId netId ((data.drop 14).take initLen) handle

def onReceiveDestroy (data : Bytes) (em : NetworkEntityManager) :
    NetworkEntityManager × List AppCall :=
  if data.length < 8 then (em, []) else em.destroy (readBe64 data)

def onReceiveSetOwner (data : Bytes) (em : NetworkEntityManager) : NetworkEntityManager :=
  if data.length < 16 then em else em.setOwner (readBe64 data) (readBe64 (data.drop 8))

/-- The placeholder for a batched full state. -/
def onReceiveFullState (_data : Bytes) (em : NetworkEntityManager) : NetworkEntityManager := em

end NetworkEntityManager

end CampelloNet
