import CampelloNet.Application
import CampelloNet.Lib.Buckets
import Mathlib.Algebra.Order.Floor.Ring
import Mathlib.Data.List.Sort

/-!
# The spatial interest manager

`spatial_interest_manager.cpp`, over any ordered field with a floor: coordinates are exact numbers and
cells have integer coordinates. The grid is the map of cells to the ids of the entities in them.
-/

namespace CampelloNet.Replication

open Lib

structure Vec3 (K : Type*) where
  x : K
  y : K
  z : K
  deriving DecidableEq

structure CellCoord where
  x : ℤ
  y : ℤ
  z : ℤ
  deriving DecidableEq

structure EntityEntry (K : Type*) where
  id : NetworkId
  pos : Vec3 K
  cell : CellCoord
  /-- 0 for the default -/
  radius : K

structure ClientEntry (K : Type*) where
  id : ClientId
  pos : Vec3 K
  /-- 0 for the default -/
  radius : K

structure SpatialInterestManager (K : Type*) where
  cellSize : K
  defaultRelevancyRadius : K
  maxEntitiesPerClient : ℕ := 0
  entities : List (EntityEntry K) := []
  clients : List (ClientEntry K) := []
  cells : Buckets CellCoord NetworkId := []

namespace SpatialInterestManager

variable {K : Type*} [Field K] [LinearOrder K] [FloorRing K] (m : SpatialInterestManager K)

/-- The manager as it is built. -/
def new (cellSize : K) : SpatialInterestManager K :=
  { cellSize := cellSize, defaultRelevancyRadius := 500 }

def findEntity (id : NetworkId) : Option (EntityEntry K) := lookup EntityEntry.id id m.entities

def findClient (id : ClientId) : Option (ClientEntry K) := lookup ClientEntry.id id m.clients

def setCellSize (cellSize : K) : SpatialInterestManager K := { m with cellSize := cellSize }

def setDefaultRelevancyRadius (radius : K) : SpatialInterestManager K :=
  { m with defaultRelevancyRadius := radius }

def setMaxEntitiesPerClient (max : ℕ) : SpatialInterestManager K :=
  { m with maxEntitiesPerClient := max }

/-! ### Cells -/

def worldToCell (p : Vec3 K) : CellCoord :=
  ⟨⌊p.x / m.cellSize⌋, ⌊p.y / m.cellSize⌋, ⌊p.z / m.cellSize⌋⟩

def addToCell (cell : CellCoord) (id : NetworkId) : SpatialInterestManager K :=
  { m with cells := m.cells.insert cell id }

def removeFromCell (cell : CellCoord) (id : NetworkId) : SpatialInterestManager K :=
  { m with cells := m.cells.remove cell id }

/-! ### Entities -/

def updateEntity (id : NetworkId) (pos : Vec3 K) : SpatialInterestManager K :=
  match m.findEntity id with
  | none => m
  | some ent =>
    if ent.pos = pos then m
    else
      let cell := m.worldToCell pos
      let moved : SpatialInterestManager K :=
        { m with entities := upsert EntityEntry.id { ent with pos := pos, cell := cell } m.entities }
      if ent.cell = cell then moved else (moved.removeFromCell ent.cell id).addToCell cell id

def registerEntity (id : NetworkId) (pos : Vec3 K) : SpatialInterestManager K :=
  match m.findEntity id with
  | some _ => m.updateEntity id pos
  | none =>
    let cell := m.worldToCell pos
    let added : SpatialInterestManager K :=
      { m with entities := m.entities ++ [{ id := id, pos := pos, cell := cell, radius := 0 }] }
    added.addToCell cell id

def removeEntity (id : NetworkId) : SpatialInterestManager K :=
  match m.findEntity id with
  | none => m
  | some ent =>
    { m.removeFromCell ent.cell id with entities := m.entities.filter fun e => e.id ≠ id }

def setEntityRelevancyRadius (id : NetworkId) (radius : K) : SpatialInterestManager K :=
  match m.findEntity id with
  | none => m
  | some ent => { m with entities := upsert EntityEntry.id { ent with radius := radius } m.entities }

/-! ### Clients -/

def updateClient (id : ClientId) (pos : Vec3 K) : SpatialInterestManager K :=
  match m.findClient id with
  | none => m
  | some client => { m with clients := upsert ClientEntry.id { client with pos := pos } m.clients }

def registerClient (id : ClientId) (pos : Vec3 K) : SpatialInterestManager K :=
  match m.findClient id with
  | some _ => m.updateClient id pos
  | none => { m with clients := m.clients ++ [{ id := id, pos := pos, radius := 0 }] }

def removeClient (id : ClientId) : SpatialInterestManager K :=
  { m with clients := m.clients.filter fun c => c.id ≠ id }

def setClientViewRadius (id : ClientId) (radius : K) : SpatialInterestManager K :=
  match m.findClient id with
  | none => m
  | some client => { m with clients := upsert ClientEntry.id { client with radius := radius } m.clients }

def clear : SpatialInterestManager K := { m with entities := [], clients := [], cells := [] }

/-! ### Queries -/

/-- `dx * dx + dy * dy + dz * dz` -/
def distSq (p q : Vec3 K) : K :=
  (p.x - q.x) * (p.x - q.x) + (p.y - q.y) * (p.y - q.y) + (p.z - q.z) * (p.z - q.z)

def getRelevancyRadius (entity : NetworkId) (client : ClientId) : K :=
  let radius := m.defaultRelevancyRadius
  let radius := match m.findEntity entity with
    | some ent => if ent.radius > 0 then ent.radius else radius
    | none => radius
  match m.findClient client with
  | some cit => if cit.radius > 0 then cit.radius else radius
  | none => radius

def isRelevant (entity : NetworkId) (client : ClientId) : Bool :=
  match m.findEntity entity, m.findClient client with
  | some ent, some cit =>
    let radius := m.getRelevancyRadius entity client
    distSq ent.pos cit.pos ≤ radius * radius
  | _, _ => false

/-- The test on an id that a cell lists. -/
def inSphere (p : Vec3 K) (radiusSq : K) (id : NetworkId) : Bool :=
  match m.findEntity id with
  | none => false
  | some ent => distSq ent.pos p ≤ radiusSq

/-- What `query_sphere` appends to `out`. -/
def querySphere (p : Vec3 K) (radius : K) (out : List NetworkId) : List NetworkId :=
  if radius ≤ 0 then out
  else
    let minCell := m.worldToCell ⟨p.x - radius, p.y - radius, p.z - radius⟩
    let maxCell := m.worldToCell ⟨p.x + radius, p.y + radius, p.z + radius⟩
    let radiusSq := radius * radius
    out ++ (between minCell.x maxCell.x).flatMap fun cx =>
      (between minCell.y maxCell.y).flatMap fun cy =>
        (between minCell.z maxCell.z).flatMap fun cz =>
          match lookup Prod.fst ⟨cx, cy, cz⟩ m.cells with
          | none => []
          | some (_, ids) => ids.filter (m.inSphere p radiusSq)

/-- The comparison by which `query_visible` sorts. -/
def nearer (p : Vec3 K) (a b : NetworkId) : Bool :=
  match m.findEntity a, m.findEntity b with
  | some entA, some entB => distSq entA.pos p < distSq entB.pos p
  | found, _ => found.isSome

/-- Equally near entities keep their order. -/
def queryVisible (client : ClientId) (out : List NetworkId) : List NetworkId :=
  match m.findClient client with
  | none => out
  | some cit =>
    let radius := if cit.radius > 0 then cit.radius else m.defaultRelevancyRadius
    let out := m.querySphere cit.pos radius out
    if m.maxEntitiesPerClient > 0 ∧ out.length > m.maxEntitiesPerClient then
      (out.insertionSort fun a b => m.nearer cit.pos b a = false).take m.maxEntitiesPerClient
    else out

end SpatialInterestManager

end CampelloNet.Replication
