import CampelloNet.Replication.SpatialInterest
import Mathlib.Data.List.ProdSigma
import Mathlib.Data.Rat.Floor
import Mathlib.Tactic.Linarith

/-!
# Sphere queries on the grid

The grid lists every entity exactly once, in the cell of its position (`Listed`), over every run of
calls that leaves the cell size. A query visits the cells of its bounding box, and floor division does
not skip one that has something in range, so that a query finds what a search through all entities
would (`querySphere_run`).
-/

namespace CampelloNet.Replication

open Lib

namespace SpatialInterestManager

/-! ### What the manager is for -/

/-- The entities that are registered, with their latest positions. -/
abbrev Positions (K : Type*) := NetworkId → Option (Vec3 K)

section

variable {K : Type*} {m m' : SpatialInterestManager K}

def positions (m : SpatialInterestManager K) : Positions K := fun id => (m.findEntity id).map EntityEntry.pos

/-! ### The entity table -/

theorem findEntity_upsert (ent : EntityEntry K) (id : NetworkId) :
    lookup EntityEntry.id id (upsert EntityEntry.id ent m.entities) =
      if id = ent.id then some ent else m.findEntity id := by
  split_ifs with h
  · rw [h, lookup_upsert_self]
  · exact lookup_upsert_ne _ _ (Ne.symm h)

/-- What is recorded of an entity under its id. -/
theorem map_findEntity_upsert {β : Type*} (f : EntityEntry K → β) (ent : EntityEntry K) :
    (fun id => (lookup EntityEntry.id id (upsert EntityEntry.id ent m.entities)).map f) =
      Function.update (fun id => (m.findEntity id).map f) ent.id (some (f ent)) := by
  funext id
  rw [findEntity_upsert, Function.update_apply]
  split_ifs
  · rfl
  · rfl

theorem findEntity_erase (id id' : NetworkId) :
    lookup EntityEntry.id id' (m.entities.filter fun e => e.id ≠ id) =
      if id' = id then none else m.findEntity id' := by
  split_ifs with h
  · rw [h, lookup_erased]
  · exact lookup_erased_ne h _

theorem map_findEntity_erase {β : Type*} (f : EntityEntry K → β) (id : NetworkId) :
    (fun id' => (lookup EntityEntry.id id' (m.entities.filter fun e => e.id ≠ id)).map f) =
      Function.update (fun id' => (m.findEntity id').map f) id none := by
  funext id'
  rw [findEntity_erase, Function.update_apply]
  split_ifs
  · rfl
  · rfl

/-- The cells in which the entities are. -/
def homes (m : SpatialInterestManager K) : NetworkId → Option CellCoord :=
  fun id => (m.findEntity id).map EntityEntry.cell

/-- An entity that is moved is listed where it was, if only its table entry changes. -/
theorem indexed_upsert (h : m.cells.Indexed m.homes) {ent a : EntityEntry K}
    (hent : m.findEntity ent.id = some ent) (hid : a.id = ent.id) (hcell : a.cell = ent.cell) :
    m.cells.Indexed fun id => (lookup EntityEntry.id id (upsert EntityEntry.id a m.entities)).map
      EntityEntry.cell := by
  have hhome : m.homes ent.id = some ent.cell := by rw [homes, hent]; rfl
  refine h.congr ((map_findEntity_upsert EntityEntry.cell a).trans ?_)
  rw [hid, hcell, ← hhome]
  exact Function.update_eq_self ent.id m.homes

theorem indexed_remove (h : m.cells.Indexed m.homes) (id : NetworkId) :
    (m.removeEntity id).cells.Indexed (m.removeEntity id).homes := by
  cases hent : m.findEntity id with
  | none =>
    simp only [removeEntity, hent]
    exact h
  | some ent =>
    have hhome : m.homes id = some ent.cell := by rw [homes, hent]; rfl
    simp only [removeEntity, hent]
    exact (h.remove hhome).congr (map_findEntity_erase EntityEntry.cell id)

theorem indexed_radius (h : m.cells.Indexed m.homes) (id : NetworkId) (radius : K) :
    (m.setEntityRelevancyRadius id radius).cells.Indexed (m.setEntityRelevancyRadius id radius).homes := by
  cases hent : m.findEntity id with
  | none =>
    simp only [setEntityRelevancyRadius, hent]
    exact h
  | some ent =>
    obtain rfl : ent.id = id := lookup_key hent
    simp only [setEntityRelevancyRadius, hent]
    exact indexed_upsert (a := { ent with radius := radius }) h hent rfl rfl

end

variable {K : Type*} [Field K] [LinearOrder K] [FloorRing K] {m m' : SpatialInterestManager K}

/-- The calls that leave the cell size as it is. -/
inductive Call (K : Type*) where
  | registerEntity (id : NetworkId) (pos : Vec3 K)
  | updateEntity (id : NetworkId) (pos : Vec3 K)
  | removeEntity (id : NetworkId)
  | setEntityRelevancyRadius (id : NetworkId) (radius : K)
  | registerClient (id : ClientId) (pos : Vec3 K)
  | updateClient (id : ClientId) (pos : Vec3 K)
  | removeClient (id : ClientId)
  | setClientViewRadius (id : ClientId) (radius : K)
  | setDefaultRelevancyRadius (radius : K)
  | setMaxEntitiesPerClient (max : ℕ)
  | clear

namespace Call

def run (m : SpatialInterestManager K) : Call K → SpatialInterestManager K
  | registerEntity id pos => m.registerEntity id pos
  | updateEntity id pos => m.updateEntity id pos
  | removeEntity id => m.removeEntity id
  | setEntityRelevancyRadius id radius => m.setEntityRelevancyRadius id radius
  | registerClient id pos => m.registerClient id pos
  | updateClient id pos => m.updateClient id pos
  | removeClient id => m.removeClient id
  | setClientViewRadius id radius => m.setClientViewRadius id radius
  | setDefaultRelevancyRadius radius => m.setDefaultRelevancyRadius radius
  | setMaxEntitiesPerClient max => m.setMaxEntitiesPerClient max
  | clear => m.clear

/-- What a call says about the positions. -/
def track (f : Positions K) : Call K → Positions K
  | registerEntity id pos => Function.update f id (some pos)
  | updateEntity id pos => if (f id).isSome then Function.update f id (some pos) else f
  | removeEntity id => Function.update f id none
  | clear => fun _ => none
  | _ => f

end Call

/-! ### The grid -/

theorem indexed_update (h : m.cells.Indexed m.homes) (id : NetworkId) (pos : Vec3 K) :
    (m.updateEntity id pos).cells.Indexed (m.updateEntity id pos).homes := by
  cases hent : m.findEntity id with
  | none =>
    simp only [updateEntity, hent]
    exact h
  | some ent =>
    obtain rfl : ent.id = id := lookup_key hent
    have hhome : m.homes ent.id = some ent.cell := by rw [homes, hent]; rfl
    simp only [updateEntity, hent]
    split
    · exact h
    · split
      · rename_i hcell
        exact indexed_upsert (a := { ent with pos := pos, cell := m.worldToCell pos }) h hent rfl hcell.symm
      · -- out of its cell and into another
        have hhomes := map_findEntity_upsert (m := m) EntityEntry.cell
          { ent with pos := pos, cell := m.worldToCell pos }
        have hremoved := h.remove hhome
        have hadded := hremoved.insert (Function.update_self ent.id none m.homes) (m.worldToCell pos)
        rw [Function.update_idem] at hadded
        exact hadded.congr hhomes

theorem indexed_register (h : m.cells.Indexed m.homes) (id : NetworkId) (pos : Vec3 K) :
    (m.registerEntity id pos).cells.Indexed (m.registerEntity id pos).homes := by
  cases hent : m.findEntity id with
  | some ent =>
    simp only [registerEntity, hent]
    exact indexed_update h id pos
  | none =>
    simp only [registerEntity, hent]
    let ent : EntityEntry K := { id := id, pos := pos, cell := m.worldToCell pos, radius := 0 }
    have hnone : lookup EntityEntry.id ent.id m.entities = none := hent
    have happend : m.entities ++ [ent] = upsert EntityEntry.id ent m.entities :=
      (upsert_of_lookup_none hnone).symm
    have hhome : m.homes id = none := by rw [homes, hent]; rfl
    rw [happend]
    exact (h.insert hhome (m.worldToCell pos)).congr (map_findEntity_upsert EntityEntry.cell ent)

/-- What an update does to the table, whether or not the entity changes its cell. -/
theorem findEntity_updateEntity {id : NetworkId} {ent : EntityEntry K} (pos : Vec3 K)
    (hent : m.findEntity id = some ent) (id' : NetworkId) : (m.updateEntity id pos).findEntity id' =
      if id' = id then
        some (if ent.pos = pos then ent else { ent with pos := pos, cell := m.worldToCell pos })
      else m.findEntity id' := by
  obtain rfl : ent.id = id := lookup_key hent
  have hmoved := findEntity_upsert (m := m) { ent with pos := pos, cell := m.worldToCell pos } id'
  simp only [updateEntity, hent]
  split
  · split_ifs with hid
    · rw [hid, hent]
    · rfl
  · split
    · exact hmoved
    · exact hmoved

theorem cellSize_updateEntity (id : NetworkId) (pos : Vec3 K) :
    (m.updateEntity id pos).cellSize = m.cellSize := by
  unfold updateEntity
  split
  · rfl
  · dsimp only
    split_ifs <;> rfl

theorem worldToCell_updateEntity (id : NetworkId) (pos p : Vec3 K) :
    (m.updateEntity id pos).worldToCell p = m.worldToCell p := by
  rw [worldToCell, worldToCell, cellSize_updateEntity]

/-- Each entity is listed once, in the cell of its position. -/
structure Listed (m : SpatialInterestManager K) : Prop where
  indexed : m.cells.Indexed m.homes
  placed : ∀ id, ∀ ent ∈ m.findEntity id, ent.cell = m.worldToCell ent.pos

theorem listed_new (cellSize : K) : Listed (new cellSize) :=
  ⟨.nil, fun _ _ h => nomatch h⟩

/-- What a call does to the grid: the positions are tracked, and the entities are listed by them. -/
structure Tracks (m m' : SpatialInterestManager K) (f : Positions K) : Prop where
  listed : Listed m'
  positions : m'.positions = f
  cellSize : m'.cellSize = m.cellSize

/-- What does not touch the entities does not touch the grid. -/
theorem Tracks.of_eq (h : Listed m) (hentities : m'.entities = m.entities) (hcells : m'.cells = m.cells)
    (hsize : m'.cellSize = m.cellSize) : Tracks m m' m.positions := by
  have hfind : m'.findEntity = m.findEntity := by
    funext id
    rw [findEntity, findEntity, hentities]
  have hhomes : m'.homes = m.homes := by
    unfold homes
    rw [hfind]
  have hpositions : m'.positions = m.positions := by
    unfold SpatialInterestManager.positions
    rw [hfind]
  refine ⟨⟨?_, ?_⟩, hpositions, hsize⟩
  · rw [hcells]
    exact h.indexed.congr hhomes
  · intro id ent hent
    rw [hfind] at hent
    rw [h.placed id ent hent, worldToCell, worldToCell, hsize]

theorem Tracks.refl (h : Listed m) : Tracks m m m.positions :=
  ⟨h, rfl, rfl⟩

theorem placed_upsert (h : Listed m) {a : EntityEntry K} (hcell : a.cell = m.worldToCell a.pos) :
    ∀ id, ∀ e ∈ lookup EntityEntry.id id (upsert EntityEntry.id a m.entities),
      e.cell = m.worldToCell e.pos := by
  intro id e he
  rw [findEntity_upsert] at he
  split_ifs at he
  · cases he
    exact hcell
  · exact h.placed id e he

theorem tracks_update (h : Listed m) {id : NetworkId} {ent : EntityEntry K} (pos : Vec3 K)
    (hent : m.findEntity id = some ent) :
    Tracks m (m.updateEntity id pos) (Function.update m.positions id (some pos)) := by
  have hfind := findEntity_updateEntity pos hent
  refine ⟨⟨indexed_update h.indexed id pos, fun id' e he => ?_⟩, ?_, cellSize_updateEntity id pos⟩
  · rw [hfind] at he
    rw [worldToCell_updateEntity]
    split_ifs at he with hid hpos
    · cases he
      exact h.placed id ent hent
    · cases he
      rfl
    · exact h.placed id' e he
  · funext id'
    rw [positions, hfind, Function.update_apply]
    split_ifs with hid hpos
    · exact congrArg some hpos
    · rfl
    · rfl

theorem tracks_register (h : Listed m) (id : NetworkId) (pos : Vec3 K) :
    Tracks m (m.registerEntity id pos) (Function.update m.positions id (some pos)) := by
  cases hent : m.findEntity id with
  | some ent =>
    simp only [registerEntity, hent]
    exact tracks_update h pos hent
  | none =>
    have hindexed := indexed_register h.indexed id pos
    simp only [registerEntity, hent] at hindexed ⊢
    let ent : EntityEntry K := { id := id, pos := pos, cell := m.worldToCell pos, radius := 0 }
    have hnone : lookup EntityEntry.id ent.id m.entities = none := hent
    have happend : m.entities ++ [ent] = upsert EntityEntry.id ent m.entities :=
      (upsert_of_lookup_none hnone).symm
    rw [happend] at hindexed ⊢
    exact ⟨⟨hindexed, placed_upsert h rfl⟩, map_findEntity_upsert EntityEntry.pos ent, rfl⟩

theorem tracks_remove (h : Listed m) (id : NetworkId) :
    Tracks m (m.removeEntity id) (Function.update m.positions id none) := by
  cases hent : m.findEntity id with
  | none =>
    have hnone : m.positions id = none := by rw [positions, hent]; rfl
    simp only [removeEntity, hent]
    rw [← hnone, Function.update_eq_self]
    exact .refl h
  | some ent =>
    have hindexed := indexed_remove h.indexed id
    simp only [removeEntity, hent] at hindexed ⊢
    refine ⟨⟨hindexed, ?_⟩, map_findEntity_erase EntityEntry.pos id, rfl⟩
    intro id' e he
    rw [findEntity, findEntity_erase] at he
    split_ifs at he
    · cases he
    · exact h.placed id' e he

theorem tracks_radius (h : Listed m) (id : NetworkId) (radius : K) :
    Tracks m (m.setEntityRelevancyRadius id radius) m.positions := by
  cases hent : m.findEntity id with
  | none =>
    simp only [setEntityRelevancyRadius, hent]
    exact .refl h
  | some ent =>
    obtain rfl : ent.id = id := lookup_key hent
    have hpos : m.positions ent.id = some ent.pos := by rw [positions, hent]; rfl
    have hpositions := map_findEntity_upsert (m := m) EntityEntry.pos { ent with radius := radius }
    have hplaced := placed_upsert h (a := { ent with radius := radius }) (h.placed _ ent hent)
    have hindexed := indexed_radius h.indexed ent.id radius
    simp only [setEntityRelevancyRadius, hent] at hindexed ⊢
    refine ⟨⟨hindexed, hplaced⟩, hpositions.trans ?_, rfl⟩
    exact hpos ▸ Function.update_eq_self ent.id m.positions

theorem tracks_updateClient (h : Listed m) (id : ClientId) (pos : Vec3 K) :
    Tracks m (m.updateClient id pos) m.positions := by
  rw [updateClient]
  split
  · exact .refl h
  · exact .of_eq h rfl rfl rfl

theorem tracks_registerClient (h : Listed m) (id : ClientId) (pos : Vec3 K) :
    Tracks m (m.registerClient id pos) m.positions := by
  rw [registerClient]
  split
  · exact tracks_updateClient h id pos
  · exact .of_eq h rfl rfl rfl

theorem tracks_viewRadius (h : Listed m) (id : ClientId) (radius : K) :
    Tracks m (m.setClientViewRadius id radius) m.positions := by
  rw [setClientViewRadius]
  split
  · exact .refl h
  · exact .of_eq h rfl rfl rfl

theorem tracks_call (h : Listed m) (call : Call K) : Tracks m (call.run m) (call.track m.positions) := by
  cases call with
  | registerEntity id pos => exact tracks_register h id pos
  | updateEntity id pos =>
    simp only [Call.run, Call.track]
    cases hent : m.findEntity id with
    | none =>
      have hnone : m.positions id = none := by rw [positions, hent]; rfl
      rw [hnone, updateEntity, hent]
      exact .refl h
    | some ent =>
      have hsome : m.positions id = some ent.pos := by rw [positions, hent]; rfl
      rw [hsome]
      exact tracks_update h pos hent
  | removeEntity id => exact tracks_remove h id
  | setEntityRelevancyRadius id radius => exact tracks_radius h id radius
  | registerClient id pos => exact tracks_registerClient h id pos
  | updateClient id pos => exact tracks_updateClient h id pos
  | removeClient id => exact .of_eq h rfl rfl rfl
  | setClientViewRadius id radius => exact tracks_viewRadius h id radius
  | setDefaultRelevancyRadius radius => exact .of_eq h rfl rfl rfl
  | setMaxEntitiesPerClient max => exact .of_eq h rfl rfl rfl
  | clear => exact ⟨⟨.nil, fun _ _ h => nomatch h⟩, rfl, rfl⟩

theorem tracks_run (calls : List (Call K)) (h : Listed m) :
    Tracks m (calls.foldl Call.run m) (calls.foldl Call.track m.positions) := by
  induction calls generalizing m with
  | nil => exact .refl h
  | cons call calls ih =>
    have hcall := tracks_call h call
    have hrest := ih hcall.listed
    rw [hcall.positions] at hrest
    exact ⟨hrest.listed, hrest.positions, hrest.cellSize.trans hcall.cellSize⟩

/-! ### The cells of a query -/

/-- The cells of a box. -/
def cellsBetween (lo hi : CellCoord) : List CellCoord :=
  ((between lo.x hi.x) ×ˢ (between lo.y hi.y) ×ˢ (between lo.z hi.z)).map fun c => ⟨c.1, c.2.1, c.2.2⟩

theorem mem_cellsBetween {lo hi c : CellCoord} : c ∈ cellsBetween lo hi ↔
    (lo.x ≤ c.x ∧ c.x ≤ hi.x) ∧ (lo.y ≤ c.y ∧ c.y ≤ hi.y) ∧ lo.z ≤ c.z ∧ c.z ≤ hi.z := by
  obtain ⟨x, y, z⟩ := c
  simp [cellsBetween, mem_between]

theorem nodup_cellsBetween (lo hi : CellCoord) : (cellsBetween lo hi).Nodup := by
  refine List.Nodup.map ?_ ((nodup_between _ _).product ((nodup_between _ _).product (nodup_between _ _)))
  rintro ⟨x, y, z⟩ ⟨x', y', z'⟩ h
  simpa using h

/-- The loops of a query, cell by cell. -/
theorem querySphere_eq (m : SpatialInterestManager K) (p : Vec3 K) {radius : K} (hradius : 0 < radius)
    (out : List NetworkId) : m.querySphere p radius out = out ++
      (cellsBetween (m.worldToCell ⟨p.x - radius, p.y - radius, p.z - radius⟩)
        (m.worldToCell ⟨p.x + radius, p.y + radius, p.z + radius⟩)).flatMap fun c =>
          (m.cells.bucket c).filter (m.inSphere p (radius * radius)) := by
  have hproduct : ∀ {α β : Type} (l : List α) (l' : List β), l ×ˢ l' = l.flatMap fun a => l'.map (a, ·) :=
    fun _ _ => rfl
  rw [querySphere, if_neg (not_le.mpr hradius)]
  simp only [cellsBetween, hproduct, List.flatMap_map, List.flatMap_assoc, List.map_flatMap]
  refine congrArg (out ++ ·) (List.flatMap_congr fun cx _ => List.flatMap_congr fun cy _ =>
    List.flatMap_congr fun cz _ => ?_)
  rw [Buckets.bucket]
  cases lookup Prod.fst (⟨cx, cy, cz⟩ : CellCoord) m.cells with
  | none => rfl
  | some e => rfl

/-- The cells that a query visits. -/
def visitedCells (m : SpatialInterestManager K) (p : Vec3 K) (radius : K) : List CellCoord :=
  cellsBetween (m.worldToCell ⟨p.x - radius, p.y - radius, p.z - radius⟩)
    (m.worldToCell ⟨p.x + radius, p.y + radius, p.z + radius⟩)

/-- A query finds what is in range and recorded in a cell that it visits, and each of it once. -/
theorem querySphere_indexed (h : m.cells.Indexed m.homes) (p : Vec3 K) {radius : K} (hradius : 0 < radius) :
    (m.querySphere p radius []).Nodup ∧ ∀ id, id ∈ m.querySphere p radius [] ↔
      ∃ ent, m.findEntity id = some ent ∧ ent.cell ∈ m.visitedCells p radius ∧
        distSq ent.pos p ≤ radius * radius := by
  rw [querySphere_eq m p hradius, List.nil_append]
  refine ⟨h.nodup_flatMap _ (nodup_cellsBetween _ _), fun id => ?_⟩
  rw [h.mem_flatMap]
  cases hent : m.findEntity id with
  | none => simp [homes, hent]
  | some ent => simp [homes, inSphere, hent, visitedCells]

section Distance

variable [IsStrictOrderedRing K]

/-- What is in range of a coordinate is in the cells of its range. -/
theorem floor_between {a b r s : K} (hs : 0 < s) (h : |a - b| ≤ r) :
    ⌊(b - r) / s⌋ ≤ ⌊a / s⌋ ∧ ⌊a / s⌋ ≤ ⌊(b + r) / s⌋ := by
  obtain ⟨hlo, hhi⟩ := abs_le.mp h
  constructor
  · apply Int.floor_le_floor
    exact div_le_div_of_nonneg_right (by linarith) hs.le
  · apply Int.floor_le_floor
    exact div_le_div_of_nonneg_right (by linarith) hs.le

omit [FloorRing K] in
theorem abs_le_of_distSq {p q : Vec3 K} {r : K} (hr : 0 < r) (h : distSq p q ≤ r * r) :
    |p.x - q.x| ≤ r ∧ |p.y - q.y| ≤ r ∧ |p.z - q.z| ≤ r := by
  have hx := mul_self_nonneg (p.x - q.x)
  have hy := mul_self_nonneg (p.y - q.y)
  have hz := mul_self_nonneg (p.z - q.z)
  rw [distSq] at h
  rw [← abs_of_pos hr]
  refine ⟨?_, ?_, ?_⟩
  · exact abs_le_iff_mul_self_le.mpr (by linarith)
  · exact abs_le_iff_mul_self_le.mpr (by linarith)
  · exact abs_le_iff_mul_self_le.mpr (by linarith)

/-- What is in range is in the cells that are visited. -/
theorem worldToCell_mem_visitedCells (hsize : 0 < m.cellSize) {p pos : Vec3 K} {radius : K}
    (hradius : 0 < radius) (hdist : distSq pos p ≤ radius * radius) :
    m.worldToCell pos ∈ m.visitedCells p radius := by
  obtain ⟨hx, hy, hz⟩ := abs_le_of_distSq hradius hdist
  rw [visitedCells, mem_cellsBetween]
  exact ⟨floor_between hsize hx, floor_between hsize hy, floor_between hsize hz⟩

/-- A query finds what a search through all entities finds, and each of it once. -/
theorem querySphere_listed (h : Listed m) (hsize : 0 < m.cellSize) (p : Vec3 K) {radius : K}
    (hradius : 0 < radius) : (m.querySphere p radius []).Nodup ∧
      ∀ id, id ∈ m.querySphere p radius [] ↔
        ∃ pos, m.positions id = some pos ∧ distSq pos p ≤ radius ^ 2 := by
  obtain ⟨hnodup, hmem⟩ := querySphere_indexed h.indexed p hradius
  refine ⟨hnodup, fun id => ?_⟩
  rw [hmem, sq]
  constructor
  · rintro ⟨ent, hent, -, hdist⟩
    exact ⟨ent.pos, by rw [positions, hent]; rfl, hdist⟩
  · rintro ⟨pos, hpos, hdist⟩
    obtain ⟨ent, hent, rfl⟩ := Option.map_eq_some_iff.mp hpos
    refine ⟨ent, hent, ?_, hdist⟩
    rw [h.placed id ent hent]
    exact worldToCell_mem_visitedCells hsize hradius hdist

theorem querySphere_run (cellSize : K) (hsize : 0 < cellSize) (calls : List (Call K)) (p : Vec3 K)
    (radius : K) (hradius : 0 < radius) :
    ((calls.foldl Call.run (new cellSize)).querySphere p radius []).Nodup ∧
      ∀ id, id ∈ (calls.foldl Call.run (new cellSize)).querySphere p radius [] ↔
        ∃ pos, calls.foldl Call.track (fun _ => none) id = some pos ∧ distSq pos p ≤ radius ^ 2 := by
  have hrun := tracks_run calls (listed_new cellSize)
  have hquery := querySphere_listed hrun.listed (hrun.cellSize ▸ hsize) p hradius
  rw [hrun.positions] at hquery
  exact hquery

/-- An entity that is registered again, on the rim of the sphere, at the edge of a cell. -/
theorem querySphere_run_rim : 2 ∈ ([.registerEntity 1 ⟨-1, 0, 0⟩, .registerEntity 2 ⟨5, 5, 5⟩,
    .updateEntity 1 ⟨9, 0, 0⟩, .registerEntity 2 ⟨3, -4, 0⟩].foldl Call.run (new (2 : ℚ))).querySphere
      ⟨0, 0, 0⟩ 5 [] := by
  have hquery := querySphere_run (2 : ℚ) (by norm_num) [.registerEntity 1 ⟨-1, 0, 0⟩,
    .registerEntity 2 ⟨5, 5, 5⟩, .updateEntity 1 ⟨9, 0, 0⟩, .registerEntity 2 ⟨3, -4, 0⟩] ⟨0, 0, 0⟩ 5
    (by norm_num)
  refine (hquery.2 2).mpr ⟨⟨3, -4, 0⟩, rfl, ?_⟩
  norm_num [distSq]

end Distance

end SpatialInterestManager

end CampelloNet.Replication
