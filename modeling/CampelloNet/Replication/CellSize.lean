import CampelloNet.Lib.Run
import CampelloNet.Replication.SpatialQueries
import Mathlib.Tactic.FieldSimp

/-!
# Changing the cell size

`set_cell_size` lists no entity anew: each stays in the cell that it was given under the old size, while
the queries visit the cells of the new one. Hence queries find with the new size what they find with the
old one, from there on in every run, exactly if all entities are where the new size puts them
(`setCellSize_same_iff`).
-/

namespace CampelloNet.Replication.SpatialInterestManager

open Lib

variable {K : Type*} [Field K] [LinearOrder K] [FloorRing K] {m m' : SpatialInterestManager K}

/-- A call of a manager, the cell size included. -/
inductive AnyCall (K : Type*) where
  | call (call : Call K)
  | setCellSize (cellSize : K)

def AnyCall.run (m : SpatialInterestManager K) : AnyCall K → SpatialInterestManager K
  | call c => c.run m
  | setCellSize cellSize => m.setCellSize cellSize

def step (m : SpatialInterestManager K) (call : AnyCall K) : Option (SpatialInterestManager K) :=
  some (call.run m)

/-- Every entity is recorded in the cell that a cell size puts it in. -/
def InPlace (cellSize : K) (m : SpatialInterestManager K) : Prop :=
  ∀ id, ∀ ent ∈ m.findEntity id, ent.cell = (m.setCellSize cellSize).worldToCell ent.pos

/-- The cell size is changed only to one that leaves the entities in place. -/
def AnyCall.Fits (m : SpatialInterestManager K) : AnyCall K → Prop
  | call _ => True
  | setCellSize cellSize => 0 < cellSize ∧ m.InPlace cellSize

def FindsSame (m m' : SpatialInterestManager K) : Prop :=
  ∀ (calls : List (Call K)) (p : Vec3 K) (radius : K) (id : NetworkId),
    id ∈ (calls.foldl Call.run m').querySphere p radius [] ↔
      id ∈ (calls.foldl Call.run m).querySphere p radius []

/-! ### The grid under another cell size -/

theorem Listed.setCellSize (h : Listed m) {cellSize : K} (hplace : m.InPlace cellSize) :
    Listed (m.setCellSize cellSize) :=
  ⟨h.indexed, hplace⟩

theorem run_listed {initial : K} (hinitial : 0 < initial) (hrun : Run step AnyCall.Fits (new initial) m) :
    Listed m ∧ 0 < m.cellSize := by
  refine hrun.invariant (I := fun m => Listed m ∧ 0 < m.cellSize) ⟨listed_new initial, hinitial⟩ ?_
  rintro m call m' ⟨hlisted, hsize⟩ hfits hstep
  obtain rfl := Option.some.inj hstep
  cases call with
  | call c =>
    have htracks := tracks_call hlisted c
    exact ⟨htracks.listed, htracks.cellSize.symm ▸ hsize⟩
  | setCellSize cellSize => exact ⟨hlisted.setCellSize hfits.2, hfits.1⟩

section Distance

variable [IsStrictOrderedRing K]

theorem mem_querySphere_congr (h : Listed m) (h' : Listed m') (hsize : 0 < m.cellSize)
    (hsize' : 0 < m'.cellSize) (hpositions : m'.positions = m.positions) (p : Vec3 K) (radius : K)
    (id : NetworkId) : id ∈ m'.querySphere p radius [] ↔ id ∈ m.querySphere p radius [] := by
  by_cases hradius : 0 < radius
  · rw [(querySphere_listed h hsize p hradius).2, (querySphere_listed h' hsize' p hradius).2, hpositions]
  · rw [querySphere, querySphere, if_pos (not_lt.mp hradius), if_pos (not_lt.mp hradius)]

theorem findsSame_setCellSize (h : Listed m) (hsize : 0 < m.cellSize) {cellSize : K}
    (hcellSize : 0 < cellSize) (hplace : m.InPlace cellSize) : FindsSame m (m.setCellSize cellSize) := by
  intro calls p radius id
  have hrun := tracks_run calls h
  have hrun' := tracks_run calls (h.setCellSize hplace)
  apply mem_querySphere_congr hrun.listed hrun'.listed
  · rw [hrun.cellSize]
    exact hsize
  · rw [hrun'.cellSize]
    exact hcellSize
  · exact hrun'.positions.trans hrun.positions.symm

theorem exists_step (a : K) {cellSize : K} (hsize : 0 < cellSize) :
    ∃ r, 0 < r ∧ ⌊(a + r + r) / cellSize⌋ = ⌊a / cellSize⌋ := by
  have hupper : a < (⌊a / cellSize⌋ + 1) * cellSize := by
    rw [← div_lt_iff₀ hsize]
    exact Int.lt_floor_add_one _
  refine ⟨((⌊a / cellSize⌋ + 1) * cellSize - a) / 3, by linarith, ?_⟩
  have hlower : ⌊a / cellSize⌋ * cellSize ≤ a := by
    rw [← le_div_iff₀ hsize]
    exact Int.floor_le _
  rw [Int.floor_eq_iff, le_div_iff₀ hsize, div_lt_iff₀ hsize]
  constructor
  · linarith
  · linarith


/-- If queries find the same, an entity is recorded in a cell that every query in its range visits. -/
theorem visited_of_findsSame (h : Listed m) (hsize : 0 < m.cellSize) {cellSize : K}
    (hsame : FindsSame m (m.setCellSize cellSize)) {id : NetworkId} {ent : EntityEntry K}
    (hent : m.findEntity id = some ent) {p : Vec3 K} {r : K} (hr : 0 < r)
    (hdist : distSq ent.pos p ≤ r * r) : ent.cell ∈ (m.setCellSize cellSize).visitedCells p r := by
  have hfound : id ∈ m.querySphere p r [] := by
    apply ((querySphere_listed h hsize p hr).2 id).mpr
    refine ⟨ent.pos, ?_, ?_⟩
    · rw [positions, hent]
      rfl
    · rw [sq]
      exact hdist
  have hindexed : (m.setCellSize cellSize).cells.Indexed (m.setCellSize cellSize).homes := h.indexed
  have hfound' := (hsame [] p r id).mpr hfound
  obtain ⟨ent', hent', hvisited, -⟩ := ((querySphere_indexed hindexed p hr).2 id).mp hfound'
  have hsome : some ent' = some ent := hent'.symm.trans hent
  cases hsome
  exact hvisited

/-- A query one step away, along each axis, visits the cell that the entity is to be in and no other on
this axis. -/
theorem inPlace_of_findsSame (h : Listed m) (hsize : 0 < m.cellSize) {cellSize : K}
    (hcellSize : 0 < cellSize) (hsame : FindsSame m (m.setCellSize cellSize)) : m.InPlace cellSize := by
  intro id ent hent
  obtain ⟨rx, hrx, hx⟩ := exists_step ent.pos.x hcellSize
  obtain ⟨ry, hry, hy⟩ := exists_step ent.pos.y hcellSize
  obtain ⟨rz, hrz, hz⟩ := exists_step ent.pos.z hcellSize
  have hvx : ent.cell ∈ (m.setCellSize cellSize).visitedCells
      ⟨ent.pos.x + rx, ent.pos.y, ent.pos.z⟩ rx := by
    apply visited_of_findsSame h hsize hsame hent hrx
    apply le_of_eq
    rw [distSq]
    ring
  have hvy : ent.cell ∈ (m.setCellSize cellSize).visitedCells
      ⟨ent.pos.x, ent.pos.y + ry, ent.pos.z⟩ ry := by
    apply visited_of_findsSame h hsize hsame hent hry
    apply le_of_eq
    rw [distSq]
    ring
  have hvz : ent.cell ∈ (m.setCellSize cellSize).visitedCells
      ⟨ent.pos.x, ent.pos.y, ent.pos.z + rz⟩ rz := by
    apply visited_of_findsSame h hsize hsame hent hrz
    apply le_of_eq
    rw [distSq]
    ring
  rw [visitedCells, mem_cellsBetween] at hvx hvy hvz
  obtain ⟨⟨hxlo, hxhi⟩, -⟩ := hvx
  obtain ⟨-, ⟨hylo, hyhi⟩, -⟩ := hvy
  obtain ⟨-, -, hzlo, hzhi⟩ := hvz
  simp only [worldToCell, setCellSize, add_sub_cancel_right, hx, hy, hz] at hxlo hxhi hylo hyhi hzlo hzhi
  have hcell : ∀ c : CellCoord, ∀ x y z, c.x = x → c.y = y → c.z = z → c = ⟨x, y, z⟩ := by
    rintro ⟨x, y, z⟩ _ _ _ rfl rfl rfl
    rfl
  apply hcell
  · exact le_antisymm hxhi hxlo
  · exact le_antisymm hyhi hylo
  · exact le_antisymm hzhi hzlo

/-- After a run that has changed the cell size to fitting ones only, another change of it alters what some
later query finds if and only if it does not leave every entity in its cell. -/
theorem setCellSize_same_iff (initial : K) (hinitial : 0 < initial) (m : SpatialInterestManager K)
    (hrun : Run step AnyCall.Fits (new initial) m) (cellSize : K) (hcellSize : 0 < cellSize) :
    FindsSame m (m.setCellSize cellSize) ↔ m.InPlace cellSize := by
  obtain ⟨hlisted, hsize⟩ := run_listed hinitial hrun
  constructor
  · exact inPlace_of_findsSame hlisted hsize hcellSize
  · exact findsSame_setCellSize hlisted hsize hcellSize

end Distance

/-! ### Two changes -/

theorem inPlace_of_forall {cellSize : K}
    (h : ∀ ent ∈ m.entities, ent.cell = (m.setCellSize cellSize).worldToCell ent.pos) :
    m.InPlace cellSize := fun _ ent hent => h ent (lookup_mem hent)

def nearOrigin : SpatialInterestManager ℚ :=
  [AnyCall.call (.registerEntity 1 ⟨30, 0, 0⟩), .setCellSize 50,
    .call (.registerEntity 2 ⟨-10, 0, 0⟩)].foldl AnyCall.run (new 100)

theorem setCellSize_same_nearOrigin : FindsSame nearOrigin (nearOrigin.setCellSize 40) := by
  have hfits : ((new (100 : ℚ)).registerEntity 1 ⟨30, 0, 0⟩).InPlace 50 :=
    inPlace_of_forall (by decide +kernel)
  have hfirst : Run step AnyCall.Fits (new (100 : ℚ)) ((new 100).registerEntity 1 ⟨30, 0, 0⟩) :=
    .single (l := .call (.registerEntity 1 ⟨30, 0, 0⟩)) trivial rfl
  have hsecond : Run step AnyCall.Fits (new (100 : ℚ))
      (((new 100).registerEntity 1 ⟨30, 0, 0⟩).setCellSize 50) :=
    hfirst.snoc (l := .setCellSize 50) ⟨by norm_num, hfits⟩ rfl
  have hrun : Run step AnyCall.Fits (new (100 : ℚ)) nearOrigin :=
    hsecond.snoc (l := .call (.registerEntity 2 ⟨-10, 0, 0⟩)) trivial rfl
  apply (setCellSize_same_iff 100 (by norm_num) nearOrigin hrun 40 (by norm_num)).mpr
  exact inPlace_of_forall (by decide +kernel)

def AlwaysFindsSame : Prop :=
  ∀ (initial : ℚ) (m : SpatialInterestManager ℚ), 0 < initial →
    Run step (fun _ call => ∀ cellSize, call = .setCellSize cellSize → 0 < cellSize) (new initial) m →
    ∀ cellSize, 0 < cellSize → FindsSame m (m.setCellSize cellSize)

theorem not_alwaysFindsSame : ¬AlwaysFindsSame := by
  intro h
  have hrun : Run step (fun _ call => ∀ cellSize, call = .setCellSize cellSize → 0 < cellSize)
      (new (100 : ℚ)) ((new 100).registerEntity 1 ⟨150, 0, 0⟩) :=
    .single (l := .call (.registerEntity 1 ⟨150, 0, 0⟩)) (fun _ hcall => by cases hcall) rfl
  have hsame := h 100 _ (by norm_num) hrun 10 (by norm_num) [] ⟨150, 0, 0⟩ 5 1
  revert hsame
  decide +kernel

end CampelloNet.Replication.SpatialInterestManager
