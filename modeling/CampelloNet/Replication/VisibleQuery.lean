import CampelloNet.Replication.CellSize

/-!
# The visible query and the filter

Both decide what a client is to see. The filter takes the radius of the client, else that of the entity,
else the default one; the query searches the sphere of the client's radius, else of the default one, and
knows nothing of the entity's. It finds only what is recorded in the cells it visits. Where the two agree is
`queryVisible_isRelevant_iff`.
-/

namespace CampelloNet.Replication.SpatialInterestManager

open Lib

variable {K : Type*} [Field K] [LinearOrder K] [FloorRing K] {m : SpatialInterestManager K}

/-! ### The grid of every run -/

theorem indexed_call (h : m.cells.Indexed m.homes) (call : Call K) :
    (call.run m).cells.Indexed (call.run m).homes := by
  have hclient : ∀ id pos, (m.updateClient id pos).cells.Indexed (m.updateClient id pos).homes := by
    intro id pos
    unfold updateClient
    split
    · exact h
    · exact h
  cases call with
  | registerEntity id pos => exact indexed_register h id pos
  | updateEntity id pos => exact indexed_update h id pos
  | removeEntity id => exact indexed_remove h id
  | setEntityRelevancyRadius id radius => exact indexed_radius h id radius
  | registerClient id pos =>
    unfold Call.run registerClient
    dsimp only
    split
    · exact hclient id pos
    · exact h
  | updateClient id pos => exact hclient id pos
  | removeClient id => exact h
  | setClientViewRadius id radius =>
    unfold Call.run setClientViewRadius
    dsimp only
    split
    · exact h
    · exact h
  | setDefaultRelevancyRadius radius => exact h
  | setMaxEntitiesPerClient max => exact h
  | clear => exact .nil

/-- Each entity is listed once, in the cell that is recorded for it, whatever becomes of the cell size. -/
theorem run_indexed {ok : SpatialInterestManager K → AnyCall K → Prop} {initial : K}
    (hrun : Run step ok (new initial) m) : m.cells.Indexed m.homes := by
  refine hrun.invariant (I := fun m => m.cells.Indexed m.homes) .nil ?_
  rintro m call m' h - hstep
  obtain rfl := Option.some.inj hstep
  cases call with
  | call c => exact indexed_call h c
  | setCellSize cellSize => exact h

/-! ### The radii -/

/-- The radius of the query for a client. -/
def viewRadius (m : SpatialInterestManager K) (cit : ClientEntry K) : K :=
  if cit.radius > 0 then cit.radius else m.defaultRelevancyRadius

/-- The radius of the filter for an entity and a client. -/
def relevancyRadius (m : SpatialInterestManager K) (ent : EntityEntry K) (cit : ClientEntry K) : K :=
  if cit.radius > 0 then cit.radius
  else if ent.radius > 0 then ent.radius else m.defaultRelevancyRadius

omit [FloorRing K] in
theorem isRelevant_iff {client : ClientId} {cit : ClientEntry K} (hclient : m.findClient client = some cit)
    (id : NetworkId) : m.isRelevant id client = true ↔ ∃ ent, m.findEntity id = some ent ∧
      distSq ent.pos cit.pos ≤ m.relevancyRadius ent cit * m.relevancyRadius ent cit := by
  unfold isRelevant getRelevancyRadius relevancyRadius
  rw [hclient]
  rcases m.findEntity id with _ | ent
  · simp
  · simp

theorem queryVisible_eq {client : ClientId} {cit : ClientEntry K}
    (hclient : m.findClient client = some cit) (hmax : m.maxEntitiesPerClient = 0) (out : List NetworkId) :
    m.queryVisible client out = m.querySphere cit.pos (m.viewRadius cit) out := by
  unfold queryVisible viewRadius
  rw [hclient]
  dsimp only
  rw [if_neg (by simp [hmax])]

omit [FloorRing K] in
theorem viewRadius_pos (hdefault : 0 < m.defaultRelevancyRadius) (cit : ClientEntry K) :
    0 < m.viewRadius cit := by
  unfold viewRadius
  split_ifs with hradius
  · exact hradius
  · exact hdefault

/-! ### Where they agree -/

/-- The query for a client visits the cell in which an entity is recorded. -/
def Visits (m : SpatialInterestManager K) (cit : ClientEntry K) (ent : EntityEntry K) : Prop :=
  ent.cell ∈ m.visitedCells cit.pos (m.viewRadius cit)

/-- The default radius and the entity's own say the same of an entity. -/
def SameReach (m : SpatialInterestManager K) (cit : ClientEntry K) (ent : EntityEntry K) : Prop :=
  distSq ent.pos cit.pos ≤ ent.radius * ent.radius ↔
    distSq ent.pos cit.pos ≤ m.defaultRelevancyRadius * m.defaultRelevancyRadius

structure Agrees (m : SpatialInterestManager K) (cit : ClientEntry K) : Prop where
  /-- what is within its relevancy radius is recorded in a cell that is visited -/
  visits : ∀ id, ∀ ent ∈ m.findEntity id,
    distSq ent.pos cit.pos ≤ m.relevancyRadius ent cit * m.relevancyRadius ent cit → m.Visits cit ent
  /-- no radius of an entity matters for a client that has none -/
  reach : ¬0 < cit.radius → ∀ id, ∀ ent ∈ m.findEntity id, 0 < ent.radius → m.Visits cit ent →
    m.SameReach cit ent

/-- For one entity: it is found exactly if it is relevant. -/
theorem found_iff_relevant {cit : ClientEntry K} {ent : EntityEntry K} :
    (m.Visits cit ent ∧ distSq ent.pos cit.pos ≤ m.viewRadius cit * m.viewRadius cit ↔
        distSq ent.pos cit.pos ≤ m.relevancyRadius ent cit * m.relevancyRadius ent cit) ↔
      (distSq ent.pos cit.pos ≤ m.relevancyRadius ent cit * m.relevancyRadius ent cit →
        m.Visits cit ent) ∧
      (¬0 < cit.radius → 0 < ent.radius → m.Visits cit ent → m.SameReach cit ent) := by
  unfold viewRadius relevancyRadius SameReach
  by_cases hclient : 0 < cit.radius
  · simp only [gt_iff_lt, hclient, if_true]
    tauto
  · by_cases hentity : 0 < ent.radius
    · simp only [gt_iff_lt, hclient, hentity, if_true, if_false]
      tauto
    · simp only [gt_iff_lt, hclient, hentity, if_false]
      tauto

/-- In every state that the calls of a manager lead to, the query for a client finds exactly the entities
that its filter lets pass if and only if those are recorded in cells that it visits, and, if the client has
no radius of its own, no entity there is between its own radius and the default one. -/
theorem queryVisible_isRelevant_iff (initial : K) (m : SpatialInterestManager K)
    (hrun : Run step (fun _ _ => True) (new initial) m) (hmax : m.maxEntitiesPerClient = 0)
    (hdefault : 0 < m.defaultRelevancyRadius) (client : ClientId) (cit : ClientEntry K)
    (hclient : m.findClient client = some cit) :
    ((m.queryVisible client []).Nodup ∧
      ∀ id, id ∈ m.queryVisible client [] ↔ m.isRelevant id client = true) ↔ m.Agrees cit := by
  obtain ⟨hnodup, hfound⟩ := querySphere_indexed (run_indexed hrun) cit.pos (viewRadius_pos hdefault cit)
  rw [queryVisible_eq hclient hmax, and_iff_right hnodup]
  simp only [hfound, isRelevant_iff hclient]
  constructor
  · intro hsame
    have hone : ∀ id, ∀ ent ∈ m.findEntity id,
        (distSq ent.pos cit.pos ≤ m.relevancyRadius ent cit * m.relevancyRadius ent cit →
          m.Visits cit ent) ∧
        (¬0 < cit.radius → 0 < ent.radius → m.Visits cit ent → m.SameReach cit ent) := by
      intro id ent hent
      have hid := hsame id
      rw [Option.mem_def.mp hent] at hid
      simp only [Option.some.injEq, exists_eq_left'] at hid
      exact found_iff_relevant.mp hid
    exact ⟨fun id ent hent => (hone id ent hent).1,
      fun hradius id ent hent => (hone id ent hent).2 hradius⟩
  · intro hagrees id
    rcases hent : m.findEntity id with _ | ent
    · simp
    · simp only [Option.some.injEq, exists_eq_left']
      exact found_iff_relevant.mpr
        ⟨hagrees.visits id ent hent, fun hradius => hagrees.reach hradius id ent hent⟩

/-- On a grid of the current cell size it is only the radii of the entities that can differ. -/
theorem agrees_iff_of_listed [IsStrictOrderedRing K] (h : Listed m) (hsize : 0 < m.cellSize)
    (hdefault : 0 < m.defaultRelevancyRadius) (cit : ClientEntry K) : m.Agrees cit ↔
      (¬0 < cit.radius → ∀ id, ∀ ent ∈ m.findEntity id, 0 < ent.radius → m.SameReach cit ent) := by
  have hvisits : ∀ id, ∀ ent ∈ m.findEntity id,
      distSq ent.pos cit.pos ≤ m.viewRadius cit * m.viewRadius cit → m.Visits cit ent := by
    intro id ent hent hdist
    rw [Visits, h.placed id ent hent]
    exact worldToCell_mem_visitedCells hsize (viewRadius_pos hdefault cit) hdist
  constructor
  · intro hagrees hclient id ent hent hentity
    have hvisit := hvisits id ent hent
    have hrelevant := hagrees.visits id ent hent
    have hreach := hagrees.reach hclient id ent hent hentity
    simp only [viewRadius, relevancyRadius, gt_iff_lt, hclient, hentity, if_true, if_false]
      at hvisit hrelevant
    unfold SameReach at hreach ⊢
    exact ⟨fun hown => (hreach (hrelevant hown)).mp hown,
      fun hdefaults => (hreach (hvisit hdefaults)).mpr hdefaults⟩
  · intro hsame
    refine ⟨fun id ent hent hrelevant => hvisits id ent hent ?_,
      fun hclient id ent hent hentity _ => hsame hclient id ent hent hentity⟩
    unfold relevancyRadius at hrelevant
    unfold viewRadius
    split_ifs at hrelevant ⊢ with hclient hentity
    · exact hrelevant
    · exact (hsame hclient id ent hent hentity).mp hrelevant
    · exact hrelevant

/-! ### An entity with a radius -/

instance (cit : ClientEntry K) (ent : EntityEntry K) : Decidable (m.Visits cit ent) :=
  inferInstanceAs (Decidable (_ ∈ _))

instance (cit : ClientEntry K) (ent : EntityEntry K) : Decidable (m.SameReach cit ent) :=
  inferInstanceAs (Decidable (_ ↔ _))

theorem agrees_of_forall {cit : ClientEntry K}
    (hvisits : ∀ ent ∈ m.entities,
      distSq ent.pos cit.pos ≤ m.relevancyRadius ent cit * m.relevancyRadius ent cit → m.Visits cit ent)
    (hreach : ∀ ent ∈ m.entities, 0 < ent.radius → m.SameReach cit ent) : m.Agrees cit :=
  ⟨fun _ ent hent => hvisits ent (lookup_mem hent),
    fun _ _ ent hent hentity _ => hreach ent (lookup_mem hent) hentity⟩

/-- A client at the origin, an entity near it and one further away, with the given radius. -/
def twoEntities (radius : ℚ) : SpatialInterestManager ℚ :=
  [Call.registerClient 7 ⟨0, 0, 0⟩, .registerEntity 1 ⟨10, 0, 0⟩, .registerEntity 2 ⟨600, 0, 0⟩,
    .setEntityRelevancyRadius 2 radius].foldl Call.run (new 100)

theorem run_calls (calls : List (Call K)) (m : SpatialInterestManager K) :
    Run step (fun _ _ => True) m (calls.foldl Call.run m) := by
  induction calls generalizing m with
  | nil => exact .refl m
  | cons call calls ih =>
    have hfirst : Run step (fun _ _ => True) m (call.run m) := .single (l := .call call) trivial rfl
    exact hfirst.trans (ih (call.run m))

theorem queryVisible_isRelevant_near : ((twoEntities 50).queryVisible 7 []).Nodup ∧
    ∀ id, id ∈ (twoEntities 50).queryVisible 7 [] ↔ (twoEntities 50).isRelevant id 7 = true := by
  apply (queryVisible_isRelevant_iff 100 (twoEntities 50) (run_calls _ _) rfl (by decide +kernel) 7
    ⟨7, ⟨0, 0, 0⟩, 0⟩ rfl).mpr
  exact agrees_of_forall (by decide +kernel) (by decide +kernel)

/-- The query for a client finds what its filter lets pass. -/
def AlwaysAgree : Prop :=
  ∀ (initial : ℚ) (m : SpatialInterestManager ℚ), 0 < initial →
    Run step (fun _ _ => True) (new initial) m → m.maxEntitiesPerClient = 0 →
    0 < m.defaultRelevancyRadius → ∀ client, (m.findClient client).isSome →
    ∀ id, id ∈ m.queryVisible client [] ↔ m.isRelevant id client = true

/-- An entity that is to be seen from further away than the default radius. -/
theorem not_alwaysAgree : ¬AlwaysAgree := by
  intro h
  have hsame := h 100 (twoEntities 1000) (by norm_num) (run_calls _ _) rfl (by decide +kernel) 7 rfl 2
  revert hsame
  decide +kernel

end CampelloNet.Replication.SpatialInterestManager
