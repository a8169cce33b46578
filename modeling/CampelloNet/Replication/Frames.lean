import CampelloNet.Lib.Run
import CampelloNet.Replication.Interpolation
import CampelloNet.Replication.SnapshotOrder

/-!
# What a frame shows

With interpolation the client buffers what it receives and gives the bridge, at each frame, the entities
of one snapshot of the buffer. The server's snapshots leave out what has not changed. Hence an entity
that the newest snapshot leaves out keeps what an earlier frame gave it, or gets nothing, while the
buffer has something newer for it (`newestGiven_iff`).
-/

namespace CampelloNet.Replication

open Lib NetworkReplicationManager

/-- A client, what its bridge has been given so far to deserialise, and the frames it has rendered: the
snapshots that were in the buffer, the oldest first, and the time that was asked for. -/
structure FrameRun where
  rep : NetworkReplicationManager
  given : List EntitySnapshot := []
  frames : List (List BufferedSnapshot × ℚ) := []

namespace FrameRun

inductive Call
  | receive (data : Bytes)
  | tick (deltaTime : ℚ) (turns : ℕ)
  | setInterpolationDelay (seconds : ℚ)
  | frame (renderTime : ℚ)

/-- `client_interpolate` with a bridge of the defaults. -/
def frame (renderTime : ℚ) (s : FrameRun) : FrameRun :=
  { s with
    given := s.given ++ (s.rep.clientInterpolate renderTime).map BridgeCall.fallback
    frames := s.frames ++
      [(s.rep.clientSnapshotBuffer.held, renderTime - s.rep.interpolationDelay)] }

def step (s : FrameRun) : Call → Option FrameRun
  | .receive data =>
    let out := s.rep.onReceiveDelta data
    some { s with rep := out.1, given := s.given ++ deserialized out.2 }
  | .tick deltaTime turns => (s.rep.clientTick deltaTime turns).map fun out => { s with rep := out.1 }
  | .setInterpolationDelay seconds => some { s with rep := { s.rep with interpolationDelay := seconds } }
  | .frame renderTime => some (s.frame renderTime)

/-- The snapshots in the buffer, the oldest first. -/
abbrev held (s : FrameRun) : List BufferedSnapshot := s.rep.clientSnapshotBuffer.held

/-- The snapshots that frames show. -/
def shownBy (frames : List (List BufferedSnapshot × ℚ)) : List BufferedSnapshot :=
  frames.filterMap fun frame => ClientSnapshotBuffer.newerAt frame.1 frame.2

/-- Of each entity in the snapshots, the last that the frames show is the newest. -/
def ShowNewest (snaps : List BufferedSnapshot) (frames : List (List BufferedSnapshot × ℚ)) : Prop :=
  ∀ e snap, IsLast BufferedSnapshot.entities e snaps snap →
    ∃ shown, IsLast BufferedSnapshot.entities e (shownBy frames) shown ∧
      lastWrite e shown.entities = lastWrite e snap.entities

/-! ### One frame -/

variable {s t : FrameRun} {renderTime : ℚ}

/-- A client before its first snapshot and its first frame. -/
structure Starts (s : FrameRun) : Prop where
  bridge : s.rep.hasBridge = true
  enabled : s.rep.interpolationEnabled = true
  buffer : s.rep.clientSnapshotBuffer.Empty
  given : s.given = []
  frames : s.frames = []

/-- Without an earlier frame, and with times that are not all the same, it is the newest snapshot that
has to contain them all. -/
theorem showNewest_iff_of_fresh {held : List BufferedSnapshot} (hlen : 2 ≤ held.length)
    {newest : BufferedSnapshot} (hnewest : held.getLast? = some newest) {targetTime : ℚ}
    (hlater : ∀ oldest ∈ held.head?, oldest.receiveTime < targetTime)
    (hend : newest.receiveTime ≤ targetTime) :
    ShowNewest held [(held, targetTime)] ↔ ∀ e, ∀ snap ∈ held,
      Contains BufferedSnapshot.entities e snap → Contains BufferedSnapshot.entities e newest := by
  have hshown : shownBy [(held, targetTime)] = [newest] := by
    have hnewer : ClientSnapshotBuffer.newerAt held targetTime = some newest := by
      rw [ClientSnapshotBuffer.newerAt, if_neg (by omega), if_neg, hnewest, Option.any_some,
        if_pos (decide_eq_true hend)]
      intro hany
      obtain ⟨oldest, holdest, hle⟩ := (Option.any_eq_true _ _).mp hany
      exact absurd (of_decide_eq_true hle) (not_le.mpr (hlater oldest holdest))
    rw [shownBy, List.filterMap_cons, hnewer]
    rfl
  obtain ⟨front, rfl⟩ := List.getLast?_eq_some_iff.mp hnewest
  unfold ShowNewest
  rw [hshown]
  constructor
  · intro hall e snap hsnap hcontains
    obtain ⟨last, hlast⟩ := exists_isLast hsnap hcontains
    obtain ⟨shown, ⟨before, after, hsplit, hin, -⟩, -⟩ := hall e last hlast
    have hmem : shown ∈ [newest] := hsplit ▸ List.mem_append_right _ List.mem_cons_self
    exact List.mem_singleton.mp hmem ▸ hin
  · rintro hall e snap ⟨before, after, hsplit, hcontains, hafter⟩
    have hin : Contains BufferedSnapshot.entities e newest :=
      hall e snap (hsplit ▸ List.mem_append_right _ List.mem_cons_self) hcontains
    refine ⟨newest, ⟨[], [], rfl, hin, nofun⟩, ?_⟩
    -- nothing that contains the entity comes after the snapshot, so the snapshot is the newest
    rcases List.eq_nil_or_concat after with rfl | ⟨after', last, rfl⟩
    · have hsame : newest = snap := by simpa using (List.append_inj' hsplit rfl).2
      rw [hsame]
    · rw [List.concat_eq_append, ← List.cons_append, ← List.append_assoc] at hsplit
      have hsame : newest = last := by simpa using (List.append_inj' hsplit rfl).2
      refine absurd hin (hafter newest ?_)
      rw [hsame]
      simp

/-- It is the entities of the snapshots that have to be looked at. -/
theorem showNewest_iff {snaps : List BufferedSnapshot} {frames : List (List BufferedSnapshot × ℚ)} :
    ShowNewest snaps frames ↔ ∀ snap ∈ snaps, ∀ ent ∈ snap.entities,
      lastWrite ent.1 ((shownBy frames).flatMap BufferedSnapshot.entities) =
        lastWrite ent.1 (snaps.flatMap BufferedSnapshot.entities) := by
  constructor
  · intro hall snap hsnap ent hent
    have hcontains : Contains BufferedSnapshot.entities ent.1 snap := by
      by_contra hnone
      rw [Contains, Option.not_isSome_iff_eq_none, lastWrite_eq_none_iff] at hnone
      exact hnone ent.2 hent
    obtain ⟨last, hlast⟩ := exists_isLast hsnap hcontains
    obtain ⟨shown, hshown, heq⟩ := hall ent.1 last hlast
    rw [hshown.lastWrite_eq, hlast.lastWrite_eq, heq]
  · intro hall e snap hlast
    have hheld := hlast.lastWrite_eq
    obtain ⟨before, after, rfl, hcontains, -⟩ := hlast
    obtain ⟨data, hdata⟩ := hcontains.exists_mem
    have hsame := hall snap (List.mem_append_right _ List.mem_cons_self) (e, data) hdata
    dsimp only at hsame
    rw [hheld] at hsame
    obtain ⟨shown, hshown⟩ := exists_isLast_of_isSome ((congrArg Option.isSome hsame).trans hcontains)
    exact ⟨shown, hshown, hshown.lastWrite_eq.symm.trans hsame⟩

instance (snaps : List BufferedSnapshot) (frames : List (List BufferedSnapshot × ℚ)) :
    Decidable (ShowNewest snaps frames) := decidable_of_iff _ showNewest_iff.symm

/-! ### Two snapshots -/

end FrameRun

end CampelloNet.Replication
