import CampelloNet.Manager.Calls
import CampelloNet.NetworkClock
import CampelloNet.Replication.Server
import CampelloNet.Replication.SnapshotOrder

/-!
# Do the tick loops end?

Three loops take an interval from an accumulator until less than one is left: that of the clock, of
`server_tick` and of `client_tick`. The rate that the interval comes from is not checked. The clock takes
an interval of 0 for a rate that is not positive, the other two divide by any rate; and in the arithmetic
of the machine an accumulator that is too large beside the interval is left as it is. `ticks_end_iff` says
when each of the loops ends.
-/

namespace CampelloNet

open Lib Transport FloatFormat

namespace NetworkReplicationManager

def setTickRate (hz : ℚ) (rep : NetworkReplicationManager) : NetworkReplicationManager :=
  { rep with tickRate := hz }

variable {rep : NetworkReplicationManager}

theorem clock_buildAndSendSnapshot (env : TickEnv) (rep : NetworkReplicationManager) :
    (rep.buildAndSendSnapshot env).1.tickRate = rep.tickRate ∧
      (rep.buildAndSendSnapshot env).1.accumulator = rep.accumulator := by
  unfold buildAndSendSnapshot
  split_ifs <;> exact ⟨rfl, rfl⟩

/-- What the snapshots hold does not matter. -/
theorem isSome_serverTickLoop (envs : List TickEnv) : (rep.serverTickLoop envs).isSome ↔
    Over (targetDt rep.tickRate ≤ ·) (binary32.sub · (targetDt rep.tickRate)) rep.accumulator
      envs.length := by
  induction envs generalizing rep with
  | nil =>
    rw [List.length_nil, over_zero, serverTickLoop]
    split_ifs with hdue <;> simp [hdue]
  | cons env envs ih =>
    rw [serverTickLoop]
    by_cases hdue : targetDt rep.tickRate ≤ rep.accumulator
    · obtain ⟨hrate, hacc⟩ := clock_buildAndSendSnapshot env
        { rep with
          accumulator := binary32.sub rep.accumulator (targetDt rep.tickRate)
          snapshotId := rep.snapshotId + 1 }
      rw [if_pos hdue]
      dsimp only
      rw [Option.isSome_map, ih, hrate, hacc, List.length_cons]
      exact (over_succ hdue).symm
    · rw [if_neg hdue]
      exact iff_of_true rfl (over_of_not hdue _)

theorem isSome_serverTick (deltaTime : ℚ) (envs : List TickEnv) :
    (rep.serverTick deltaTime envs).isSome ↔ (rep.hasBridge →
      Over (targetDt rep.tickRate ≤ ·) (binary32.sub · (targetDt rep.tickRate))
        (binary32.add rep.accumulator (.finite deltaTime)) envs.length) := by
  unfold serverTick
  split_ifs with hbridge
  · rw [isSome_serverTickLoop]
    simp [hbridge]
  · simp [hbridge]

/-- A positive interval lets the loops end from up to 2²³ intervals. -/
theorem ends_of_le {hz interval x : ℚ} (hdt : targetDt hz = .finite interval) (hpos : 0 < interval)
    (hle : x ≤ 2 ^ 23 * interval) : binary32.Ends (targetDt hz) (.finite x) := by
  have hfits : binary32.Fits (targetDt hz) := by
    unfold targetDt inverse
    split_ifs
    · exact trivial
    · exact fits_value _
  rw [hdt] at hfits ⊢
  exact FloatFormat.ends_of_le hfits.1 hpos (by simpa [binary32] using hle)

end NetworkReplicationManager

namespace NetworkClock

/-- The loop of `advance` comes to an end. -/
def AdvanceEnds (deltaTime : ℚ) (clock : NetworkClock) : Prop :=
  ∃ turns, ((clock.add .ieee deltaTime).advanceLoop .ieee turns).isSome

variable {interval : ℚ}

theorem isSome_advanceLoop (clock : NetworkClock) (turns : ℕ) :
    (clock.advanceLoop .ieee turns).isSome ↔ Over (Due .ieee clock.tickInterval)
      (fun x => binary64.round (x - clock.tickInterval)) clock.accumulator turns := by
  induction turns generalizing clock with
  | zero =>
    rw [over_zero, advanceLoop]
    split_ifs with hdue <;> simp [hdue]
  | succ turns ih =>
    rw [advanceLoop]
    by_cases hdue : Due .ieee clock.tickInterval clock.accumulator
    · rw [if_pos hdue]
      exact (ih _).trans (over_succ hdue).symm
    · rw [if_neg hdue]
      exact iff_of_true rfl (over_of_not hdue _)

theorem holds_tolerance : binary64.Holds (Arith.ieee.double TOLERANCE) := holds_round _

theorem Due.mono {x y : ℚ} (h : x ≤ y) (hdue : Due .ieee interval x) : Due .ieee interval y :=
  hdue.trans (round_mono (by linarith))

/-- The tolerance lets the accumulator get below 0, but not far. -/
theorem Due.low {x : ℚ} (hinterval : 0 ≤ interval) (hdue : Due .ieee interval x) : -2 ≤ x := by
  have hone : binary64.Holds 1 := by
    simpa using holds_of_abs_le (f := binary64) (m := 1) (k := 0) (by decide) (by decide)
  have hminus : binary64.Holds (-1) := by
    simpa using holds_of_abs_le (f := binary64) (m := -1) (k := 0) (by decide) (by decide)
  have htolerance : Arith.ieee.double TOLERANCE ≤ 1 := round_le hone (by norm_num [TOLERANCE])
  by_contra hlt
  have hneg : binary64.round (x + Arith.ieee.double TOLERANCE) ≤ -1 := round_le hminus (by linarith)
  have hpos : 0 ≤ binary64.round (x + Arith.ieee.double TOLERANCE) := hinterval.trans hdue
  linarith

theorem tickInterval_nonneg (clock : NetworkClock) (hz : ℚ) :
    0 ≤ (clock.setTickRate .ieee hz).tickInterval := by
  show 0 ≤ if hz > 0 then binary64.round (1 / hz) else 0
  split_ifs with hpos
  · exact round_nonneg (by positivity)
  · exact le_rfl

/-- It ends unless there is a number on the way at which a tick is due and which is left as it is when the
interval is taken out. -/
theorem advanceEnds_iff (clock : NetworkClock) (hz deltaTime : ℚ) :
    (clock.setTickRate .ieee hz).AdvanceEnds deltaTime ↔
      ∀ y, binary64.Holds y → y ≤ binary64.round (clock.accumulator + deltaTime) →
        Due .ieee (clock.setTickRate .ieee hz).tickInterval y →
          binary64.round (y - (clock.setTickRate .ieee hz).tickInterval) ≠ y := by
  unfold AdvanceEnds
  simp only [isSome_advanceLoop]
  have hinterval := tickInterval_nonneg clock hz
  exact exists_over_iff hinterval Due.mono (Due.low hinterval) (holds_round _)

/-- With an interval above the tolerance it ends from up to 2⁵² intervals. -/
theorem advanceEnds_of_le (clock : NetworkClock) {hz deltaTime : ℚ} (hhz : 0 < hz)
    (htolerance : Arith.ieee.double TOLERANCE < binary64.round (1 / hz))
    (hle : binary64.round (clock.accumulator + deltaTime) ≤ 2 ^ 52 * binary64.round (1 / hz)) :
    (clock.setTickRate .ieee hz).AdvanceEnds deltaTime := by
  have hsame : (clock.setTickRate .ieee hz).tickInterval = binary64.round (1 / hz) := if_pos hhz
  have hpos : 0 < binary64.round (1 / hz) := (round_nonneg (by norm_num [TOLERANCE])).trans_lt htolerance
  rw [advanceEnds_iff, hsame]
  intro y hy hyle hdue hstuck
  rcases le_or_gt (binary64.round (1 / hz)) y with hge | hlt
  · exact (round_sub_lt hy (holds_round _) hpos hge (hyle.trans (by simpa [binary64] using hle))).ne hstuck
  · -- nothing is due from below 0, and from above 0 the step leads there
    have hnonneg : 0 ≤ y := by
      by_contra hneg
      have hround : binary64.round (y + Arith.ieee.double TOLERANCE) ≤ Arith.ieee.double TOLERANCE :=
        round_le holds_tolerance (by linarith)
      have hbelow := hdue.trans hround
      linarith
    have hdown : binary64.round (y - binary64.round (1 / hz)) ≤ 0 := round_le holds_zero (by linarith)
    obtain rfl : y = 0 := le_antisymm (hstuck ▸ hdown) hnonneg
    rw [zero_sub, round_neg, round_round] at hstuck
    linarith

end NetworkClock

namespace NetworkManager

variable {σ : Type} (T : ℕ → ITransport σ)

/-- `server_tick` comes to an end, whatever it is answered in each of its turns. -/
def ServerTickEnds (deltaTime : ℚ) (net : NetworkManager σ) : Prop :=
  ∀ answers : ℕ → SnapshotEnv, ∃ turns,
    (net.serverTick T deltaTime ((List.range turns).map answers)).isSome

def ClientTickEnds (deltaTime : ℚ) (net : NetworkManager σ) : Prop :=
  ∃ turns, (net.clientTick T deltaTime turns).isSome

/-- The attached replication manager has the tick rate. -/
def setTickRate (hz : ℚ) (net : NetworkManager σ) : NetworkManager σ :=
  net.tellReplication (.setTickRate hz)

section
variable {T} {net : NetworkManager σ}

theorem isSome_serverTick (deltaTime : ℚ) (envs : List SnapshotEnv) :
    (net.serverTick T deltaTime envs).isSome ↔ (net.serving → ∀ rep ∈ net.replicationManager,
      (rep.serverTick deltaTime (envs.map net.tickEnv)).isSome) := by
  unfold serverTick
  split
  · rename_i hrep
    simp [hrep]
  · rename_i rep hrep
    split_ifs with hserving
    · simp_all
    · simp_all

theorem isSome_clientTick (deltaTime : ℚ) (turns : ℕ) :
    (net.clientTick T deltaTime turns).isSome ↔ (net.joining → ∀ rep ∈ net.replicationManager,
      (rep.clientTick deltaTime turns).isSome) := by
  unfold clientTick
  split
  · rename_i hrep
    simp [hrep]
  · rename_i rep hrep
    split_ifs with hjoining
    · simp_all
    · simp_all

theorem serverTickEnds_iff (hz deltaTime : ℚ) : (net.setTickRate hz).ServerTickEnds T deltaTime ↔
    (net.serving → ∀ rep ∈ net.replicationManager, rep.hasBridge →
      binary32.Ends (NetworkReplicationManager.targetDt hz)
        (binary32.add rep.accumulator (.finite deltaTime))) := by
  have hloop : ∀ answers : ℕ → SnapshotEnv, ∀ turns, ((net.setTickRate hz).serverTick T deltaTime
      ((List.range turns).map answers)).isSome ↔ (net.serving → ∀ rep ∈ net.replicationManager,
        rep.hasBridge → Over (NetworkReplicationManager.targetDt hz ≤ ·)
          (binary32.sub · (NetworkReplicationManager.targetDt hz))
          (binary32.add rep.accumulator (.finite deltaTime)) turns) := by
    intro answers turns
    rw [isSome_serverTick]
    simp only [setTickRate, tellReplication, Option.mem_map, forall_exists_index, and_imp,
      forall_apply_eq_imp_iff₂, NetworkReplicationManager.isSome_serverTick, List.length_map,
      List.length_range]
    rfl
  unfold ServerTickEnds
  simp only [hloop]
  rcases net.replicationManager with _ | rep
  · simp
  · simp only [Option.mem_some_iff, forall_eq', ← exists_over_sub_iff (fits_add _ _)]
    constructor
    · intro h hserving hbridge
      obtain ⟨n, hn⟩ := h fun _ => { serialize := fun _ => none }
      exact ⟨n, hn hserving hbridge⟩
    · intro h answers
      by_cases hruns : net.serving = true ∧ rep.hasBridge = true
      · obtain ⟨n, hn⟩ := h hruns.1 hruns.2
        exact ⟨n, fun _ _ => hn⟩
      · exact ⟨0, fun hserving hbridge => absurd ⟨hserving, hbridge⟩ hruns⟩

theorem clientTickEnds_iff (hz deltaTime : ℚ) : (net.setTickRate hz).ClientTickEnds T deltaTime ↔
    (net.joining → ∀ rep ∈ net.replicationManager,
      binary32.Ends (NetworkReplicationManager.targetDt hz)
        (binary32.add rep.clientAckAccumulator (.finite deltaTime))) := by
  have hloop : ∀ turns, ((net.setTickRate hz).clientTick T deltaTime turns).isSome ↔
      (net.joining → ∀ rep ∈ net.replicationManager, Over (NetworkReplicationManager.targetDt hz ≤ ·)
        (binary32.sub · (NetworkReplicationManager.targetDt hz))
        (binary32.add rep.clientAckAccumulator (.finite deltaTime)) turns) := by
    intro turns
    rw [isSome_clientTick]
    simp only [setTickRate, tellReplication, Option.mem_map, forall_exists_index, and_imp,
      forall_apply_eq_imp_iff₂, NetworkReplicationManager.clientTick, Replication.isSome_clientTickLoop]
    rfl
  unfold ClientTickEnds
  simp only [hloop]
  rcases net.replicationManager with _ | rep
  · simp
  · simp only [Option.mem_some_iff, forall_eq', ← exists_over_sub_iff (fits_add _ _)]
    constructor
    · rintro ⟨n, hn⟩ hjoining
      exact ⟨n, hn hjoining⟩
    · intro h
      by_cases hjoining : net.joining = true
      · obtain ⟨n, hn⟩ := h hjoining
        exact ⟨n, fun _ => hn⟩
      · exact ⟨0, fun h => absurd h hjoining⟩

end

/-- With any tick rate, from any state and for any time: the loop of the clock ends unless a double that is
no more than what it starts from is due and absorbs the interval, as all do that are due if the rate is not
positive; the loops of `server_tick` and `client_tick` end if the method returns before them, or if the
interval and the accumulator of single precision are such that taking the one from the other ends. -/
theorem ticks_end_iff (clock : NetworkClock) (net : NetworkManager σ) (hz deltaTime : ℚ) :
    ((clock.setTickRate .ieee hz).AdvanceEnds deltaTime ↔
      ∀ y, binary64.Holds y → y ≤ binary64.round (clock.accumulator + deltaTime) →
        NetworkClock.Due .ieee (clock.setTickRate .ieee hz).tickInterval y →
          binary64.round (y - (clock.setTickRate .ieee hz).tickInterval) ≠ y) ∧
    ((net.setTickRate hz).ServerTickEnds T deltaTime ↔
      (net.serving → ∀ rep ∈ net.replicationManager, rep.hasBridge →
        binary32.Ends (NetworkReplicationManager.targetDt hz)
          (binary32.add rep.accumulator (.finite deltaTime)))) ∧
    ((net.setTickRate hz).ClientTickEnds T deltaTime ↔
      (net.joining → ∀ rep ∈ net.replicationManager,
        binary32.Ends (NetworkReplicationManager.targetDt hz)
          (binary32.add rep.clientAckAccumulator (.finite deltaTime)))) :=
  ⟨clock.advanceEnds_iff hz deltaTime, serverTickEnds_iff hz deltaTime, clientTickEnds_iff hz deltaTime⟩

/-- A clock that is stopped, and a server with a rate below 0; a clock at 30 Hz that is given 10¹⁷ seconds,
and a server at 30 Hz that is given 1100000. -/
theorem ticks_go_on :
    ¬(({} : NetworkClock).setTickRate .ieee 0).AdvanceEnds 0 ∧
      ¬(({} : NetworkClock).setTickRate .ieee 30).AdvanceEnds (10 ^ 17) ∧
      ∀ rate ∈ [(-1, 0), (30, 1100000)],
        ¬(({ world := {}, mode := .server, replicationManager := some { hasBridge := true } } :
          NetworkManager LoopbackHub).setTickRate rate.1).ServerTickEnds loopback rate.2 := by
  refine ⟨?_, ?_, ?_⟩
  · rw [NetworkClock.advanceEnds_iff]
    exact fun h => h 0 holds_zero (by decide +kernel) (by decide +kernel) (by decide +kernel)
  · rw [NetworkClock.advanceEnds_iff]
    exact fun h => h (10 ^ 17) (holds_iff.mpr (by decide +kernel)) (by decide +kernel)
      (by decide +kernel) (by decide +kernel)
  · simp only [List.forall_mem_cons, serverTickEnds_iff]
    refine ⟨fun h => ?_, fun h => ?_, List.forall_mem_nil _⟩
    · have hends : binary32.Ends (NetworkReplicationManager.targetDt (-1))
          (binary32.add (.finite 0) (.finite 0)) := h rfl _ rfl rfl
      have hdt : NetworkReplicationManager.targetDt (-1) = .finite (-1) := by decide +kernel
      have hacc : binary32.add (.finite 0) (.finite 0) = .finite 0 := by decide +kernel
      rw [hdt, hacc] at hends
      rcases hends with hlt | ⟨hpos, -⟩
      · exact absurd hlt (by decide)
      · exact absurd hpos (by decide)
    · have hends : binary32.Ends (NetworkReplicationManager.targetDt 30)
          (binary32.add (.finite 0) (.finite 1100000)) := h rfl _ rfl rfl
      have hdt : NetworkReplicationManager.targetDt 30 = .finite (binary32.round (1 / 30)) := by
        decide +kernel
      have hacc : binary32.add (.finite 0) (.finite 1100000) = .finite 1100000 := by decide +kernel
      rw [hdt, hacc] at hends
      rcases hends with hlt | ⟨-, habsorbed⟩
      · exact absurd hlt (by decide +kernel)
      · exact habsorbed 1100000 (holds_iff.mpr (by decide +kernel)) (by decide +kernel)
          (by decide +kernel) (by decide +kernel)

end NetworkManager

end CampelloNet
