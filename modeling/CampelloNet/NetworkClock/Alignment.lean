import CampelloNet.Lib.Run
import CampelloNet.NetworkClock
import Mathlib.Tactic.Ring

/-!
# What alignment does to the clock

The header promises ticks that never decrease and an interpolation factor between 0 and 1. A frame may
end within the tolerance before a tick, and an alignment to a server that is behind takes back half an
interval or the ticks themselves. A run keeps the promise if and only if each of its calls is `Gentle`
(`contract_iff`).
-/

namespace CampelloNet.NetworkClock

open Lib

/-- A frame, or the arrival of a snapshot with what the clock synchronisation knows then. -/
inductive Call
  | advance (deltaTime : ℚ)
  | align (netTime : Option NetworkTime) (serverTick : NetTick)

variable (wide : ℚ → NetTick)

def step (clock : NetworkClock) : Call → Option NetworkClock
  | .advance deltaTime => clock.advance deltaTime
  | .align netTime serverTick =>
    some ((clock.setNetworkTime netTime).alignToServerTick .exact wide serverTick)

/-- Time does not go back, and no round trip takes less than no time. -/
def Timely : Call → Prop
  | .advance deltaTime => 0 ≤ deltaTime
  | .align netTime _ => ∀ time ∈ netTime, 0 ≤ time.smoothedRtt

def InUnit (clock : NetworkClock) : Prop := clock.interpolationFactor .exact ∈ Set.Icc 0 1

/-- The call takes no tick back and leaves the interpolation factor between 0 and 1. -/
def Keeps (clock : NetworkClock) (call : Call) : Prop :=
  ∀ clock' ∈ clock.step wide call, clock.tick ≤ clock'.tick ∧ clock'.InUnit

/-- The calls that keep the promise. A frame does not end within the tolerance before a tick, nor carry
the tick past its 32 bits; a snapshot without clock synchronisation is not from before the tick; with it,
the server is not expected behind the tick by more than two, and behind it at all only in the second half
of an interval. -/
def Gentle (clock : NetworkClock) : Call → Prop
  | .advance deltaTime =>
    wholes clock.tickInterval (clock.accumulator + deltaTime + TOLERANCE) =
        wholes clock.tickInterval (clock.accumulator + deltaTime) ∧
      clock.tick ≤
        clock.tick + .ofNat (wholes clock.tickInterval (clock.accumulator + deltaTime + TOLERANCE))
  | .align none serverTick => clock.tick ≤ serverTick
  | .align (some netTime) serverTick =>
    let expected := clock.expectedTick .exact wide netTime serverTick
    clock.tick.toNat ≤ expected.toNat + 2 ∧
      (expected < clock.tick → clock.tickInterval * (1 / 2) ≤ clock.accumulator)

instance (clock : NetworkClock) : Decidable clock.InUnit :=
  inferInstanceAs (Decidable (0 ≤ clock.interpolationFactor .exact ∧ clock.interpolationFactor .exact ≤ 1))

instance (clock : NetworkClock) (call : Call) : Decidable (clock.Keeps wide call) :=
  inferInstanceAs (Decidable (∀ clock' ∈ clock.step wide call, _ ∧ _))

instance (clock : NetworkClock) : ∀ call, Decidable (clock.Gentle wide call)
  | .advance _ => inferInstanceAs (Decidable (_ ∧ _))
  | .align none serverTick => inferInstanceAs (Decidable (clock.tick ≤ serverTick))
  | .align (some _) _ => inferInstanceAs (Decidable (_ ∧ (_ → _)))

section
variable {wide} {clock : NetworkClock}

theorem inUnit_iff (hpos : 0 < clock.tickInterval) :
    clock.InUnit ↔ 0 ≤ clock.accumulator ∧ clock.accumulator ≤ clock.tickInterval := by
  unfold InUnit interpolationFactor
  rw [if_neg (not_le.mpr hpos), Arith.exact_single, Arith.exact_double, Set.mem_Icc,
    div_le_one hpos, le_div_iff₀ hpos, zero_mul]

theorem keeps_iff {clock' : NetworkClock} {call : Call} (hpos : 0 < clock'.tickInterval)
    (h : clock.step wide call = some clock') : clock.Keeps wide call ↔
      clock.tick ≤ clock'.tick ∧ 0 ≤ clock'.accumulator ∧ clock'.accumulator ≤ clock'.tickInterval := by
  unfold Keeps
  rw [h]
  simp only [Option.mem_some_iff, forall_eq']
  rw [inUnit_iff hpos]

/-- A frame leaves the accumulator out of its range only where the tolerance has made a tick of what was
none yet. -/
theorem keeps_advance_iff (hpos : 0 < clock.tickInterval) (hin : clock.InUnit) {deltaTime : ℚ}
    (hdelta : 0 ≤ deltaTime) :
    clock.Keeps wide (.advance deltaTime) ↔ clock.Gentle wide (.advance deltaTime) := by
  obtain ⟨hlow, -⟩ := (inUnit_iff hpos).mp hin
  have hsum : 0 ≤ clock.accumulator + deltaTime := by linarith
  have htolerance : (0 : ℚ) ≤ TOLERANCE := by norm_num [TOLERANCE]
  have hmono := wholes_mono hpos (show clock.accumulator + deltaTime ≤
    clock.accumulator + deltaTime + TOLERANCE by linarith)
  have hrest := rest_lt (x := clock.accumulator + deltaTime + TOLERANCE) hpos
  have hiff := le_wholes_iff (n := wholes clock.tickInterval
    (clock.accumulator + deltaTime + TOLERANCE)) hpos hsum
  have hadvanced : clock.step wide (.advance deltaTime) =
      some ((clock.add .exact deltaTime).after (clock.add .exact deltaTime).turns) := advance_eq hpos deltaTime
  have hkeeps := keeps_iff (by exact hpos) hadvanced
  unfold rest at hrest
  unfold Gentle
  rw [hkeeps]
  simp only [after, add, turns, Arith.exact_double]
  constructor
  · rintro ⟨htick, hnonneg, -⟩
    refine ⟨le_antisymm (hiff.mpr ?_) hmono, htick⟩
    linarith
  · rintro ⟨hsame, htick⟩
    have hle := hiff.mp hsame.le
    refine ⟨htick, ?_, ?_⟩
    · linarith
    · linarith

theorem keeps_align_none_iff (hpos : 0 < clock.tickInterval) (serverTick : NetTick) :
    clock.Keeps wide (.align none serverTick) ↔ clock.Gentle wide (.align none serverTick) := by
  have haligned : clock.step wide (.align none serverTick) =
      some { clock with tick := serverTick, accumulator := 0, netTime := none } := rfl
  rw [keeps_iff (by exact hpos) haligned]
  exact and_iff_left ⟨le_rfl, hpos.le⟩

theorem tickInterval_alignToServerTick (serverTick : NetTick) :
    (clock.alignToServerTick .exact wide serverTick).tickInterval = clock.tickInterval := by
  unfold alignToServerTick
  split
  · rfl
  · dsimp only
    split_ifs <;> rfl

/-- The tick is taken back where the server is far behind it, the accumulator where it is a little. -/
theorem alignToServerTick_iff (hpos : 0 < clock.tickInterval) (hin : clock.InUnit)
    {netTime : NetworkTime} (hnet : clock.netTime = some netTime) (serverTick : NetTick) :
    (clock.tick ≤ (clock.alignToServerTick .exact wide serverTick).tick ∧
      0 ≤ (clock.alignToServerTick .exact wide serverTick).accumulator ∧
      (clock.alignToServerTick .exact wide serverTick).accumulator ≤ clock.tickInterval) ↔
      clock.Gentle wide (.align (some netTime) serverTick) := by
  obtain ⟨hlow, hhigh⟩ := (inUnit_iff hpos).mp hin
  unfold Gentle alignToServerTick
  rw [hnet]
  dsimp only
  generalize clock.expectedTick .exact wide netTime serverTick = expected
  have hbound := expected.toNat_lt
  simp only [UInt32.lt_iff_toNat_lt, UInt32.le_iff_toNat_le]
  split_ifs with hfar hbehind hcarry hahead
  · -- a snap to the server's tick
    simp only [le_refl, true_and]
    rw [gt_iff_lt, lt_abs] at hfar
    constructor
    · intro hle
      exact ⟨by omega, fun hlt => by omega⟩
    · rintro ⟨hle, -⟩
      exact ⟨by omega, hpos.le⟩
  · -- half an interval more makes a tick
    have hnext : (clock.tick + 1).toNat = clock.tick.toNat + 1 := by
      rw [UInt32.toNat_add]
      change (clock.tick.toNat + 1) % 2 ^ 32 = _
      omega
    rw [Arith.exact_double, Arith.exact_double] at hcarry
    refine iff_of_true ⟨by dsimp only; omega, ?_, ?_⟩ ⟨by omega, fun hlt => by omega⟩
    · dsimp only [Arith.exact_double]
      linarith
    · dsimp only [Arith.exact_double]
      linarith
  · rw [Arith.exact_double, Arith.exact_double] at hcarry
    refine iff_of_true ⟨le_rfl, ?_, ?_⟩ ⟨by omega, fun hlt => by omega⟩
    · dsimp only [Arith.exact_double]
      linarith
    · dsimp only [Arith.exact_double]
      linarith
  · -- half an interval is taken back
    rw [gt_iff_lt, lt_abs, not_or] at hfar
    constructor
    · rintro ⟨-, hnonneg, -⟩
      dsimp only [Arith.exact_double] at hnonneg
      exact ⟨by omega, fun _ => by linarith⟩
    · rintro ⟨-, hhalf⟩
      have hle := hhalf (by omega)
      refine ⟨le_rfl, ?_, ?_⟩
      · dsimp only [Arith.exact_double]
        linarith
      · dsimp only [Arith.exact_double]
        linarith
  · exact iff_of_true ⟨le_rfl, hlow, hhigh⟩ ⟨by omega, fun hlt => by omega⟩

theorem keeps_align_some_iff (hpos : 0 < clock.tickInterval) (hin : clock.InUnit)
    (netTime : NetworkTime) (serverTick : NetTick) :
    clock.Keeps wide (.align (some netTime) serverTick) ↔
      clock.Gentle wide (.align (some netTime) serverTick) := by
  have haligned : clock.step wide (.align (some netTime) serverTick) =
      some ((clock.setNetworkTime (some netTime)).alignToServerTick .exact wide serverTick) := rfl
  have hinterval : ((clock.setNetworkTime (some netTime)).alignToServerTick .exact wide
      serverTick).tickInterval = clock.tickInterval := tickInterval_alignToServerTick serverTick
  have hattached : (clock.setNetworkTime (some netTime)).InUnit := hin
  rw [keeps_iff (by rw [hinterval]; exact hpos) haligned, hinterval]
  exact alignToServerTick_iff (by exact hpos) hattached rfl serverTick

theorem keeps_gentle_iff (hpos : 0 < clock.tickInterval) (hin : clock.InUnit) {call : Call}
    (htimely : Timely call) : clock.Keeps wide call ↔ clock.Gentle wide call := by
  cases call with
  | advance deltaTime => exact keeps_advance_iff hpos hin htimely
  | align netTime serverTick =>
    cases netTime with
    | none => exact keeps_align_none_iff hpos serverTick
    | some netTime => exact keeps_align_some_iff hpos hin netTime serverTick

theorem tickInterval_step {clock' : NetworkClock} {call : Call} (hpos : 0 < clock.tickInterval)
    (h : clock.step wide call = some clock') : clock'.tickInterval = clock.tickInterval := by
  cases call with
  | advance deltaTime =>
    change clock.advance deltaTime = some clock' at h
    rw [advance_eq hpos] at h
    rw [← Option.some.inj h]
    rfl
  | align netTime serverTick =>
    rw [← Option.some.inj h]
    exact tickInterval_alignToServerTick serverTick

end

/-- In a run of frames and alignments of a clock with a positive tick rate no tick is taken back and the
interpolation factor stays between 0 and 1, if and only if each call of the run is gentle. -/
theorem contract_iff (clock : NetworkClock) (hz : ℚ) (hhz : 0 < hz)
    (hin : (clock.setTickRate .exact hz).InUnit) (run : List Call) (htimely : ∀ call ∈ run, Timely call) :
    Run.Admits (step wide) (Keeps wide) (clock.setTickRate .exact hz) run ↔
      Run.Admits (step wide) (Gentle wide) (clock.setTickRate .exact hz) run := by
  apply Run.admits_iff_of_keeps (P := fun clock => 0 < clock.tickInterval ∧ clock.InUnit)
  · exact fun clock call hcall hclock => keeps_gentle_iff hclock.1 hclock.2 (htimely call hcall)
  · intro clock call _ clock' hclock hkeeps hstep
    rw [tickInterval_step hclock.1 hstep]
    exact ⟨hclock.1, (hkeeps clock' hstep).2⟩
  · exact ⟨tickInterval_setTickRate hhz clock, hin⟩

/-- Ten ticks a second: two frames, and a server that is one tick ahead. -/
theorem contract_ahead :
    Run.Admits (step fun _ => 0) (Keeps fun _ => 0) (({} : NetworkClock).setTickRate .exact 10)
      [.advance (1 / 20), .align (some {}) 1, .advance (1 / 20)] := by
  have hin : (({} : NetworkClock).setTickRate .exact 10).InUnit := by
    norm_num [InUnit, interpolationFactor, setTickRate]
  refine (contract_iff (fun _ => 0) {} 10 (by norm_num) hin _ fun call hcall => ?_).mpr ?_
  · simp only [List.mem_cons, List.not_mem_nil, or_false] at hcall
    rcases hcall with rfl | rfl | rfl <;> simp [Timely]
  · decide +kernel

/-- The server is one tick behind: the clock goes back by half an interval, before its tick. -/
theorem contract_behind :
    (Run.exec (step fun _ => 0) (({} : NetworkClock).setTickRate .exact 10)
        [.align none 1, .align (some {}) 0]).map (interpolationFactor .exact) = some (-1 / 2) ∧
      ¬Run.Admits (step fun _ => 0) (Keeps fun _ => 0) (({} : NetworkClock).setTickRate .exact 10)
        [.align none 1, .align (some {}) 0] := by
  decide +kernel

end CampelloNet.NetworkClock
