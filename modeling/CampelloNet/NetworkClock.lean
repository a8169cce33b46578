import CampelloNet.Lib.Floats
import CampelloNet.Lib.Intervals
import CampelloNet.NetworkTime
import Mathlib.Algebra.Order.Round
import Mathlib.Data.Rat.Floor

/-!
# The simulation clock

`NetworkClock`, in the arithmetic of the machine or in an exact one: time goes into an accumulator and
comes out in ticks of a fixed interval, and now and then the tick is aligned to the server's.
-/

namespace CampelloNet

open Lib

abbrev NetTick := UInt32

structure NetworkClock where
  tickRate : ℚ := 30
  tickInterval : ℚ := 1 / 30
  accumulator : ℚ := 0
  tick : NetTick := 0
  /-- what the attached clock synchronisation knows, if one is attached -/
  netTime : Option NetworkTime := none

namespace NetworkClock

/-- `1e-9` -/
def TOLERANCE : ℚ := 1 / 10 ^ 9

section
variable (ar : Arith)

def setTickRate (hz : ℚ) (clock : NetworkClock) : NetworkClock :=
  { clock with tickRate := hz, tickInterval := if hz > 0 then ar.double (1 / hz) else 0 }

def setNetworkTime (netTime : Option NetworkTime) (clock : NetworkClock) : NetworkClock :=
  { clock with netTime := netTime }

/-- The clock with the time added. -/
def add (deltaTime : ℚ) (clock : NetworkClock) : NetworkClock :=
  { clock with accumulator := ar.double (clock.accumulator + deltaTime) }

/-- A tick is due. -/
def Due (tickInterval accumulator : ℚ) : Prop :=
  tickInterval ≤ ar.double (accumulator + ar.double TOLERANCE)

instance (tickInterval accumulator : ℚ) : Decidable (Due ar tickInterval accumulator) :=
  inferInstanceAs (Decidable (_ ≤ _))

/-- The loop of `advance`. There is no result if it goes on after so many turns. -/
def advanceLoop : ℕ → NetworkClock → Option NetworkClock
  | turns, clock =>
    if Due ar clock.tickInterval clock.accumulator then
      match turns with
      | 0 => none
      | turns + 1 =>
        advanceLoop turns { clock with
          accumulator := ar.double (clock.accumulator - clock.tickInterval), tick := clock.tick + 1 }
    else some clock

/-- The turns that the loop takes in exact arithmetic if it ends. -/
def turns (clock : NetworkClock) : ℕ := wholes clock.tickInterval (clock.accumulator + TOLERANCE)

/-- `advance` in exact arithmetic, which has no result where its loop does not end. -/
def advance (deltaTime : ℚ) (clock : NetworkClock) : Option NetworkClock :=
  let clock := clock.add .exact deltaTime
  clock.advanceLoop .exact clock.turns

/-- `static_cast<NetTick>` of a `double`; `wide` is what the compiler makes of a number that no
`NetTick` holds. -/
def toNetTick (wide : ℚ → NetTick) (x : ℚ) : NetTick :=
  if -1 < x ∧ x < 2 ^ 32 then .ofNat ⌊x⌋₊ else wide x

/-- The server's tick when a snapshot of `serverTick` arrives. Divided by an interval of 0 the delay is
infinite. -/
def expectedTick (wide : ℚ → NetTick) (netTime : NetworkTime) (serverTick : NetTick)
    (clock : NetworkClock) : NetTick :=
  let oneWay := ar.double (netTime.smoothedRtt * (1 / 2))
  if clock.tickInterval = 0 then serverTick + wide 0
  else serverTick + toNetTick wide (ar.double (ar.double (oneWay / clock.tickInterval) + 1 / 2))

/-- The server's time that `local_time` is turned into is not used. -/
def alignToServerTick (wide : ℚ → NetTick) (serverTick : NetTick) (clock : NetworkClock) :
    NetworkClock :=
  match clock.netTime with
  | none => { clock with tick := serverTick, accumulator := 0 }
  | some netTime =>
    let expected := clock.expectedTick ar wide netTime serverTick
    let drift : ℤ := expected.toNat - clock.tick.toNat
    let half := ar.double (clock.tickInterval * (1 / 2))
    if |drift| > 2 then { clock with tick := expected, accumulator := 0 }
    else if drift > 0 then
      let accumulator := ar.double (clock.accumulator + half)
      if accumulator ≥ clock.tickInterval then
        { clock with
          accumulator := ar.double (accumulator - clock.tickInterval), tick := clock.tick + 1 }
      else { clock with accumulator := accumulator }
    else if drift < 0 then { clock with accumulator := ar.double (clock.accumulator - half) }
    else clock

def interpolationFactor (clock : NetworkClock) : ℚ :=
  if clock.tickInterval ≤ 0 then 0
  else ar.single (ar.double (clock.accumulator / clock.tickInterval))

end

/-! ### The loop in exact arithmetic -/

section
variable {clock : NetworkClock}

theorem tickInterval_setTickRate {hz : ℚ} (h : 0 < hz) (clock : NetworkClock) :
    0 < (clock.setTickRate .exact hz).tickInterval := by
  show 0 < if hz > 0 then 1 / hz else 0
  rw [if_pos h]
  positivity

/-- The state after so many turns. -/
def after (n : ℕ) (clock : NetworkClock) : NetworkClock :=
  { clock with
    accumulator := clock.accumulator - n * clock.tickInterval, tick := clock.tick + .ofNat n }

theorem after_zero : clock.after 0 = clock := by simp [after]

theorem after_after (m n : ℕ) : (clock.after m).after n = clock.after (m + n) := by
  simp only [after, mk.injEq, true_and, and_true]
  refine ⟨?_, ?_⟩
  · push_cast
    ring
  · rw [UInt32.add_assoc, ← UInt32.ofNat_add]

theorem after_one : clock.after 1 =
    { clock with accumulator := clock.accumulator - clock.tickInterval, tick := clock.tick + 1 } := by
  simp [after]

/-- A loop that has turns enough takes the whole intervals out. -/
theorem advanceLoop_eq (hpos : 0 < clock.tickInterval) {n : ℕ} (hn : clock.turns ≤ n) :
    clock.advanceLoop .exact n = some (clock.after clock.turns) := by
  induction n generalizing clock with
  | zero =>
    have hnone : clock.turns = 0 := Nat.le_zero.mp hn
    have hlt : ¬Due .exact clock.tickInterval clock.accumulator := by
      intro hge
      have hone : 1 ≤ clock.turns := (one_le_wholes_iff hpos).mpr hge
      omega
    rw [advanceLoop, if_neg hlt, hnone, after_zero]
  | succ n ih =>
    by_cases hge : Due .exact clock.tickInterval clock.accumulator
    · have hone : 1 ≤ clock.turns := (one_le_wholes_iff hpos).mpr hge
      have hturns : (clock.after 1).turns = clock.turns - 1 := by
        unfold turns
        rw [← wholes_sub hpos, after_one]
        congr 1
        ring
      have hnext : (clock.after 1).advanceLoop .exact n = some ((clock.after 1).after (clock.after 1).turns) :=
        ih hpos (by omega)
      rw [hturns, after_after, Nat.add_sub_cancel' hone, after_one] at hnext
      rw [advanceLoop, if_pos hge]
      exact hnext
    · have hnone : clock.turns = 0 := wholes_of_lt hpos (not_le.mp hge)
      rw [advanceLoop, if_neg hge, hnone, after_zero]

theorem advance_eq (hpos : 0 < clock.tickInterval) (deltaTime : ℚ) : clock.advance deltaTime =
    some ((clock.add .exact deltaTime).after (clock.add .exact deltaTime).turns) := by
  have hadded : 0 < (clock.add .exact deltaTime).tickInterval := hpos
  exact advanceLoop_eq hadded le_rfl

end

end NetworkClock

end CampelloNet
