import CampelloNet.Lib.Run
import CampelloNet.NetworkClock
import Mathlib.Algebra.Order.BigOperators.Group.List

/-!
# Ticks and frames

The ticks of a clock do not depend on the frames that its time comes in: frame after frame the clock comes
to where one advance by all of their time brings it (`frames_sum`).
-/

namespace CampelloNet.NetworkClock

open Lib

/-- No tick is due. -/
def Settled (clock : NetworkClock) : Prop := clock.accumulator + TOLERANCE < clock.tickInterval

variable {clock clock' : NetworkClock}

theorem turns_of_settled (hpos : 0 < clock.tickInterval) (h : clock.Settled) : clock.turns = 0 :=
  wholes_of_lt hpos h

/-- Without time nothing happens. -/
theorem advance_zero (hpos : 0 < clock.tickInterval) (h : clock.Settled) :
    clock.advance 0 = some clock := by
  have hsame : clock.add .exact 0 = clock := by simp [add]
  rw [advance_eq hpos, hsame, turns_of_settled hpos h, after_zero]

theorem accumulator_after_turns (clock : NetworkClock) :
    (clock.after clock.turns).accumulator + TOLERANCE =
      rest clock.tickInterval (clock.accumulator + TOLERANCE) := by
  unfold after rest turns
  ring

theorem settled_after_turns (hpos : 0 < clock.tickInterval) : (clock.after clock.turns).Settled := by
  unfold Settled
  rw [accumulator_after_turns]
  exact rest_lt hpos

/-- The turns that are taken later make up what would have been taken at once. -/
theorem turns_add (hpos : 0 < clock.tickInterval) {deltaTime : ℚ} (h : 0 ≤ deltaTime) :
    (clock.add .exact deltaTime).turns =
      clock.turns + ((clock.after clock.turns).add .exact deltaTime).turns := by
  have hleft : ((clock.after clock.turns).add .exact deltaTime).turns = wholes clock.tickInterval
      (rest clock.tickInterval (clock.accumulator + TOLERANCE) + deltaTime) := by
    rw [← accumulator_after_turns]
    unfold turns add
    rw [Arith.exact_double]
    congr 1
    ring
  have hall : (clock.add .exact deltaTime).turns =
      wholes clock.tickInterval (clock.accumulator + TOLERANCE + deltaTime) := by
    unfold turns add
    rw [Arith.exact_double]
    congr 1
    ring
  rw [hleft, hall, wholes_rest_add hpos h]
  rfl

theorem add_after (n : ℕ) (deltaTime : ℚ) :
    (clock.after n).add .exact deltaTime = (clock.add .exact deltaTime).after n := by
  simp only [after, add, mk.injEq, true_and, and_true, Arith.exact_double]
  ring

theorem add_add (d d' : ℚ) : (clock.add .exact d).add .exact d' = clock.add .exact (d + d') := by
  simp [add, add_assoc]

/-- Two frames. -/
theorem advance_advance (hpos : 0 < clock.tickInterval) (d : ℚ) {d' : ℚ} (h : 0 ≤ d') :
    ((clock.advance d).bind fun clock => clock.advance d') = clock.advance (d + d') := by
  have hadded : 0 < (clock.add .exact d).tickInterval := hpos
  have hnext : 0 < ((clock.add .exact d).after (clock.add .exact d).turns).tickInterval := hpos
  have hturns := turns_add hadded h
  rw [advance_eq hpos, Option.bind_some, advance_eq hnext, advance_eq hpos, ← add_add, hturns, ← after_after,
    add_after]

/-- A clock whose ticks have a length and none of whose ticks is due advances frame by frame as it does
by the sum. -/
theorem exec_advance (hpos : 0 < clock.tickInterval) (hsettled : clock.Settled) (frames : List ℚ)
    (h : ∀ deltaTime ∈ frames, 0 ≤ deltaTime) :
    Run.exec (fun clock deltaTime => clock.advance deltaTime) clock frames =
      clock.advance frames.sum := by
  induction frames generalizing clock with
  | nil => exact (advance_zero hpos hsettled).symm
  | cons d frames ih =>
    have hframes : ∀ deltaTime ∈ frames, 0 ≤ deltaTime := fun deltaTime hmem =>
      h deltaTime (List.mem_cons_of_mem _ hmem)
    have hadded : 0 < (clock.add .exact d).tickInterval := hpos
    have hrest : Run.exec (fun clock deltaTime => clock.advance deltaTime)
        ((clock.add .exact d).after (clock.add .exact d).turns) frames =
          ((clock.add .exact d).after (clock.add .exact d).turns).advance frames.sum :=
      ih hpos (settled_after_turns hadded) hframes
    rw [Run.exec, List.sum_cons, ← advance_advance hpos d (List.sum_nonneg hframes), advance_eq hpos,
      Option.bind_some, Option.bind_some, hrest]

/-- Frame after frame a clock with a positive tick rate comes to the same tick and accumulator as by one
advance by the sum of the frame times. -/
theorem frames_sum (clock : NetworkClock) (hz : ℚ) (hpos : 0 < hz)
    (hsettled : (clock.setTickRate .exact hz).Settled) (frames : List ℚ)
    (h : ∀ deltaTime ∈ frames, 0 ≤ deltaTime) :
    ∃ clock',
      Run.exec (fun clock deltaTime => clock.advance deltaTime) (clock.setTickRate .exact hz) frames =
        some clock' ∧
      (clock.setTickRate .exact hz).advance frames.sum = some clock' := by
  have hinterval := tickInterval_setTickRate hpos clock
  refine ⟨_, ?_, advance_eq hinterval frames.sum⟩
  rw [exec_advance hinterval hsettled frames h, advance_eq hinterval]

/-- Three frames of a sixtieth of a second and one of half a second, at thirty ticks a second. -/
theorem frames_sum_sixtieths : ∃ clock',
    Run.exec (fun clock deltaTime => clock.advance deltaTime) (({} : NetworkClock).setTickRate .exact 30)
      [1 / 60, 1 / 60, 1 / 60, 1 / 2] = some clock' ∧
    (({} : NetworkClock).setTickRate .exact 30).advance ([1 / 60, 1 / 60, 1 / 60, 1 / 2] : List ℚ).sum =
      some clock' := by
  have hsettled : (({} : NetworkClock).setTickRate .exact 30).Settled := by
    norm_num [Settled, setTickRate, TOLERANCE]
  have hframes : ∀ deltaTime ∈ ([1 / 60, 1 / 60, 1 / 60, 1 / 2] : List ℚ), 0 ≤ deltaTime := by
    intro deltaTime hmem
    simp only [List.mem_cons, List.not_mem_nil, or_false] at hmem
    rcases hmem with rfl | rfl | rfl | rfl <;> norm_num
  exact frames_sum {} 30 (by norm_num) hsettled [1 / 60, 1 / 60, 1 / 60, 1 / 2] hframes

end CampelloNet.NetworkClock
