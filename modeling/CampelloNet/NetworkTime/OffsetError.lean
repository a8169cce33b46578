import CampelloNet.NetworkTime
import Mathlib.Analysis.Convex.Basic
import Mathlib.Data.List.MinMax
import Mathlib.Tactic.Linarith

/-!
# The error of the clock offset

A sample of four timestamps is off the true offset by at most half of its round trip, however the delay is
split between the two ways. The moving averages stay among the samples, so that the same holds of the
smoothed offset and the longest round trip (`offset_error`).
-/

namespace CampelloNet

namespace NetworkTime

/-- The four timestamps of a sync exchange. -/
structure Sample where
  t0 : ℚ
  t1 : ℚ
  t2 : ℚ
  t3 : ℚ

namespace Sample

def roundTrip (s : Sample) : ℚ := (s.t3 - s.t0) - (s.t2 - s.t1)

/-- The server's clock is `θ` ahead of the client's, and neither way took less than no time. -/
structure Timed (θ : ℚ) (s : Sample) : Prop where
  request : 0 ≤ s.t1 - θ - s.t0
  response : 0 ≤ s.t3 + θ - s.t2

end Sample

def record (s : Sample) (time : NetworkTime) : NetworkTime := time.recordSample s.t0 s.t1 s.t2 s.t3

/-- Sample after sample. -/
def recordAll (samples : List Sample) (time : NetworkTime) : NetworkTime :=
  samples.foldl (fun time s => time.record s) time

/-! ### One sample -/

/-- The offset of the sample itself is off by at most half of its round trip. -/
theorem rawOffset_mem {θ b : ℚ} {s : Sample} (h : s.Timed θ) (hb : s.roundTrip ≤ b) :
    ((s.t1 - s.t0) + (s.t2 - s.t3)) / 2 ∈ Set.Icc (θ - b / 2) (θ + b / 2) := by
  have hrequest := h.request
  have hresponse := h.response
  unfold Sample.roundTrip at hb
  constructor <;> linarith

/-- The averages are where samples with round trips between `a` and `b` put them. -/
structure Within (θ a b : ℚ) (time : NetworkTime) : Prop where
  offset : time.smoothedOffset ∈ Set.Icc (θ - b / 2) (θ + b / 2)
  rtt : time.smoothedRtt ∈ Set.Icc a b

variable {θ a b : ℚ} {s : Sample} {time : NetworkTime}

theorem within_first (h : s.Timed θ) (hs : s.roundTrip ∈ Set.Icc a b) (hfirst : time.sampleCount = 0) :
    (time.record s).Within θ a b := by
  unfold record recordSample
  rw [if_pos hfirst]
  exact ⟨rawOffset_mem h hs.2, hs⟩

/-- An average moves towards the sample, and no further. -/
theorem within_record (h : s.Timed θ) (hs : s.roundTrip ∈ Set.Icc a b) (hin : time.Within θ a b) :
    (time.record s).Within θ a b := by
  by_cases hfirst : time.sampleCount = 0
  · exact within_first h hs hfirst
  · have hα : ALPHA_OFFSET ∈ Set.Icc (0 : ℚ) 1 := by
      unfold ALPHA_OFFSET
      constructor <;> norm_num
    have hβ : ALPHA_RTT ∈ Set.Icc (0 : ℚ) 1 := by
      unfold ALPHA_RTT
      constructor <;> norm_num
    have hoffset := (convex_Icc (θ - b / 2) (θ + b / 2)).add_smul_sub_mem hin.offset
      (rawOffset_mem h hs.2) hα
    have hrtt := (convex_Icc a b).add_smul_sub_mem hin.rtt hs hβ
    unfold record recordSample
    rw [if_neg hfirst]
    exact ⟨hoffset, hrtt⟩

/-! ### Sequences of samples -/

theorem within_recordAll {samples : List Sample} (h : ∀ s ∈ samples, s.Timed θ)
    (hs : ∀ s ∈ samples, s.roundTrip ∈ Set.Icc a b) (hin : time.Within θ a b) :
    (time.recordAll samples).Within θ a b := by
  induction samples generalizing time with
  | nil => exact hin
  | cons s samples ih =>
    have hnext := within_record (h s List.mem_cons_self) (hs s List.mem_cons_self) hin
    apply ih
    · exact fun s' hmem => h s' (List.mem_cons_of_mem _ hmem)
    · exact fun s' hmem => hs s' (List.mem_cons_of_mem _ hmem)
    · exact hnext

/-- Every list of samples but the empty one has a shortest and a longest round trip. -/
theorem exists_extremes {samples : List Sample} (h : samples ≠ []) :
    ∃ shortest ∈ samples, ∃ longest ∈ samples,
      ∀ s ∈ samples, s.roundTrip ∈ Set.Icc shortest.roundTrip longest.roundTrip := by
  have hmin : (samples.argmin Sample.roundTrip).isSome := by
    rw [Option.isSome_iff_ne_none]
    exact fun hnone => h (List.argmin_eq_none.mp hnone)
  have hmax : (samples.argmax Sample.roundTrip).isSome := by
    rw [Option.isSome_iff_ne_none]
    exact fun hnone => h (List.argmax_eq_none.mp hnone)
  obtain ⟨shortest, hshortest⟩ := Option.isSome_iff_exists.mp hmin
  obtain ⟨longest, hlongest⟩ := Option.isSome_iff_exists.mp hmax
  refine ⟨shortest, List.argmin_mem hshortest, longest, List.argmax_mem hlongest, fun s hs => ⟨?_, ?_⟩⟩
  · exact List.le_of_mem_argmin hs hshortest
  · exact List.le_of_mem_argmax hs hlongest

/-- After samples of a constant offset the smoothed offset is off by at most half of the longest round
trip, and the smoothed round trip is between the shortest and the longest. -/
theorem offset_error (θ : ℚ) (time : NetworkTime) (hfresh : time.sampleCount = 0)
    (samples : List Sample) (hne : samples ≠ []) (h : ∀ s ∈ samples, s.Timed θ) :
    ∃ shortest ∈ samples, ∃ longest ∈ samples,
      (∀ s ∈ samples, s.roundTrip ∈ Set.Icc shortest.roundTrip longest.roundTrip) ∧
        |(time.recordAll samples).smoothedOffset - θ| ≤ longest.roundTrip / 2 ∧
        (time.recordAll samples).smoothedRtt ∈ Set.Icc shortest.roundTrip longest.roundTrip := by
  obtain ⟨shortest, hshortest, longest, hlongest, hall⟩ := exists_extremes hne
  have hin : (time.recordAll samples).Within θ shortest.roundTrip longest.roundTrip := by
    cases samples with
    | nil => exact absurd rfl hne
    | cons first samples =>
      have hfirst := within_first (h first List.mem_cons_self) (hall first List.mem_cons_self) hfresh
      apply within_recordAll _ _ hfirst
      · exact fun s hs => h s (List.mem_cons_of_mem _ hs)
      · exact fun s hs => hall s (List.mem_cons_of_mem _ hs)
  refine ⟨shortest, hshortest, longest, hlongest, hall, ?_, hin.rtt⟩
  obtain ⟨hlow, hhigh⟩ := hin.offset
  rw [abs_le]
  constructor <;> linarith

/-- All of the delay on the way to the server, then all of it on the way back: the worst that can
happen to an offset of 5. -/
theorem offset_error_lopsided :
    |(({} : NetworkTime).recordAll [⟨0, 7, 7, 2⟩, ⟨10, 15, 15, 14⟩]).smoothedOffset - 5| ≤ 2 := by
  have hsamples : ∀ s ∈ [(⟨0, 7, 7, 2⟩ : Sample), ⟨10, 15, 15, 14⟩], s.Timed 5 := by
    intro s hs
    rcases List.mem_cons.mp hs with rfl | hs
    · constructor <;> norm_num
    · rw [List.mem_singleton.mp hs]
      constructor <;> norm_num
  obtain ⟨-, -, longest, hlongest, -, hoffset, -⟩ :=
    offset_error 5 {} rfl [⟨0, 7, 7, 2⟩, ⟨10, 15, 15, 14⟩] (by simp) hsamples
  have hround : longest.roundTrip ≤ 4 := by
    rcases List.mem_cons.mp hlongest with rfl | hlongest
    · norm_num [Sample.roundTrip]
    · rw [List.mem_singleton.mp hlongest]
      norm_num [Sample.roundTrip]
  linarith

end NetworkTime

end CampelloNet
