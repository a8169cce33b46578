import Mathlib.Algebra.Order.Field.Rat

/-!
# Client clock synchronisation

`NetworkTime` in exact arithmetic: the exponential moving averages of the offset to the server's
clock and of the round trip.
-/

namespace CampelloNet

structure NetworkTime where
  smoothedOffset : ℚ := 0
  smoothedRtt : ℚ := 0
  sampleCount : UInt32 := 0

namespace NetworkTime

def ALPHA_OFFSET : ℚ := 1 / 10
def ALPHA_RTT : ℚ := 1 / 5

def recordSample (t0 t1 t2 t3 : ℚ) (time : NetworkTime) : NetworkTime :=
  let rawRtt := (t3 - t0) - (t2 - t1)
  let rawOffset := ((t1 - t0) + (t2 - t3)) / 2
  if time.sampleCount = 0 then ⟨rawOffset, rawRtt, 1⟩
  else
    ⟨time.smoothedOffset + ALPHA_OFFSET * (rawOffset - time.smoothedOffset),
      time.smoothedRtt + ALPHA_RTT * (rawRtt - time.smoothedRtt), time.sampleCount + 1⟩

def reset (_time : NetworkTime) : NetworkTime := {}

def localToRemote (localTime : ℚ) (time : NetworkTime) : ℚ := localTime + time.smoothedOffset

end NetworkTime

end CampelloNet
