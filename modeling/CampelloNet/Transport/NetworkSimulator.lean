import CampelloNet.Transport.Interface
import Mathlib.Algebra.Order.Field.Rat
import Mathlib.Algebra.Order.Group.Nat

/-!
# The network simulator

`NetworkSimulator`, a transport around another one that delays, drops and doubles packets. What the
clock says and the random generator draws for one packet is its `Moment`, an argument of the call.
-/

namespace CampelloNet.Transport

open Lib

/-- `NetworkSimulator::Impl::QueuedPacket` -/
structure QueuedPacket where
  deliverTime : ℚ
  data : Bytes
  sender : Address := .invalid
  target : Address := .invalid
  reliability : PacketReliability := .unreliable
  outbound : Bool
  targeted : Bool := false
  deriving DecidableEq

/-- A reading of the clock, and what the generator draws if it is asked. -/
structure Moment where
  now : ℚ
  dropDraw : ℚ := 0
  duplicateDraw : ℚ := 0
  latencyDraw : ℚ := 0
  jitterDraw : ℚ := 0

structure NetworkSimulator (σ : Type) where
  inner : σ
  packetLoss : ℚ := 0
  latencyMinMs : ℚ := 0
  latencyMaxMs : ℚ := 0
  jitterMs : ℚ := 0
  duplication : ℚ := 0
  delayQueue : List QueuedPacket := []
  readyQueue : List QueuedPacket := []

namespace NetworkSimulator

variable {σ : Type}

def shouldDrop (m : Moment) (sim : NetworkSimulator σ) : Bool :=
  if sim.packetLoss ≤ 0 then false else m.dropDraw < sim.packetLoss

def shouldDuplicate (m : Moment) (sim : NetworkSimulator σ) : Bool :=
  if sim.duplication ≤ 0 then false else m.duplicateDraw < sim.duplication

def calculateDelayS (m : Moment) (sim : NetworkSimulator σ) : ℚ :=
  let delayMs := if sim.latencyMaxMs > sim.latencyMinMs then m.latencyDraw else sim.latencyMinMs
  let delayMs := if sim.jitterMs > 0 then delayMs + m.jitterDraw else delayMs
  max 0 delayMs / 1000

/-- A packet into the delay queue, twice if it is to be doubled. -/
def delay (m : Moment) (pkt : QueuedPacket) (sim : NetworkSimulator σ) : NetworkSimulator σ :=
  let sim := { sim with delayQueue := sim.delayQueue ++ [pkt] }
  if sim.shouldDuplicate m then
    { sim with delayQueue := sim.delayQueue ++
        [{ pkt with deliverTime := pkt.deliverTime + sim.jitterMs / 1000 }] }
  else sim

/-- The packet that `send` makes. -/
def sentPacket (data : Bytes) (r : PacketReliability) (m : Moment) (sim : NetworkSimulator σ) :
    QueuedPacket :=
  { deliverTime := m.now + sim.calculateDelayS m, data := data, reliability := r, outbound := true }

/-- The packet that `send_to` makes. -/
def sentToPacket (address : Address) (data : Bytes) (r : PacketReliability) (m : Moment)
    (sim : NetworkSimulator σ) : QueuedPacket :=
  { deliverTime := m.now + sim.calculateDelayS m, data := data, target := address, targeted := true
    reliability := r, outbound := true }

/-- The packet that `poll` makes of what it popped. -/
def receivedPacket (data : Bytes) (sender : Address) (m : Moment) (sim : NetworkSimulator σ) :
    QueuedPacket :=
  { deliverTime := m.now + sim.calculateDelayS m, data := data, sender := sender, outbound := false }

def send (data : Bytes) (r : PacketReliability) (m : Moment) (sim : NetworkSimulator σ) :
    NetworkSimulator σ × Bool :=
  if sim.shouldDrop m then (sim, true)
  else (sim.delay m (sim.sentPacket data r m), true)

def sendTo (address : Address) (data : Bytes) (r : PacketReliability) (m : Moment)
    (sim : NetworkSimulator σ) : NetworkSimulator σ × Bool :=
  if sim.shouldDrop m then (sim, true)
  else (sim.delay m (sim.sentToPacket address data r m), true)

variable (T : ITransport σ)

def bind (address : Address) (sim : NetworkSimulator σ) : NetworkSimulator σ × Bool :=
  let (inner, ok) := T.bind address sim.inner
  ({ sim with inner := inner }, ok)

def connect (address : Address) (sim : NetworkSimulator σ) : NetworkSimulator σ × Bool :=
  let (inner, ok) := T.connect address sim.inner
  ({ sim with inner := inner }, ok)

def disconnect (sim : NetworkSimulator σ) : NetworkSimulator σ :=
  { sim with inner := T.disconnect sim.inner, delayQueue := [], readyQueue := [] }

def BUFFER_SIZE : ℕ := 2048

/-- The loop of `poll` that takes the packets of the inner transport, `none` if there are more of them
than moments. -/
def intercept : List Moment → NetworkSimulator σ → Option (NetworkSimulator σ)
  | [], sim =>
    match T.popReceive BUFFER_SIZE sim.inner with
    | (inner, none) => some { sim with inner := inner }
    | (_, some _) => none
  | m :: ms, sim =>
    match T.popReceive BUFFER_SIZE sim.inner with
    | (inner, none) => some { sim with inner := inner }
    | (inner, some (data, sender)) =>
      let sim := { sim with inner := inner }
      if sim.shouldDrop m then intercept ms sim
      else intercept ms (sim.delay m (sim.receivedPacket data sender m))

/-- An outbound packet handed to the inner transport. -/
def forward (pkt : QueuedPacket) (inner : σ) : σ :=
  if pkt.targeted then (T.sendTo pkt.target pkt.data pkt.reliability inner).1
  else (T.send pkt.data pkt.reliability inner).1

/-- The loop of `poll` through the delay queue: what is due leaves it, the rest stays. -/
def moveExpired (now : ℚ) : List QueuedPacket → NetworkSimulator σ → NetworkSimulator σ
  | [], sim => sim
  | pkt :: rest, sim =>
    if pkt.deliverTime ≤ now then
      if pkt.outbound then moveExpired now rest { sim with inner := forward T pkt sim.inner }
      else moveExpired now rest { sim with readyQueue := sim.readyQueue ++ [pkt] }
    else moveExpired now rest { sim with delayQueue := sim.delayQueue ++ [pkt] }

/-- `poll` with a moment for each packet of the inner transport and a last reading of the clock. -/
def poll (ms : List Moment) (now : ℚ) (sim : NetworkSimulator σ) : Option (NetworkSimulator σ) :=
  (intercept T ms { sim with inner := T.poll sim.inner }).map fun sim =>
    moveExpired T now sim.delayQueue { sim with delayQueue := [] }

def popReceive (maxLength : ℕ) (sim : NetworkSimulator σ) :
    NetworkSimulator σ × Option (Bytes × Address) :=
  match sim.readyQueue with
  | [] => (sim, none)
  | pkt :: rest => ({ sim with readyQueue := rest }, some (pkt.data.take maxLength, pkt.sender))

/-! ### The faults -/

def setPacketLoss (ratio : ℚ) (sim : NetworkSimulator σ) : NetworkSimulator σ :=
  { sim with packetLoss := min (max ratio 0) 1 }

def setLatency (minMs maxMs : ℚ) (sim : NetworkSimulator σ) : NetworkSimulator σ :=
  { sim with latencyMinMs := minMs, latencyMaxMs := maxMs }

def setJitter (ms : ℚ) (sim : NetworkSimulator σ) : NetworkSimulator σ := { sim with jitterMs := ms }

def setDuplication (ratio : ℚ) (sim : NetworkSimulator σ) : NetworkSimulator σ :=
  { sim with duplication := min (max ratio 0) 1 }

end NetworkSimulator

end CampelloNet.Transport
