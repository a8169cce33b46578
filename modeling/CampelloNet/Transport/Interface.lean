import CampelloNet.Transport.Packet
import Mathlib.Algebra.Order.Field.Rat

/-!
# The transport interface

`ITransport` as the layers above a transport see it: an object of state `σ` with these methods. What
a method does to the network is part of what it does to `σ`.
-/

namespace CampelloNet.Transport

open Lib

structure ITransport (σ : Type) where
  bind : Address → σ → σ × Bool
  connect : Address → σ → σ × Bool
  disconnect : σ → σ
  isConnected : σ → Bool
  send : Bytes → PacketReliability → σ → σ × Bool
  sendTo : Address → Bytes → PacketReliability → σ → σ × Bool
  poll : σ → σ
  /-- What `pop_receive` copies into a buffer of the given size, and the sender. -/
  popReceive : Nat → σ → σ × Option (Bytes × Address)
  getConnectionRtt : Address → σ → ℚ

end CampelloNet.Transport
