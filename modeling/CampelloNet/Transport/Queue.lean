import CampelloNet.Transport.Loopback

/-!
# Transports with a queue

What the layers above rely on: `pop_receive` takes the first packet of a queue, cut to the buffer, and
fails when the queue is empty; sending leaves the queue alone, and closing empties it at most.
-/

namespace CampelloNet.Transport

open Lib

variable {σ : Type}

structure Queued (T : ITransport σ) (queue : σ → List (Bytes × Address)) : Prop where
  pop_nil : ∀ n s, queue s = [] → (T.popReceive n s).2 = none ∧ queue (T.popReceive n s).1 = []
  pop_cons : ∀ n s data sender rest, queue s = (data, sender) :: rest →
    (T.popReceive n s).2 = some (data.take n, sender) ∧ queue (T.popReceive n s).1 = rest
  send : ∀ data r s, queue (T.send data r s).1 = queue s
  sendTo : ∀ address data r s, queue (T.sendTo address data r s).1 = queue s
  disconnect : ∀ s, queue (T.disconnect s) = queue s ∨ queue (T.disconnect s) = []

/-- `pop_receive`, by whether the queue is empty. -/
theorem Queued.pop_cases {T : ITransport σ} {queue : σ → List (Bytes × Address)} (hT : Queued T queue)
    (n : ℕ) (s : σ) :
    (∃ after, queue s = [] ∧ T.popReceive n s = (after, none)) ∨
    ∃ data sender after, queue s = (data, sender) :: queue after ∧
      T.popReceive n s = (after, some (data.take n, sender)) := by
  rcases hq : queue s with _ | ⟨⟨data, sender⟩, rest⟩
  · exact .inl ⟨_, rfl, Prod.ext rfl (hT.pop_nil n s hq).1⟩
  · obtain ⟨hpop, hrest⟩ := hT.pop_cons n s data sender rest hq
    exact .inr ⟨data, sender, _, by rw [hrest], Prod.ext rfl hpop⟩

/-! ### The loopback transport -/

namespace LoopbackTransport

open Loopback LoopbackHub

/-- The packets that `poll` has made ready. -/
def ready (id : ℕ) (hub : LoopbackHub) : List (Bytes × Address) :=
  (hub.transports id).readyRecv.map fun pkt => (pkt.data, pkt.sender)

variable {id : ℕ}

theorem ready_set (hub : LoopbackHub) (other : ℕ) (impl : Impl)
    (h : impl.readyRecv = (hub.transports other).readyRecv) :
    ready id (hub.set other impl) = ready id hub := by
  unfold ready LoopbackHub.set
  dsimp only
  by_cases heq : id = other
  · rw [heq, Function.update_self, h]
  · rw [Function.update_of_ne heq]

theorem ready_deliver (hub : LoopbackHub) (recipient : Address) (pkt : Packet) :
    ready id (hub.deliver recipient pkt) = ready id hub := by
  unfold deliver enqueuePending
  split
  · rfl
  · exact ready_set hub _ _ rfl

theorem ready_broadcast (hub : LoopbackHub) (serverAddr : Address) (pkt : Packet) :
    ready id (hub.broadcast serverAddr pkt) = ready id hub := by
  unfold LoopbackHub.broadcast
  generalize hub.clientToServer.filter _ = links
  induction links generalizing hub with
  | nil => rfl
  | cons link links ih =>
    rw [List.foldl_cons, ih]
    split
    · rfl
    · exact ready_set hub _ _ rfl

theorem ready_shouldDrop (id : ℕ) (hub : LoopbackHub) : ready id (shouldDrop id hub).1 = ready id hub := by
  unfold shouldDrop
  dsimp only
  split_ifs
  · rfl
  · exact ready_set hub _ _ rfl

theorem ready_delay (dp : DelayedPacket) (hub : LoopbackHub) :
    ready id (delay id dp hub) = ready id hub := ready_set hub _ _ rfl

theorem ready_send (data : Bytes) (r : PacketReliability) (hub : LoopbackHub) :
    ready id (send id data r hub).1 = ready id hub := by
  have hdrop := ready_shouldDrop id hub
  unfold send
  dsimp only
  split_ifs
  · exact hdrop
  · exact (ready_delay _ _).trans hdrop
  · exact (ready_delay _ _).trans hdrop
  · exact (ready_broadcast _ _ _).trans hdrop
  · exact (ready_deliver _ _ _).trans hdrop
  · exact hdrop

theorem ready_sendTo (address : Address) (data : Bytes) (r : PacketReliability)
    (hub : LoopbackHub) : ready id (sendTo id address data r hub).1 = ready id hub := by
  have hdrop := ready_shouldDrop id hub
  unfold sendTo
  dsimp only
  split_ifs
  · rfl
  · exact hdrop
  · exact (ready_delay _ _).trans hdrop
  · exact (ready_deliver _ _ _).trans hdrop

theorem ready_popReceive_nil (n : ℕ) (hub : LoopbackHub) (h : ready id hub = []) :
    (popReceive id n hub).2 = none ∧ ready id (popReceive id n hub).1 = [] := by
  have hnil : (hub.transports id).readyRecv = [] := List.map_eq_nil_iff.mp h
  unfold popReceive
  rw [hnil]
  exact ⟨rfl, h⟩

theorem ready_popReceive_cons (n : ℕ) (hub : LoopbackHub) (data : Bytes) (sender : Address)
    (rest : List (Bytes × Address)) (h : ready id hub = (data, sender) :: rest) :
    (popReceive id n hub).2 = some (data.take n, sender) ∧
      ready id (popReceive id n hub).1 = rest := by
  obtain ⟨pkt, pkts, hready, hpkt, hrest⟩ := List.map_eq_cons_iff.mp h
  obtain ⟨rfl, rfl⟩ := Prod.ext_iff.mp hpkt
  unfold popReceive
  rw [hready]
  refine ⟨rfl, ?_⟩
  unfold ready LoopbackHub.set
  dsimp only
  rw [Function.update_self, hrest]

theorem queued (id : ℕ) : Queued (iTransport id) (ready id) where
  pop_nil := ready_popReceive_nil
  pop_cons := ready_popReceive_cons
  send := ready_send
  sendTo := ready_sendTo
  disconnect hub := by
    right
    show ready id (disconnect id hub) = []
    unfold disconnect ready LoopbackHub.set
    dsimp only
    rw [Function.update_self]
    rfl

end LoopbackTransport

end CampelloNet.Transport
