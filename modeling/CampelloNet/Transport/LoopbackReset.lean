import Mathlib.Data.List.Infix
import CampelloNet.Lib.Ledger
import CampelloNet.Transport.LoopbackRouting

/-!
# What a closed loopback transport still does

`disconnect` empties the two receive queues and leaves the delayed outbound packets. What a transport
hands to the hub and what its user pops after it has closed is followed through every later call on
the hub: it is what was sent and received since exactly if nothing was delayed.
-/

namespace CampelloNet.Transport

open Lib Lib.Run Loopback List

namespace LoopbackHub

/-- A call of a transport, a change of its parameters, or a reading of the clock. -/
inductive Event
  | call (id : ℕ) (call : Call)
  | poll (id : ℕ)
  | popReceive (id : ℕ) (maxLength : ℕ)
  | setLatency (id : ℕ) (seconds : ℚ)
  | setPacketLoss (id : ℕ) (ratio : ℚ)
  | wait (now : ℚ)

def next (hub : LoopbackHub) : Event → Option LoopbackHub
  | .call id call => step hub (id, call)
  | .poll id => some (LoopbackTransport.poll id hub)
  | .popReceive id n => some (LoopbackTransport.popReceive id n hub).1
  | .setLatency id seconds => some (LoopbackTransport.setLatency id seconds hub)
  | .setPacketLoss id ratio => some (LoopbackTransport.setPacketLoss id ratio hub)
  | .wait now => some { hub with now := now }

/-- The packets that a transport has delayed. -/
def delayed (id : ℕ) (hub : LoopbackHub) : List DelayedPacket := (hub.transports id).delayedOutbound

/-- The packets that a transport has received and that were not popped yet. -/
def waiting (id : ℕ) (hub : LoopbackHub) : List Packet :=
  (hub.transports id).readyRecv ++ (hub.transports id).pendingRecv

/-- What an event puts behind a list. -/
def added {β : Type} (list : LoopbackHub → List β) (hub : LoopbackHub) (event : Event) : List β :=
  ((next hub event).map fun after => (list after).drop (list hub).length).getD []

/-- The delayed packets that a transport hands to the hub. -/
def handed (id : ℕ) (hub : LoopbackHub) : Event → List DelayedPacket
  | .poll other => if other = id then (delayed id hub).filter fun dp => dp.deliveryTime ≤ hub.now else []
  | _ => []

/-- The packets that a transport's user pops. -/
def popped (id : ℕ) (hub : LoopbackHub) : Event → List Packet
  | .popReceive other _ => if other = id then (hub.transports id).readyRecv.head?.toList else []
  | _ => []

/-- Whatever happens after `disconnect`, the transport hands over only packets that it was given since,
and only packets are popped that it received since. -/
def Resets (id : ℕ) (hub : LoopbackHub) : Prop :=
  ∀ events after, exec next (LoopbackTransport.disconnect id hub) events = some after →
    gather next (handed id) (LoopbackTransport.disconnect id hub) events <+~
      gather next (added (delayed id)) (LoopbackTransport.disconnect id hub) events ∧
    gather next (popped id) (LoopbackTransport.disconnect id hub) events <+~
      gather next (added (waiting id)) (LoopbackTransport.disconnect id hub) events

/-! ### Lists that grow at their end -/

variable {id other : ℕ} {hub hub' : LoopbackHub}

theorem waiting_set (id other : ℕ) (hub : LoopbackHub) (impl : Impl) :
    waiting id (hub.set other impl) =
      if id = other then impl.readyRecv ++ impl.pendingRecv else waiting id hub := by
  unfold waiting
  rw [transports_set]
  split <;> rfl

theorem delayed_set (id other : ℕ) (hub : LoopbackHub) (impl : Impl) :
    delayed id (hub.set other impl) = if id = other then impl.delayedOutbound else delayed id hub := by
  unfold delayed
  rw [transports_set]
  split <;> rfl

/-- Packets are enqueued and delayed behind those that were. -/
def Grows (id : ℕ) (hub hub' : LoopbackHub) : Prop :=
  waiting id hub <+: waiting id hub' ∧ delayed id hub <+: delayed id hub'

theorem Grows.refl (id : ℕ) (hub : LoopbackHub) : Grows id hub hub := ⟨prefix_rfl, prefix_rfl⟩

theorem Grows.trans {hub'' : LoopbackHub} (h : Grows id hub hub') (h' : Grows id hub' hub'') :
    Grows id hub hub'' := ⟨h.1.trans h'.1, h.2.trans h'.2⟩

/-- A change of one transport that adds to its lists. -/
theorem Grows.set (id other : ℕ) (hub : LoopbackHub) {impl : Impl}
    (hwaiting : waiting other hub <+: impl.readyRecv ++ impl.pendingRecv)
    (hdelayed : delayed other hub <+: impl.delayedOutbound) : Grows id hub (hub.set other impl) := by
  unfold Grows
  rw [waiting_set, delayed_set]
  by_cases heq : id = other
  · rw [if_pos heq, if_pos heq, heq]
    exact ⟨hwaiting, hdelayed⟩
  · rw [if_neg heq, if_neg heq]
    exact ⟨prefix_rfl, prefix_rfl⟩

/-- Packets are enqueued, none are delayed. -/
def Enqueues (id : ℕ) (hub hub' : LoopbackHub) : Prop :=
  waiting id hub <+: waiting id hub' ∧ delayed id hub' = delayed id hub

namespace Enqueues

theorem refl (id : ℕ) (hub : LoopbackHub) : Enqueues id hub hub := ⟨prefix_rfl, rfl⟩

theorem trans {hub'' : LoopbackHub} (h : Enqueues id hub hub') (h' : Enqueues id hub' hub'') :
    Enqueues id hub hub'' := ⟨h.1.trans h'.1, h'.2.trans h.2⟩

theorem grows (h : Enqueues id hub hub') : Grows id hub hub' := ⟨h.1, h.2 ▸ prefix_rfl⟩

theorem enqueuePending (id other : ℕ) (hub : LoopbackHub) (pkt : Packet) :
    Enqueues id hub (hub.enqueuePending other pkt) := by
  unfold Enqueues LoopbackHub.enqueuePending
  rw [waiting_set, delayed_set]
  by_cases heq : id = other
  · rw [if_pos heq, if_pos heq, heq, ← append_assoc]
    exact ⟨prefix_append _ _, rfl⟩
  · rw [if_neg heq, if_neg heq]
    exact ⟨prefix_rfl, rfl⟩

theorem deliver (id : ℕ) (hub : LoopbackHub) (addr : Address) (pkt : Packet) :
    Enqueues id hub (hub.deliver addr pkt) := by
  unfold LoopbackHub.deliver
  split
  · exact refl id hub
  · exact enqueuePending id _ hub pkt

theorem broadcast (id : ℕ) (hub : LoopbackHub) (serverAddr : Address) (pkt : Packet) :
    Enqueues id hub (hub.broadcast serverAddr pkt) := by
  unfold LoopbackHub.broadcast
  generalize hub.clientToServer.filter _ = links
  induction links generalizing hub with
  | nil => exact refl id hub
  | cons link links ih =>
    rw [foldl_cons]
    split
    · exact ih hub
    · exact (enqueuePending id _ hub pkt).trans (ih _)

/-- The first half of `poll`: what is due is handed to the hub. -/
theorem flush (id : ℕ) (due : List DelayedPacket) (hub : LoopbackHub) :
    Enqueues id hub (due.foldl (fun hub dp =>
      if dp.broadcast then hub.broadcast dp.sender ⟨dp.sender, dp.data, dp.reliability⟩
      else hub.deliver dp.recipient ⟨dp.sender, dp.data, dp.reliability⟩) hub) := by
  induction due generalizing hub with
  | nil => exact refl id hub
  | cons dp due ih =>
    rw [foldl_cons]
    split
    · exact (broadcast id hub _ _).trans (ih _)
    · exact (deliver id hub _ _).trans (ih _)

end Enqueues

theorem Grows.shouldDrop (id other : ℕ) (hub : LoopbackHub) :
    Grows id hub (LoopbackTransport.shouldDrop other hub).1 := by
  unfold LoopbackTransport.shouldDrop
  dsimp only
  split
  · exact refl id hub
  · exact Grows.set id other hub prefix_rfl prefix_rfl

theorem Grows.delay (id other : ℕ) (hub : LoopbackHub) (dp : DelayedPacket) :
    Grows id hub (LoopbackTransport.delay other dp hub) :=
  Grows.set id other hub prefix_rfl (prefix_append _ _)

theorem Grows.send (id other : ℕ) (hub : LoopbackHub) (data : Bytes) (r : PacketReliability) :
    Grows id hub (LoopbackTransport.send other data r hub).1 := by
  have hdrop := Grows.shouldDrop id other hub
  unfold LoopbackTransport.send
  generalize LoopbackTransport.shouldDrop other hub = dropped at hdrop ⊢
  dsimp only
  split_ifs
  · exact hdrop
  · exact hdrop.trans (delay id other _ _)
  · exact hdrop.trans (delay id other _ _)
  · exact hdrop.trans (Enqueues.broadcast id _ _ _).grows
  · exact hdrop.trans (Enqueues.deliver id _ _ _).grows
  · exact hdrop

theorem Grows.sendTo (id other : ℕ) (hub : LoopbackHub) (address : Address) (data : Bytes)
    (r : PacketReliability) : Grows id hub (LoopbackTransport.sendTo other address data r hub).1 := by
  have hdrop := Grows.shouldDrop id other hub
  unfold LoopbackTransport.sendTo
  generalize LoopbackTransport.shouldDrop other hub = dropped at hdrop ⊢
  dsimp only
  split_ifs
  · exact refl id hub
  · exact hdrop
  · exact hdrop.trans (delay id other _ _)
  · exact hdrop.trans (Enqueues.deliver id _ _ _).grows

theorem Grows.bind (id other : ℕ) (hub : LoopbackHub) (address : Address) :
    Grows id hub (LoopbackTransport.bind other address hub).1 := by
  unfold LoopbackTransport.bind
  dsimp only
  split
  · exact refl id hub
  · exact Grows.set id other (hub.bindServer address other) prefix_rfl prefix_rfl

theorem Grows.connect (id other : ℕ) (hub : LoopbackHub) (address : Address) :
    Grows id hub (LoopbackTransport.connect other address hub).1 := by
  rcases connect_cases hub other address with hfail | ⟨-, -, -, hok⟩
  · rw [hfail]
    exact refl id hub
  · rw [hok]
    have hsame : Grows id hub (hub.connectClient address other).1 := by
      unfold Grows waiting delayed
      rw [(connectClient_frame hub address other).2]
      exact ⟨prefix_rfl, prefix_rfl⟩
    refine hsame.trans (Grows.set id other _ ?_ ?_)
    · unfold waiting
      rw [(connectClient_frame hub address other).2]
    · unfold delayed
      rw [(connectClient_frame hub address other).2]

theorem Grows.setLatency (id other : ℕ) (hub : LoopbackHub) (seconds : ℚ) :
    Grows id hub (LoopbackTransport.setLatency other seconds hub) :=
  Grows.set id other hub prefix_rfl prefix_rfl

theorem Grows.setPacketLoss (id other : ℕ) (hub : LoopbackHub) (ratio : ℚ) :
    Grows id hub (LoopbackTransport.setPacketLoss other ratio hub) :=
  Grows.set id other hub prefix_rfl prefix_rfl

/-- The hub after the registrations of a transport were taken out of it. -/
theorem disconnect_eq (id : ℕ) (hub : LoopbackHub) : ∃ hub' : LoopbackHub, hub'.transports = hub.transports ∧
    LoopbackTransport.disconnect id hub = hub'.set id (closed (hub.transports id)) := by
  unfold LoopbackTransport.disconnect
  dsimp only
  refine ⟨_, ?_, rfl⟩
  split_ifs <;> rfl

theorem waiting_disconnect (id : ℕ) (hub : LoopbackHub) :
    waiting id (LoopbackTransport.disconnect id hub) = [] := by
  obtain ⟨hub', -, heq⟩ := disconnect_eq id hub
  rw [heq, waiting_set, if_pos rfl]
  rfl

theorem delayed_disconnect (id other : ℕ) (hub : LoopbackHub) :
    delayed id (LoopbackTransport.disconnect other hub) = delayed id hub := by
  obtain ⟨hub', htransports, heq⟩ := disconnect_eq other hub
  rw [heq, delayed_set]
  split
  · next h => rw [h]; rfl
  · unfold delayed
    rw [htransports]

theorem waiting_disconnect_ne (hne : id ≠ other) (hub : LoopbackHub) :
    waiting id (LoopbackTransport.disconnect other hub) = waiting id hub := by
  obtain ⟨hub', htransports, heq⟩ := disconnect_eq other hub
  rw [heq, waiting_set, if_neg hne]
  unfold waiting
  rw [htransports]

/-- `poll` hands over what is due and moves what is pending. -/
theorem poll_lists (id other : ℕ) (hub : LoopbackHub) :
    waiting id hub <+: waiting id (LoopbackTransport.poll other hub) ∧
      delayed id (LoopbackTransport.poll other hub) =
        if id = other then (delayed id hub).filter fun dp => ¬dp.deliveryTime ≤ hub.now
        else delayed id hub := by
  unfold LoopbackTransport.poll
  dsimp only
  generalize hflushed : foldl _ _ _ = flushed
  obtain ⟨hwaiting, hdelayed⟩ : Enqueues id _ flushed := hflushed ▸ Enqueues.flush id _ _
  rw [waiting_set] at hwaiting
  rw [delayed_set] at hdelayed
  rw [waiting_set, delayed_set]
  by_cases heq : id = other
  · subst heq
    rw [if_pos rfl] at hwaiting hdelayed
    rw [if_pos rfl, if_pos rfl, if_pos rfl, append_nil]
    exact ⟨hwaiting, hdelayed⟩
  · rw [if_neg heq] at hwaiting hdelayed
    rw [if_neg heq, if_neg heq, if_neg heq]
    exact ⟨hwaiting, hdelayed⟩

/-! ### One event -/

theorem drop_of_prefix {β : Type} {l l' : List β} (h : l <+: l') : l ++ l'.drop l.length = l' := by
  obtain ⟨new, rfl⟩ := h
  rw [drop_left]

theorem added_eq {β : Type} (list : LoopbackHub → List β) {event : Event}
    (h : next hub event = some hub') : added list hub event = (list hub').drop (list hub).length := by
  unfold added
  rw [h]
  rfl

/-- An event other than `poll` leaves delayed what was. -/
theorem delayed_isPrefix_of {event : Event} (hne : event ≠ .poll id) (h : next hub event = some hub') :
    delayed id hub <+: delayed id hub' := by
  cases event with
  | call other call =>
    cases h
    cases call with
    | bind address => exact (Grows.bind id other hub address).2
    | connect address => exact (Grows.connect id other hub address).2
    | disconnect => exact (delayed_disconnect id other hub) ▸ prefix_rfl
    | send data r => exact (Grows.send id other hub data r).2
    | sendTo address data r => exact (Grows.sendTo id other hub address data r).2
  | poll other =>
    cases h
    have hother : ¬id = other := by
      rintro rfl
      exact hne rfl
    rw [(poll_lists id other hub).2, if_neg hother]
  | popReceive other n =>
    cases h
    unfold LoopbackTransport.popReceive
    split
    · exact prefix_rfl
    · rw [delayed_set]
      split
      · next heq => rw [heq]; exact prefix_rfl
      · exact prefix_rfl
  | setLatency other seconds =>
    cases h
    exact (Grows.setLatency id other hub seconds).2
  | setPacketLoss other ratio =>
    cases h
    exact (Grows.setPacketLoss id other hub ratio).2
  | wait now =>
    cases h
    exact prefix_rfl

/-- An event other than `pop_receive` and `disconnect` leaves waiting what was. -/
theorem waiting_isPrefix_of {event : Event} (hpop : ∀ n, event ≠ .popReceive id n)
    (hclose : event ≠ .call id .disconnect) (h : next hub event = some hub') :
    waiting id hub <+: waiting id hub' := by
  cases event with
  | call other call =>
    cases h
    cases call with
    | bind address => exact (Grows.bind id other hub address).1
    | connect address => exact (Grows.connect id other hub address).1
    | disconnect =>
      have hne : id ≠ other := by
        rintro rfl
        exact hclose rfl
      exact (waiting_disconnect_ne hne hub) ▸ prefix_rfl
    | send data r => exact (Grows.send id other hub data r).1
    | sendTo address data r => exact (Grows.sendTo id other hub address data r).1
  | poll other =>
    cases h
    exact (poll_lists id other hub).1
  | popReceive other n =>
    cases h
    unfold LoopbackTransport.popReceive
    split
    · exact prefix_rfl
    · have hother : ¬id = other := by
        rintro rfl
        exact hpop n rfl
      rw [waiting_set, if_neg hother]
  | setLatency other seconds =>
    cases h
    exact (Grows.setLatency id other hub seconds).1
  | setPacketLoss other ratio =>
    cases h
    exact (Grows.setPacketLoss id other hub ratio).1
  | wait now =>
    cases h
    exact prefix_rfl

/-- What an event hands over and leaves delayed was delayed before or is new. -/
theorem handed_subperm {event : Event} (h : next hub event = some hub') :
    handed id hub event ++ delayed id hub' <+~ delayed id hub ++ added (delayed id) hub event := by
  by_cases hpoll : event = .poll id
  · subst hpoll
    cases h
    rw [(poll_lists id id hub).2, if_pos rfl]
    have hsplit := filter_append_perm (fun dp : DelayedPacket => decide (dp.deliveryTime ≤ hub.now))
      (delayed id hub)
    simp only [handed, if_true, decide_not]
    exact hsplit.subperm.trans (sublist_append_left _ _).subperm
  · have hnone : handed id hub event = [] := by
      cases event with
      | poll other =>
        refine if_neg ?_
        rintro rfl
        exact hpoll rfl
      | _ => rfl
    rw [hnone, added_eq _ h, drop_of_prefix (delayed_isPrefix_of hpoll h)]
    exact Subperm.refl _

/-- What an event pops and leaves waiting was waiting before or is new. -/
theorem popped_subperm {event : Event} (h : next hub event = some hub') :
    popped id hub event ++ waiting id hub' <+~ waiting id hub ++ added (waiting id) hub event := by
  by_cases hpop : ∃ n, event = .popReceive id n
  · obtain ⟨n, rfl⟩ := hpop
    cases h
    refine Subperm.trans ?_ (sublist_append_left _ _).subperm
    have hpopped : popped id hub (.popReceive id n) = (hub.transports id).readyRecv.head?.toList :=
      if_pos rfl
    rw [hpopped]
    unfold LoopbackTransport.popReceive
    rcases hready : (hub.transports id).readyRecv with _ | ⟨pkt, rest⟩
    · exact Subperm.refl _
    · dsimp only
      rw [waiting_set, if_pos rfl]
      unfold waiting
      rw [hready]
      exact Subperm.refl _
  · have hnone : popped id hub event = [] := by
      cases event with
      | popReceive other n =>
        refine if_neg ?_
        rintro rfl
        exact hpop ⟨n, rfl⟩
      | _ => rfl
    rw [hnone, nil_append]
    by_cases hclose : event = .call id .disconnect
    · subst hclose
      cases h
      show waiting id (LoopbackTransport.disconnect id hub) <+~ _
      rw [waiting_disconnect]
      exact nil_subperm
    · rw [added_eq _ h, drop_of_prefix (waiting_isPrefix_of (fun n heq => hpop ⟨n, heq⟩) hclose h)]

/-! ### Runs -/

/-- A poll at a time when everything that is delayed is due. -/
theorem exists_due (packets : List DelayedPacket) : ∃ now : ℚ, ∀ dp ∈ packets, dp.deliveryTime ≤ now := by
  induction packets with
  | nil => exact ⟨0, by simp⟩
  | cons dp packets ih =>
    obtain ⟨now, hnow⟩ := ih
    refine ⟨max dp.deliveryTime now, fun dp' hdp' => ?_⟩
    rcases mem_cons.mp hdp' with rfl | hdp'
    · exact le_max_left _ _
    · exact (hnow dp' hdp').trans (le_max_right _ _)

/-- A packet that is still delayed is handed over by a later `poll`. -/
theorem Resets.none_delayed (hresets : Resets id hub) : (hub.transports id).delayedOutbound = [] := by
  obtain ⟨now, hnow⟩ := exists_due (hub.transports id).delayedOutbound
  have hhanded := (hresets [.wait now, .poll id] _ rfl).1
  have hleft : delayed id { LoopbackTransport.disconnect id hub with now := now } =
      (hub.transports id).delayedOutbound := delayed_disconnect id id hub
  have hout : gather next (handed id) (LoopbackTransport.disconnect id hub) [.wait now, .poll id] =
      (hub.transports id).delayedOutbound := by
    rw [gather_cons rfl, gather_cons rfl, gather]
    show [] ++ ((if id = id then filter _ (delayed id _) else []) ++ []) = _
    rw [if_pos rfl, hleft, nil_append, append_nil, filter_eq_self]
    intro dp hdp
    exact decide_eq_true (hnow dp hdp)
  have hin : gather next (added (delayed id)) (LoopbackTransport.disconnect id hub)
      [.wait now, .poll id] = [] := by
    rw [gather_cons rfl, gather_cons rfl, added_eq _ rfl, added_eq _ rfl, gather,
      (poll_lists id id _).2, if_pos rfl, append_nil, append_eq_nil_iff]
    exact ⟨drop_eq_nil_of_le le_rfl, drop_eq_nil_of_le (length_filter_le _ _)⟩
  rw [hout, hin] at hhanded
  exact subperm_nil.mp hhanded

/-- `disconnect` resets the state of the transport exactly if no packet of it is delayed. -/
theorem resets_iff (id : ℕ) (hub : LoopbackHub) :
    Resets id hub ↔ (hub.transports id).delayedOutbound = [] := by
  refine ⟨Resets.none_delayed, fun hnone events after h => ⟨?_, ?_⟩⟩
  · have hrun := gather_subperm (delayed id) (fun _ _ _ hs => handed_subperm hs) h
    have hdelayed : delayed id hub = [] := hnone
    rw [delayed_disconnect, hdelayed, nil_append] at hrun
    exact (sublist_append_left _ _).subperm.trans hrun
  · have hrun := gather_subperm (waiting id) (fun _ _ _ hs => popped_subperm hs) h
    rw [waiting_disconnect, nil_append] at hrun
    exact (sublist_append_left _ _).subperm.trans hrun

/-- A client sends with a latency of one second and closes; when it polls two seconds later, the server
gets the message. -/
theorem not_resets_delayed : ∃ hub,
    exec next {} [.call 0 (.bind serverAddr), .call 1 (.connect serverAddr), .setLatency 1 1,
      .call 1 (.send [7] .unreliable)] = some hub ∧
    ¬Resets 1 hub ∧
    ((exec next (LoopbackTransport.disconnect 1 hub) [.wait 2, .poll 1]).map fun after =>
      (after.transports 0).pendingRecv.map (·.data)) = some [[7]] := by
  refine ⟨_, rfl, fun hresets => ?_, by decide +kernel⟩
  have hlength := congrArg List.length hresets.none_delayed
  exact absurd hlength (by decide +kernel)

end LoopbackHub

end CampelloNet.Transport
