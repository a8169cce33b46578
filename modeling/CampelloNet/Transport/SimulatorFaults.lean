import CampelloNet.Transport.SimulatorTraffic
import Mathlib.Algebra.Order.Field.Rat
import Mathlib.Tactic.Linarith

/-!
# The simulator and its faults

The simulator with any loss, duplication, latency and jitter, which may be changed between the calls,
and whose connection may be closed. A packet that is offered to it is dropped, kept or doubled, and
every copy leaves once: it is forwarded or handed out, or thrown away when the connection is closed.
How long a copy stays is bounded by the latency and the jitter that were set when it came.
-/

namespace CampelloNet.Transport.NetworkSimulator

open Lib Lib.Run List

variable {σ : Type}

/-- A call that moves packets, or one that does something to the simulator. -/
inductive FaultCall
  | traffic (call : Call)
  | bind (address : Address)
  | connect (address : Address)
  | disconnect
  | setPacketLoss (ratio : ℚ)
  | setLatency (minMs maxMs : ℚ)
  | setJitter (ms : ℚ)
  | setDuplication (ratio : ℚ)

def faultStep (T : ITransport σ) (sim : NetworkSimulator σ) : FaultCall → Option (NetworkSimulator σ)
  | .traffic call => step T sim call
  | .bind address => some (sim.bind T address).1
  | .connect address => some (sim.connect T address).1
  | .disconnect => some (sim.disconnect T)
  | .setPacketLoss ratio => some (sim.setPacketLoss ratio)
  | .setLatency minMs maxMs => some (sim.setLatency minMs maxMs)
  | .setJitter ms => some (sim.setJitter ms)
  | .setDuplication ratio => some (sim.setDuplication ratio)

/-! ### Offers and copies -/

/-- A packet that the simulator may drop, keep or double, and the moment that decides about it. -/
abbrev Offer := Moment × QueuedPacket

/-- What `poll` makes of the packets it takes from the inner transport. -/
def intercepted (ms : List Moment) (packets : List (Bytes × Address)) (sim : NetworkSimulator σ) :
    List Offer :=
  (ms.zip packets).map fun (m, data, sender) => (m, sim.receivedPacket (data.take BUFFER_SIZE) sender m)

/-- The packets that a call offers to the simulator. -/
def offered (T : ITransport σ) (queue : σ → List (Bytes × Address)) (sim : NetworkSimulator σ) :
    FaultCall → List Offer
  | .traffic (.send data r m) => [(m, sim.sentPacket data r m)]
  | .traffic (.sendTo address data r m) => [(m, sim.sentToPacket address data r m)]
  | .traffic (.poll ms _) => sim.intercepted ms (queue (T.poll sim.inner))
  | _ => []

/-- The copies of a packet that are put into the delay queue. -/
def copies (sim : NetworkSimulator σ) (offer : Offer) : List QueuedPacket :=
  if sim.shouldDrop offer.1 then []
  else if sim.shouldDuplicate offer.1 then
    [offer.2, { offer.2 with deliverTime := offer.2.deliverTime + sim.jitterMs / 1000 }]
  else [offer.2]

/-- The copies of the packets that a call offers. -/
def made (T : ITransport σ) (queue : σ → List (Bytes × Address)) (sim : NetworkSimulator σ)
    (call : FaultCall) : List QueuedPacket :=
  (offered T queue sim call).flatMap sim.copies

/-- The packets that a call forwards. -/
def forwarded (sim : NetworkSimulator σ) : FaultCall → List QueuedPacket
  | .traffic call => sim.dueAt call
  | _ => []

/-- The packet that `pop_receive` takes from the ready queue. -/
def popped (sim : NetworkSimulator σ) : FaultCall → List QueuedPacket
  | .traffic (.popReceive _) => sim.readyQueue.head?.toList
  | _ => []

/-- The packets in the simulator. -/
def held (sim : NetworkSimulator σ) : List QueuedPacket := sim.readyQueue ++ sim.delayQueue

/-- The packets that `disconnect` throws away. -/
def thrownAway (sim : NetworkSimulator σ) : FaultCall → List QueuedPacket
  | .disconnect => sim.held
  | _ => []

/-- The packets that a call takes out of the simulator. -/
def gone (sim : NetworkSimulator σ) (call : FaultCall) : List QueuedPacket :=
  sim.forwarded call ++ (sim.popped call ++ sim.thrownAway call)

/-- A packet offered to the simulator: its copies go into the delay queue. -/
theorem delay_copies (sim : NetworkSimulator σ) (m : Moment) (pkt : QueuedPacket) :
    (if sim.shouldDrop m then sim else sim.delay m pkt) =
      { sim with delayQueue := sim.delayQueue ++ sim.copies (m, pkt) } := by
  have hdup : ∀ queue, ({ sim with delayQueue := queue } : NetworkSimulator σ).shouldDuplicate m =
      sim.shouldDuplicate m := fun _ => rfl
  unfold copies delay
  dsimp only
  rw [hdup]
  split_ifs
  · rw [append_nil]
  · rw [append_assoc, singleton_append]
  · rfl

theorem send_eq (data : Bytes) (r : PacketReliability) (m : Moment) (sim : NetworkSimulator σ) :
    (sim.send data r m).1 =
      { sim with delayQueue := sim.delayQueue ++ sim.copies (m, sim.sentPacket data r m) } := by
  rw [← delay_copies]
  unfold send
  split_ifs <;> rfl

theorem sendTo_eq (address : Address) (data : Bytes) (r : PacketReliability) (m : Moment)
    (sim : NetworkSimulator σ) : (sim.sendTo address data r m).1 =
      { sim with delayQueue := sim.delayQueue ++ sim.copies (m, sim.sentToPacket address data r m) } := by
  rw [← delay_copies]
  unfold sendTo
  split_ifs <;> rfl

section
variable {T : ITransport σ} {queue : σ → List (Bytes × Address)}

/-- The loop of `poll` puts the copies of all packets of the inner transport into the delay queue. -/
theorem intercept_copies (hT : Queued T queue) {ms : List Moment}
    {sim t : NetworkSimulator (σ × List InnerCall)}
    (h : intercept (Transport.recording T) ms sim = some t) :
    ∃ inner, inner.2 = sim.inner.2 ∧ t = { sim with
      inner := inner
      delayQueue := sim.delayQueue ++ (sim.intercepted ms (queue sim.inner.1)).flatMap sim.copies } := by
  induction ms generalizing sim with
  | nil =>
    rcases recording_pop hT BUFFER_SIZE sim.inner with ⟨inner, hq, hpop, hlog⟩ | ⟨_, _, _, _, hpop, _⟩
    · rw [intercept, hpop] at h
      cases h
      exact ⟨inner, hlog, by simp [intercepted]⟩
    · rw [intercept, hpop] at h
      cases h
  | cons m ms ih =>
    rcases recording_pop hT BUFFER_SIZE sim.inner with
      ⟨inner, hq, hpop, hlog⟩ | ⟨data, sender, inner, hq, hpop, hlog⟩
    · rw [intercept, hpop] at h
      cases h
      exact ⟨inner, hlog, by simp [intercepted, hq]⟩
    · rw [intercept, hpop] at h
      dsimp only at h
      rw [← apply_ite (intercept (Transport.recording T) ms), delay_copies] at h
      obtain ⟨inner', hlog', rfl⟩ := ih h
      have hcons : sim.intercepted (m :: ms) (queue sim.inner.1) =
          (m, sim.receivedPacket (data.take BUFFER_SIZE) sender m) :: sim.intercepted ms (queue inner.1) := by
        rw [hq]
        rfl
      refine ⟨inner', hlog'.trans hlog, ?_⟩
      rw [hcons, flatMap_cons, ← append_assoc]
      rfl

/-! ### One call -/

/-- Of the packets in a list, those that are due and forwarded, those that are due and made ready and
those that stay are all there are. -/
theorem due_perm (now : ℚ) (pkts : List QueuedPacket) :
    (pkts.filter fun pkt => pkt.deliverTime ≤ now ∧ pkt.outbound) ++
      ((pkts.filter fun pkt => pkt.deliverTime ≤ now ∧ pkt.outbound = false) ++
        pkts.filter fun pkt => ¬pkt.deliverTime ≤ now) ~ pkts := by
  have hdue := filter_append_perm (fun pkt : QueuedPacket => pkt.outbound)
    (pkts.filter fun pkt => pkt.deliverTime ≤ now)
  have hall := filter_append_perm (fun pkt : QueuedPacket => decide (pkt.deliverTime ≤ now)) pkts
  have hsplit := (hdue.append_right _).trans hall
  rw [filter_filter, filter_filter, append_assoc] at hsplit
  convert hsplit using 3
  · funext pkt
    simp [and_comm]
  · congr 1
    funext pkt
    simp [and_comm]
  · congr 1
    funext pkt
    exact decide_not

/-- What one call does with the packets of the simulator. -/
structure Accounts (queue : σ → List (Bytes × Address)) (T : ITransport σ)
    (sim : NetworkSimulator (σ × List InnerCall)) (call : FaultCall)
    (t : NetworkSimulator (σ × List InnerCall)) : Prop where
  record : t.inner.2 = sim.inner.2 ++ (sim.forwarded call).map QueuedPacket.call
  perm : sim.gone call ++ t.held ~ sim.held ++ made (Transport.recording T) (queue ·.1) sim call

/-- Every copy of an offer is the packet that was offered, but for its time. -/
theorem copy_eq {sim : NetworkSimulator σ} {offer : Offer} {pkt : QueuedPacket}
    (h : pkt ∈ sim.copies offer) : ∃ time, pkt = { offer.2 with deliverTime := time } ∧
      (time = offer.2.deliverTime ∨ time = offer.2.deliverTime + sim.jitterMs / 1000) := by
  unfold copies at h
  split_ifs at h
  · cases h
  · rcases mem_pair.mp h with rfl | rfl
    · exact ⟨_, rfl, .inl rfl⟩
    · exact ⟨_, rfl, .inr rfl⟩
  · rw [mem_singleton.mp h]
    exact ⟨_, rfl, .inl rfl⟩

/-- What `poll` takes from the inner transport is not sent back to it. -/
theorem inbound_of_intercepted {ms : List Moment} {packets : List (Bytes × Address)}
    {sim : NetworkSimulator σ} {pkt : QueuedPacket}
    (h : pkt ∈ (sim.intercepted ms packets).flatMap sim.copies) : pkt.outbound = false := by
  obtain ⟨offer, hoffer, hpkt⟩ := mem_flatMap.mp h
  obtain ⟨time, rfl, -⟩ := copy_eq hpkt
  obtain ⟨_, -, rfl⟩ := mem_map.mp hoffer
  rfl

/-- `poll`: what is due is forwarded or made ready, of what was there and of the copies made of what the
inner transport had. -/
theorem poll_spec (hT : Queued T queue) {sim t : NetworkSimulator (σ × List InnerCall)}
    {ms : List Moment} {now : ℚ} (h : sim.poll (Transport.recording T) ms now = some t) :
    ∃ inner pkts, inner.2 = sim.inner.2 ++ (sim.expired now).map QueuedPacket.call ∧
      pkts = sim.delayQueue ++ made (Transport.recording T) (queue ·.1) sim (.traffic (.poll ms now)) ∧
      t = { sim with
        inner := inner
        readyQueue := sim.readyQueue ++
          pkts.filter fun pkt => pkt.deliverTime ≤ now ∧ pkt.outbound = false
        delayQueue := pkts.filter fun pkt => ¬pkt.deliverTime ≤ now } ∧
      pkts.filter (fun pkt => pkt.deliverTime ≤ now ∧ pkt.outbound) = sim.expired now := by
  obtain ⟨u, hu, rfl⟩ := Option.map_eq_some_iff.mp h
  obtain ⟨inner, hlog, rfl⟩ := intercept_copies hT hu
  set new := made (Transport.recording T) (queue ·.1) sim (.traffic (.poll ms now)) with hnew
  have hexpired : (sim.delayQueue ++ new).filter (fun pkt => pkt.deliverTime ≤ now ∧ pkt.outbound) =
      sim.expired now := by
    have hnone : new.filter (fun pkt => pkt.deliverTime ≤ now ∧ pkt.outbound) = [] := by
      rw [filter_eq_nil_iff]
      intro pkt hpkt
      rw [inbound_of_intercepted hpkt]
      simp
    rw [filter_append, hnone, append_nil, expired]
  refine ⟨(sim.expired now).foldl (fun inner pkt => forward (Transport.recording T) pkt inner) inner, _,
    ?_, rfl, ?_, hexpired⟩
  · rw [record_foldl_forward, hlog]
    rfl
  · rw [moveExpired_eq, ← hexpired]
    rfl

theorem accounts_poll (hT : Queued T queue) {sim t : NetworkSimulator (σ × List InnerCall)}
    {ms : List Moment} {now : ℚ} (h : sim.poll (Transport.recording T) ms now = some t) :
    Accounts queue T sim (.traffic (.poll ms now)) t := by
  obtain ⟨inner, pkts, hlog, hpkts, rfl, hexpired⟩ := poll_spec hT h
  refine ⟨hlog, ?_⟩
  have hperm := due_perm now pkts
  rw [hexpired] at hperm
  calc (sim.expired now ++ []) ++ ((sim.readyQueue ++ pkts.filter fun pkt => pkt.deliverTime ≤ now ∧
          pkt.outbound = false) ++ pkts.filter fun pkt => ¬pkt.deliverTime ≤ now)
      ~ sim.readyQueue ++ pkts := by
        rw [append_nil, append_assoc]
        exact (perm_append_comm_assoc _ _ _).trans (hperm.append_left _)
    _ = sim.held ++ made (Transport.recording T) (queue ·.1) sim (.traffic (.poll ms now)) := by
        rw [hpkts, held, append_assoc]

theorem accounts (hT : Queued T queue) {sim t : NetworkSimulator (σ × List InnerCall)}
    {call : FaultCall} (h : faultStep (Transport.recording T) sim call = some t) :
    Accounts queue T sim call t := by
  cases call with
  | traffic call =>
    cases call with
    | send data r m =>
      cases h
      rw [send_eq]
      constructor <;> simp [gone, forwarded, popped, thrownAway, dueAt, held, made, offered]
    | sendTo address data r m =>
      cases h
      rw [sendTo_eq]
      constructor <;> simp [gone, forwarded, popped, thrownAway, dueAt, held, made, offered]
    | poll ms now => exact accounts_poll hT h
    | popReceive n =>
      cases h
      unfold popReceive
      rcases hready : sim.readyQueue with _ | ⟨pkt, rest⟩ <;>
        constructor <;> simp [gone, forwarded, popped, thrownAway, dueAt, held, made, offered, hready]
  | disconnect =>
    cases h
    constructor <;>
      simp [gone, forwarded, popped, thrownAway, held, made, offered, disconnect, Transport.recording]
  | _ =>
    cases h
    constructor <;>
      simp [gone, forwarded, popped, thrownAway, held, made, offered, bind, connect, setPacketLoss,
        setLatency, setJitter, setDuplication, Transport.recording]

/-! ### Runs -/

/-- A packet but for its time. -/
def untimed (pkt : QueuedPacket) : QueuedPacket := { pkt with deliverTime := 0 }

/-- How many copies of a packet are made. -/
def multiplicity (sim : NetworkSimulator σ) (m : Moment) : ℕ :=
  if sim.shouldDrop m then 0 else if sim.shouldDuplicate m then 2 else 1

theorem copies_untimed (sim : NetworkSimulator σ) (offer : Offer) :
    (sim.copies offer).map untimed = replicate (sim.multiplicity offer.1) (untimed offer.2) := by
  unfold copies multiplicity
  split_ifs <;> rfl

theorem multiplicity_le_two (sim : NetworkSimulator σ) (m : Moment) : sim.multiplicity m ≤ 2 := by
  unfold multiplicity
  split_ifs <;> decide

theorem multiplicity_le_one {sim : NetworkSimulator σ} (h : sim.duplication ≤ 0) (m : Moment) :
    sim.multiplicity m ≤ 1 := by
  have hdup : sim.shouldDuplicate m = false := if_pos h
  unfold multiplicity
  rw [hdup]
  split_ifs with _ hfalse
  · decide
  · cases hfalse
  · decide

theorem one_le_multiplicity {sim : NetworkSimulator σ} (h : sim.packetLoss ≤ 0) (m : Moment) :
    1 ≤ sim.multiplicity m := by
  have hdrop : sim.shouldDrop m = false := if_pos h
  unfold multiplicity
  rw [hdrop, if_neg (by decide)]
  split_ifs <;> decide

theorem multiplicity_eq_zero {sim : NetworkSimulator σ} {m : Moment} (h : 1 ≤ sim.packetLoss)
    (hm : m.dropDraw < 1) : sim.multiplicity m = 0 := by
  have hdrop : sim.shouldDrop m = true := by
    unfold shouldDrop
    rw [if_neg (by linarith)]
    exact decide_eq_true (by linarith)
  unfold multiplicity
  rw [hdrop, if_pos rfl]

theorem count_made_le {sim : NetworkSimulator σ} {call : FaultCall} {k : ℕ} (x : QueuedPacket)
    (h : ∀ offer ∈ offered T queue sim call, sim.multiplicity offer.1 ≤ k) :
    ((made T queue sim call).map untimed).count x ≤
      k * ((offered T queue sim call).map fun offer => untimed offer.2).count x := by
  unfold made
  generalize offered T queue sim call = offers at h
  induction offers with
  | nil => simp
  | cons offer offers ih =>
    have hrest := ih fun offer' h' => h offer' (mem_cons_of_mem _ h')
    have hhead := h offer mem_cons_self
    rw [flatMap_cons, map_append, count_append, copies_untimed, count_replicate, map_cons, count_cons,
      Nat.mul_add]
    split_ifs <;> omega

theorem le_count_made {sim : NetworkSimulator σ} {call : FaultCall} (x : QueuedPacket)
    (h : ∀ offer ∈ offered T queue sim call, 1 ≤ sim.multiplicity offer.1) :
    ((offered T queue sim call).map fun offer => untimed offer.2).count x ≤
      1 * ((made T queue sim call).map untimed).count x := by
  unfold made
  generalize offered T queue sim call = offers at h
  induction offers with
  | nil => simp
  | cons offer offers ih =>
    have hrest := ih fun offer' h' => h offer' (mem_cons_of_mem _ h')
    have hhead := h offer mem_cons_self
    rw [flatMap_cons, map_append, count_append, copies_untimed, count_replicate, map_cons, count_cons]
    split_ifs <;> omega

/-- The packets of the offers of a run, but for their time. -/
def offers (T : ITransport σ) (queue : σ → List (Bytes × Address))
    (sim : NetworkSimulator (σ × List InnerCall)) (calls : List FaultCall) : List QueuedPacket :=
  gather (faultStep (Transport.recording T))
    (fun s l => (offered (Transport.recording T) (queue ·.1) s l).map fun offer => untimed offer.2) sim calls

/-- Where the packets of a run are at its end, but for their time: forwarded, taken by `pop_receive`,
thrown away or still in the simulator. -/
def fates (T : ITransport σ) (sim : NetworkSimulator (σ × List InnerCall)) (calls : List FaultCall)
    (t : NetworkSimulator (σ × List InnerCall)) : List QueuedPacket :=
  ((gather (faultStep (Transport.recording T)) forwarded sim calls ++
    (gather (faultStep (Transport.recording T)) popped sim calls ++
      gather (faultStep (Transport.recording T)) thrownAway sim calls)) ++ t.held).map untimed

/-- All packets that a call offers are dropped. -/
def Blackout (T : ITransport σ) (queue : σ → List (Bytes × Address)) (sim : NetworkSimulator σ)
    (call : FaultCall) : Prop :=
  1 ≤ sim.packetLoss ∧ ∀ offer ∈ offered T queue sim call, offer.1.dropDraw < 1

theorem record_gather (hT : Queued T queue) {sim t : NetworkSimulator (σ × List InnerCall)}
    {calls : List FaultCall} (h : exec (faultStep (Transport.recording T)) sim calls = some t) :
    t.inner.2 = sim.inner.2 ++
      (gather (faultStep (Transport.recording T)) forwarded sim calls).map QueuedPacket.call := by
  rw [← gather_map]
  exact log_gather (fun s => s.inner.2) (I := fun _ => True) (fun _ _ _ _ _ => trivial)
    (fun _ _ _ _ hu => (accounts hT hu).record) trivial h

/-- Of every run from a simulator that holds nothing: what has left it and what it holds are the copies
of what was offered to it. -/
theorem gone_held_perm (hT : Queued T queue) {sim t : NetworkSimulator (σ × List InnerCall)}
    (hempty : sim.held = []) {calls : List FaultCall}
    (h : exec (faultStep (Transport.recording T)) sim calls = some t) :
    gather (faultStep (Transport.recording T)) gone sim calls ++ t.held ~
      gather (faultStep (Transport.recording T)) (made (Transport.recording T) (queue ·.1)) sim calls := by
  have hperm := gather_perm held (I := fun _ => True) (fun _ _ _ _ _ => trivial)
    (fun _ _ _ _ hu => (accounts hT hu).perm) trivial h
  rwa [hempty, nil_append] at hperm

theorem count_fates (hT : Queued T queue) {sim t : NetworkSimulator (σ × List InnerCall)}
    (hempty : sim.held = []) {calls : List FaultCall}
    (h : exec (faultStep (Transport.recording T)) sim calls = some t) (x : QueuedPacket) :
    (fates T sim calls t).count x = (gather (faultStep (Transport.recording T))
      (fun s l => (made (Transport.recording T) (queue ·.1) s l).map untimed) sim calls).count x := by
  have hbooks : gather (faultStep (Transport.recording T)) gone sim calls ~ _ :=
    (gather_append sim calls).trans ((gather_append sim calls).append_left _)
  rw [gather_map, fates]
  exact (((hbooks.append_right _).symm.trans (gone_held_perm hT hempty h)).map untimed).count_eq x

/-- The books of a run, from a simulator that holds nothing: all that it forwards is on record, and no
packet is forwarded, handed out, thrown away and held more often than twice what it was offered. Without
duplication it is no more often than offered, without loss no less often, and with a loss of 1 never. -/
theorem settles (hT : Queued T queue) {sim t : NetworkSimulator (σ × List InnerCall)}
    (hempty : sim.held = []) {calls : List FaultCall}
    (h : exec (faultStep (Transport.recording T)) sim calls = some t) (x : QueuedPacket) :
    t.inner.2 = sim.inner.2 ++
        (gather (faultStep (Transport.recording T)) forwarded sim calls).map QueuedPacket.call ∧
      (fates T sim calls t).count x ≤ 2 * (offers T queue sim calls).count x ∧
      (Admits (faultStep (Transport.recording T)) (fun s _ => s.duplication ≤ 0) sim calls →
        (fates T sim calls t).count x ≤ (offers T queue sim calls).count x) ∧
      (Admits (faultStep (Transport.recording T)) (fun s _ => s.packetLoss ≤ 0) sim calls →
        (offers T queue sim calls).count x ≤ (fates T sim calls t).count x) ∧
      (Admits (faultStep (Transport.recording T)) (Blackout (Transport.recording T) (queue ·.1)) sim calls →
        (fates T sim calls t).count x = 0) := by
  rw [count_fates hT hempty h]
  refine ⟨record_gather hT h, ?_, ?_, ?_, ?_⟩
  · have hall : Admits (faultStep (Transport.recording T)) (fun _ _ => True) sim calls :=
      .of_forall (fun _ _ _ => trivial) sim
    exact count_gather_le (fun _ _ _ => count_made_le x fun _ _ => multiplicity_le_two _ _) hall
  · intro hsingle
    rw [← Nat.one_mul (count x (offers T queue sim calls))]
    exact count_gather_le (fun _ _ hok => count_made_le x fun _ _ => multiplicity_le_one hok _) hsingle
  · intro hlossless
    rw [← Nat.one_mul (count x (gather _ _ _ _))]
    exact count_gather_le (fun _ _ hok => le_count_made x fun _ _ => one_le_multiplicity hok _) hlossless
  · intro hblackout
    rw [← Nat.le_zero, ← Nat.zero_mul (count x (offers T queue sim calls))]
    exact count_gather_le (fun _ _ hok => count_made_le x fun offer hoffer =>
      (multiplicity_eq_zero hok.1 (hok.2 offer hoffer)).le) hblackout

/-! ### Delays -/

/-- What the generator draws lies between the bounds that it is given. -/
def InRange (sim : NetworkSimulator σ) (m : Moment) : Prop :=
  (sim.latencyMinMs < sim.latencyMaxMs →
    sim.latencyMinMs ≤ m.latencyDraw ∧ m.latencyDraw ≤ sim.latencyMaxMs) ∧
  (0 < sim.jitterMs → -sim.jitterMs ≤ m.jitterDraw ∧ m.jitterDraw ≤ sim.jitterMs)

/-- The draws for the packets that a call offers are in range. -/
def Fair (T : ITransport σ) (queue : σ → List (Bytes × Address)) (sim : NetworkSimulator σ)
    (call : FaultCall) : Prop :=
  ∀ offer ∈ offered T queue sim call, sim.InRange offer.1

/-- The least delay of a packet, in seconds. A negative jitter lets the second copy come before it. -/
def leastDelay (sim : NetworkSimulator σ) : ℚ :=
  (max 0 (sim.latencyMinMs - max 0 sim.jitterMs) + min 0 sim.jitterMs) / 1000

/-- The greatest delay of a packet, in seconds: the second copy comes later by the jitter. -/
def greatestDelay (sim : NetworkSimulator σ) : ℚ :=
  (max 0 (max sim.latencyMinMs sim.latencyMaxMs + max 0 sim.jitterMs) + max 0 sim.jitterMs) / 1000

theorem calculateDelayS_bounds {sim : NetworkSimulator σ} {m : Moment} (h : sim.InRange m) :
    max 0 (sim.latencyMinMs - max 0 sim.jitterMs) / 1000 ≤ sim.calculateDelayS m ∧
      sim.calculateDelayS m ≤ max 0 (max sim.latencyMinMs sim.latencyMaxMs + max 0 sim.jitterMs) / 1000 := by
  have hmono : ∀ a b : ℚ, a ≤ b → max 0 a / 1000 ≤ max 0 b / 1000 := by
    intro a b hab
    exact div_le_div_of_nonneg_right (max_le_max_left 0 hab) (by norm_num)
  have hmin : sim.latencyMinMs ≤ max sim.latencyMinMs sim.latencyMaxMs := le_max_left _ _
  have hmax : sim.latencyMaxMs ≤ max sim.latencyMinMs sim.latencyMaxMs := le_max_right _ _
  have hzero : 0 ≤ max 0 sim.jitterMs := le_max_left _ _
  have hpos : sim.jitterMs ≤ max 0 sim.jitterMs := le_max_right _ _
  unfold calculateDelayS
  dsimp only
  constructor <;> apply hmono <;> split_ifs with hj hl hl
  · linarith [h.1 hl, h.2 hj]
  · linarith [h.2 hj]
  · linarith [h.1 hl]
  · linarith
  · linarith [h.1 hl, h.2 hj]
  · linarith [h.2 hj]
  · linarith [h.1 hl]
  · linarith

theorem offered_time {sim : NetworkSimulator σ} {call : FaultCall} {offer : Offer}
    (h : offer ∈ offered T queue sim call) :
    offer.2.deliverTime = offer.1.now + sim.calculateDelayS offer.1 := by
  unfold offered at h
  split at h
  · rw [mem_singleton.mp h]
    rfl
  · rw [mem_singleton.mp h]
    rfl
  · obtain ⟨_, -, rfl⟩ := mem_map.mp h
    rfl
  · cases h

/-- When a copy of a packet is due. -/
theorem copy_bounds {sim : NetworkSimulator σ} {call : FaultCall} {offer : Offer} {pkt : QueuedPacket}
    (hoffer : offer ∈ offered T queue sim call) (hm : sim.InRange offer.1) (h : pkt ∈ sim.copies offer) :
    offer.1.now + sim.leastDelay ≤ pkt.deliverTime ∧ pkt.deliverTime ≤ offer.1.now + sim.greatestDelay := by
  have htime := offered_time hoffer
  obtain ⟨hleast, hgreatest⟩ := calculateDelayS_bounds hm
  obtain ⟨time, rfl, htime'⟩ := copy_eq h
  have hmin : min 0 sim.jitterMs ≤ 0 := min_le_left _ _
  have hmin' : min 0 sim.jitterMs ≤ sim.jitterMs := min_le_right _ _
  have hmax : 0 ≤ max 0 sim.jitterMs := le_max_left _ _
  have hmax' : sim.jitterMs ≤ max 0 sim.jitterMs := le_max_right _ _
  rw [leastDelay, greatestDelay, add_div, add_div]
  rcases htime' with rfl | rfl <;> constructor <;> dsimp only <;> linarith

/-- A packet is a copy of one that was offered in a run at `m`, with the faults that `u` has. -/
def Origin (T : ITransport σ) (queue : σ → List (Bytes × Address))
    (sim : NetworkSimulator (σ × List InnerCall)) (calls : List FaultCall) (pkt : QueuedPacket)
    (u : NetworkSimulator (σ × List InnerCall)) (m : Moment) : Prop :=
  ∃ pre call post, calls = pre ++ call :: post ∧ exec (faultStep (Transport.recording T)) sim pre = some u ∧
    ∃ offer ∈ offered (Transport.recording T) (queue ·.1) u call, offer.1 = m ∧ pkt ∈ u.copies offer

theorem origin_bounds {sim : NetworkSimulator (σ × List InnerCall)} {calls : List FaultCall}
    {pkt : QueuedPacket}
    (hfair : Admits (faultStep (Transport.recording T)) (Fair (Transport.recording T) (queue ·.1)) sim calls)
    (h : pkt ∈ gather (faultStep (Transport.recording T)) (made (Transport.recording T) (queue ·.1))
      sim calls) :
    ∃ u m, Origin T queue sim calls pkt u m ∧ m.now + u.leastDelay ≤ pkt.deliverTime ∧
      pkt.deliverTime ≤ m.now + u.greatestDelay := by
  obtain ⟨pre, call, post, u, rfl, hu, hmade⟩ := mem_gather.mp h
  obtain ⟨offer, hoffer, hpkt⟩ := mem_flatMap.mp hmade
  have hrange := hfair.mid hu offer hoffer
  exact ⟨u, offer.1, ⟨pre, call, post, rfl, hu, offer, hoffer, rfl, hpkt⟩, copy_bounds hoffer hrange hpkt⟩

/-- What `poll` looks through are copies of packets that were offered in the run. -/
theorem mem_made_of_poll (hT : Queued T queue) {sim s : NetworkSimulator (σ × List InnerCall)}
    (hempty : sim.held = []) {calls : List FaultCall} {call : FaultCall} {pkt : QueuedPacket}
    (hs : exec (faultStep (Transport.recording T)) sim calls = some s)
    (h : pkt ∈ s.delayQueue ++ made (Transport.recording T) (queue ·.1) s call) :
    pkt ∈ gather (faultStep (Transport.recording T)) (made (Transport.recording T) (queue ·.1)) sim
      (calls ++ [call]) := by
  rcases mem_append.mp h with hheld | hmade
  · apply gather_prefix
    rw [← (gone_held_perm hT hempty hs).mem_iff]
    exact mem_append_right _ (mem_append_right _ hheld)
  · exact mem_gather.mpr ⟨calls, call, [], s, rfl, hs, hmade⟩

/-- Nothing leaves the delay queue before its least delay is over, and behind a `poll` nothing is in it whose
greatest delay is over, for the latency and the jitter that were set when it was offered. -/
theorem leaves_in_time (hT : Queued T queue) {sim s t : NetworkSimulator (σ × List InnerCall)}
    (hempty : sim.held = []) {calls : List FaultCall} {ms : List Moment} {now : ℚ}
    (hs : exec (faultStep (Transport.recording T)) sim calls = some s)
    (ht : s.poll (Transport.recording T) ms now = some t)
    (hfair : Admits (faultStep (Transport.recording T)) (Fair (Transport.recording T) (queue ·.1)) sim
      (calls ++ [.traffic (.poll ms now)])) :
    ∃ forwarded readied, t.inner.2 = s.inner.2 ++ forwarded.map QueuedPacket.call ∧
      t.readyQueue = s.readyQueue ++ readied ∧
      (∀ pkt ∈ forwarded ++ readied, ∃ u m,
        Origin T queue sim (calls ++ [.traffic (.poll ms now)]) pkt u m ∧ m.now + u.leastDelay ≤ now) ∧
      ∀ pkt ∈ t.delayQueue, ∃ u m,
        Origin T queue sim (calls ++ [.traffic (.poll ms now)]) pkt u m ∧ now < m.now + u.greatestDelay := by
  obtain ⟨inner, pkts, hlog, hpkts, rfl, hexpired⟩ := poll_spec hT ht
  have horigin : ∀ pkt ∈ pkts, ∃ u m, Origin T queue sim (calls ++ [.traffic (.poll ms now)]) pkt u m ∧
      m.now + u.leastDelay ≤ pkt.deliverTime ∧ pkt.deliverTime ≤ m.now + u.greatestDelay := by
    intro pkt hpkt
    rw [hpkts] at hpkt
    exact origin_bounds hfair (mem_made_of_poll hT hempty hs hpkt)
  refine ⟨s.expired now, _, hlog, rfl, ?_, ?_⟩
  · intro pkt hpkt
    have hdue : pkt ∈ pkts ∧ pkt.deliverTime ≤ now := by
      rw [← hexpired] at hpkt
      rcases mem_append.mp hpkt with hpkt | hpkt
      · have hmem := mem_filter.mp hpkt
        exact ⟨hmem.1, (of_decide_eq_true hmem.2).1⟩
      · have hmem := mem_filter.mp hpkt
        exact ⟨hmem.1, (of_decide_eq_true hmem.2).1⟩
    obtain ⟨u, m, hfrom, hleast, -⟩ := horigin pkt hdue.1
    exact ⟨u, m, hfrom, hleast.trans hdue.2⟩
  · intro pkt hpkt
    have hmem := mem_filter.mp hpkt
    have hlate : ¬pkt.deliverTime ≤ now := of_decide_eq_true hmem.2
    obtain ⟨u, m, hfrom, -, hgreatest⟩ := horigin pkt hmem.1
    exact ⟨u, m, hfrom, (lt_of_not_ge hlate).trans_le hgreatest⟩

end

/-! ### A packet that is doubled -/

open LoopbackTransport LoopbackHub

instance (sim : NetworkSimulator σ) (m : Moment) : Decidable (sim.InRange m) :=
  inferInstanceAs (Decidable (_ ∧ _))

instance (T : ITransport σ) (queue : σ → List (Bytes × Address)) (sim : NetworkSimulator σ)
    (call : FaultCall) : Decidable (Fair T queue sim call) :=
  inferInstanceAs (Decidable (∀ offer ∈ offered T queue sim call, sim.InRange offer.1))

/-- A simulator that holds nothing, around the loopback transport of a server. -/
def fresh : NetworkSimulator (LoopbackHub × List InnerCall) := { inner := (arrived [], []) }

/-- Duplication is set to more than 1 and a byte is sent, to arrive after 300 ms and 800 ms. -/
def doubling : List FaultCall :=
  [.setDuplication 2, .setLatency 100 300, .setJitter 500,
    .traffic (.send [7] .unreliable
      { now := 0, duplicateDraw := 1 / 2, latencyDraw := 200, jitterDraw := 100 })]

/-- Both copies are forwarded, which is as often as they may be. -/
theorem settles_doubling : ∃ t,
    exec (faultStep (recording (iTransport 0))) fresh (doubling ++ [.traffic (.poll [] 1)]) = some t ∧
      t.inner.2 = [.send [7] .unreliable, .send [7] .unreliable] ∧
      (fates (iTransport 0) fresh (doubling ++ [.traffic (.poll [] 1)]) t).count
          { deliverTime := 0, data := [7], outbound := true } ≤
        2 * (offers (iTransport 0) (ready 0) fresh (doubling ++ [.traffic (.poll [] 1)])).count
          { deliverTime := 0, data := [7], outbound := true } := by
  have hrun : (exec (faultStep (recording (iTransport 0))) fresh (doubling ++ [.traffic (.poll [] 1)])).map
      (fun t => t.inner.2) = some [.send [7] .unreliable, .send [7] .unreliable] := by decide +kernel
  obtain ⟨t, ht, hrecord⟩ := Option.map_eq_some_iff.mp hrun
  exact ⟨t, ht, hrecord, (settles (queued 0) rfl ht _).2.1⟩

/-- At half a second the first copy is forwarded and the second one is still delayed. -/
theorem leaves_in_time_doubling : ∃ s t,
    exec (faultStep (recording (iTransport 0))) fresh doubling = some s ∧
      s.poll (recording (iTransport 0)) [] (1 / 2) = some t ∧
      t.inner.2 = [.send [7] .unreliable] ∧ t.delayQueue.length = 1 ∧
      ∀ pkt ∈ t.delayQueue, ∃ u m, Origin (iTransport 0) (ready 0) fresh
        (doubling ++ [.traffic (.poll [] (1 / 2))]) pkt u m ∧ 1 / 2 < m.now + u.greatestDelay := by
  have hrun : ((exec (faultStep (recording (iTransport 0))) fresh doubling).bind fun s =>
      (s.poll (recording (iTransport 0)) [] (1 / 2)).map fun t => (t.inner.2, t.delayQueue.length)) =
        some ([.send [7] .unreliable], 1) := by decide +kernel
  obtain ⟨s, hs, hpoll⟩ := Option.bind_eq_some_iff.mp hrun
  obtain ⟨t, ht, heq⟩ := Option.map_eq_some_iff.mp hpoll
  have hfair : Admits (faultStep (recording (iTransport 0))) (Fair (recording (iTransport 0)) (ready 0 ·.1))
      fresh (doubling ++ [.traffic (.poll [] (1 / 2))]) := by decide +kernel
  obtain ⟨_, _, _, _, _, hlate⟩ := leaves_in_time (queued 0) rfl hs ht hfair
  exact ⟨s, t, hs, ht, (Prod.ext_iff.mp heq).1, (Prod.ext_iff.mp heq).2, hlate⟩

end CampelloNet.Transport.NetworkSimulator
