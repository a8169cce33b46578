import CampelloNet.Lib.Ledger
import CampelloNet.Transport.NetworkSimulator
import CampelloNet.Transport.Queue

/-!
# What the simulator does with its traffic

The simulator without loss and duplication around a transport with a queue, of which a record is kept
of what it was asked to send. What is sent is forwarded once, when its time has come. What is
received goes through a buffer of 2048 bytes and then through the caller's, so it arrives as it was
exactly if both hold it.
-/

namespace CampelloNet.Transport

open Lib Lib.Run List

/-! ### The record -/

/-- What a transport is asked to send. -/
inductive InnerCall
  | send (data : Bytes) (reliability : PacketReliability)
  | sendTo (address : Address) (data : Bytes) (reliability : PacketReliability)
  deriving DecidableEq

variable {σ : Type}

/-- A transport with a record of what it was asked to send. -/
def recording (T : ITransport σ) : ITransport (σ × List InnerCall) where
  bind address s := ((((T.bind address s.1).1, s.2)), (T.bind address s.1).2)
  connect address s := ((((T.connect address s.1).1, s.2)), (T.connect address s.1).2)
  disconnect s := (T.disconnect s.1, s.2)
  isConnected s := T.isConnected s.1
  send data r s := (((T.send data r s.1).1, s.2 ++ [.send data r]), (T.send data r s.1).2)
  sendTo address data r s :=
    (((T.sendTo address data r s.1).1, s.2 ++ [.sendTo address data r]),
      (T.sendTo address data r s.1).2)
  poll s := (T.poll s.1, s.2)
  popReceive n s := (((T.popReceive n s.1).1, s.2), (T.popReceive n s.1).2)
  getConnectionRtt address s := T.getConnectionRtt address s.1

/-- How the inner transport is asked to send a packet. -/
def QueuedPacket.call (pkt : QueuedPacket) : InnerCall :=
  if pkt.targeted then .sendTo pkt.target pkt.data pkt.reliability
  else .send pkt.data pkt.reliability

section
variable {T : ITransport σ} {queue : σ → List (Bytes × Address)}

theorem Queued.recording (hT : Queued T queue) : Queued (Transport.recording T) (queue ·.1) where
  pop_nil n s h := hT.pop_nil n s.1 h
  pop_cons n s data sender rest h := hT.pop_cons n s.1 data sender rest h
  send data r s := hT.send data r s.1
  sendTo address data r s := hT.sendTo address data r s.1
  disconnect s := hT.disconnect s.1

/-- `pop_receive` leaves the record alone. -/
theorem recording_pop (hT : Queued T queue) (n : ℕ) (inner : σ × List InnerCall) :
    (∃ after, queue inner.1 = [] ∧ (Transport.recording T).popReceive n inner = (after, none) ∧
      after.2 = inner.2) ∨
    ∃ data sender after, queue inner.1 = (data, sender) :: queue after.1 ∧
      (Transport.recording T).popReceive n inner = (after, some (data.take n, sender)) ∧
      after.2 = inner.2 := by
  rcases hT.recording.pop_cases n inner with ⟨after, hq, hpop⟩ | ⟨data, sender, after, hq, hpop⟩
  · exact .inl ⟨after, hq, hpop, congrArg (·.1.2) hpop.symm⟩
  · exact .inr ⟨data, sender, after, hq, hpop, congrArg (·.1.2) hpop.symm⟩

end

namespace NetworkSimulator

/-- A packet as the layers above see it. -/
def content (pkt : QueuedPacket) : Bytes × Address := (pkt.data, pkt.sender)

/-! ### Calls -/

/-- A call into the simulator, with what the clock and the generator say during it. -/
inductive Call
  | send (data : Bytes) (reliability : PacketReliability) (m : Moment)
  | sendTo (address : Address) (data : Bytes) (reliability : PacketReliability) (m : Moment)
  | poll (ms : List Moment) (now : ℚ)
  | popReceive (maxLength : ℕ)

def step (T : ITransport σ) (sim : NetworkSimulator σ) : Call → Option (NetworkSimulator σ)
  | .send data r m => some (sim.send data r m).1
  | .sendTo address data r m => some (sim.sendTo address data r m).1
  | .poll ms now => sim.poll T ms now
  | .popReceive n => some (sim.popReceive n).1

/-- The packets that a call gives to the simulator, with the time they are to be forwarded at. -/
def given (sim : NetworkSimulator σ) : Call → List QueuedPacket
  | .send data r m => [sim.sentPacket data r m]
  | .sendTo address data r m => [sim.sentToPacket address data r m]
  | _ => []

/-- The packets that a call takes from the inner transport, whose queue is `queue`. -/
def received (T : ITransport σ) (queue : σ → List (Bytes × Address)) (sim : NetworkSimulator σ) :
    Call → List (Bytes × Address)
  | .poll _ _ => queue (T.poll sim.inner)
  | _ => []

/-- What `pop_receive` hands out. -/
def delivered (sim : NetworkSimulator σ) : Call → List (Bytes × Address)
  | .popReceive n => (sim.popReceive n).2.toList
  | _ => []

/-- The packets on their way out. -/
def outbound (sim : NetworkSimulator σ) : List QueuedPacket := sim.delayQueue.filter (·.outbound)

/-- The packets on their way in. -/
def inbound (sim : NetworkSimulator σ) : List (Bytes × Address) :=
  (sim.readyQueue ++ sim.delayQueue.filter (!·.outbound)).map content

variable (T : ITransport σ) (queue : σ → List (Bytes × Address))

/-- The simulator conserves its traffic over the calls that lead from one state to another. -/
structure Conserves (sim : NetworkSimulator (σ × List InnerCall)) (calls : List Call)
    (t : NetworkSimulator (σ × List InnerCall)) : Prop where
  /-- what was given is forwarded, each packet once, or still delayed -/
  forwarded : ∃ due : List QueuedPacket, t.inner.2 = sim.inner.2 ++ due.map QueuedPacket.call ∧
    due ++ t.outbound ~ sim.outbound ++ gather (step (recording T)) given sim calls
  /-- nothing is forwarded but by a `poll`, and nothing before its time has come -/
  waited : ∀ pre call post u v, calls = pre ++ call :: post →
    exec (step (recording T)) sim pre = some u → step (recording T) u call = some v →
    ∃ due : List QueuedPacket, v.inner.2 = u.inner.2 ++ due.map QueuedPacket.call ∧
      ∀ pkt ∈ due, pkt ∈ u.outbound ∧ ∃ ms now, call = .poll ms now ∧ pkt.deliverTime ≤ now
  /-- behind a `poll`, nothing is delayed whose time has come -/
  due : ∀ pre ms now post u, calls = pre ++ .poll ms now :: post →
    exec (step (recording T)) sim (pre ++ [.poll ms now]) = some u →
    ∀ pkt ∈ u.delayQueue, now < pkt.deliverTime
  /-- what was received is handed out, each packet once and as it was, or still on its way -/
  delivered : gather (step (recording T)) delivered sim calls ++ t.inbound ~
    sim.inbound ++ gather (step (recording T)) (received (recording T) (queue ·.1)) sim calls

/-- The packets of the inner transport fit into the buffer of `poll`, the packet that is popped into
the buffer of the caller. -/
def Room (sim : NetworkSimulator (σ × List InnerCall)) : Call → Prop
  | .poll _ _ => ∀ packet ∈ queue (T.poll sim.inner.1), packet.1.length ≤ BUFFER_SIZE
  | .popReceive n => ∀ pkt ∈ sim.readyQueue.head?, pkt.data.length ≤ n
  | _ => True

instance (sim : NetworkSimulator (σ × List InnerCall)) (call : Call) :
    Decidable (Room T queue sim call) :=
  match call with
  | .poll _ _ => inferInstanceAs (Decidable (∀ packet ∈ queue (T.poll sim.inner.1), _))
  | .popReceive _ => inferInstanceAs (Decidable (∀ pkt ∈ sim.readyQueue.head?, _))
  | .send _ _ _ | .sendTo _ _ _ _ => inferInstanceAs (Decidable True)

/-! ### The queue and the record -/

section
variable {T queue}

theorem record_forward (pkt : QueuedPacket) (inner : σ × List InnerCall) :
    (forward (Transport.recording T) pkt inner).2 = inner.2 ++ [pkt.call] := by
  unfold forward QueuedPacket.call
  cases pkt.targeted <;> rfl

theorem record_foldl_forward (pkts : List QueuedPacket) (inner : σ × List InnerCall) :
    (pkts.foldl (fun inner pkt => forward (Transport.recording T) pkt inner) inner).2 =
      inner.2 ++ pkts.map QueuedPacket.call := by
  induction pkts generalizing inner with
  | nil => simp
  | cons pkt pkts ih => rw [foldl_cons, ih, record_forward, map_cons, append_assoc, singleton_append]

/-! ### Without loss and duplication -/

/-- Packet loss and duplication are 0. -/
def Clean (sim : NetworkSimulator σ) : Prop := sim.packetLoss = 0 ∧ sim.duplication = 0

theorem Clean.shouldDrop {sim : NetworkSimulator σ} (h : sim.Clean) (m : Moment) :
    sim.shouldDrop m = false := if_pos h.1.le

theorem Clean.delay {sim : NetworkSimulator σ} (h : sim.Clean) (m : Moment) (pkt : QueuedPacket) :
    sim.delay m pkt = { sim with delayQueue := sim.delayQueue ++ [pkt] } := by
  have hdup : ({ sim with delayQueue := sim.delayQueue ++ [pkt] } : NetworkSimulator σ).shouldDuplicate m =
      false := if_pos h.2.le
  unfold NetworkSimulator.delay
  dsimp only
  rw [hdup]
  rfl

theorem moveExpired_eq (T : ITransport σ) (now : ℚ) (pkts : List QueuedPacket) (sim : NetworkSimulator σ) :
    moveExpired T now pkts sim =
      { sim with
        inner := (pkts.filter fun pkt => pkt.deliverTime ≤ now ∧ pkt.outbound).foldl
          (fun inner pkt => forward T pkt inner) sim.inner
        readyQueue := sim.readyQueue ++
          pkts.filter fun pkt => pkt.deliverTime ≤ now ∧ pkt.outbound = false
        delayQueue := sim.delayQueue ++ pkts.filter fun pkt => ¬pkt.deliverTime ≤ now } := by
  induction pkts generalizing sim with
  | nil => simp [moveExpired]
  | cons pkt pkts ih =>
    rw [moveExpired]
    by_cases hdue : pkt.deliverTime ≤ now
    · rcases hout : pkt.outbound with _ | _
      · rw [if_pos hdue, if_neg (by decide), ih]
        simp [hdue, hout, not_lt.mpr hdue]
      · rw [if_pos hdue, if_pos rfl, ih]
        simp [hdue, hout, not_lt.mpr hdue]
    · rw [if_neg hdue, ih]
      simp [hdue, lt_of_not_ge hdue]

/-- A packet that went through the buffer of `poll`. -/
def cut (packet : Bytes × Address) : Bytes × Address := (packet.1.take BUFFER_SIZE, packet.2)

/-- The loop of `poll` empties the queue of the inner transport into the delay queue. -/
theorem intercept_spec (hT : Queued T queue) {ms : List Moment}
    {sim t : NetworkSimulator (σ × List InnerCall)} (hc : sim.Clean)
    (h : intercept (Transport.recording T) ms sim = some t) :
    ∃ inner new, t = { sim with inner := inner, delayQueue := sim.delayQueue ++ new } ∧
      inner.2 = sim.inner.2 ∧ new.map content = (queue sim.inner.1).map cut ∧
      ∀ pkt ∈ new, pkt.outbound = false := by
  induction ms generalizing sim with
  | nil =>
    rcases recording_pop hT BUFFER_SIZE sim.inner with ⟨inner, hq, hpop, hlog⟩ | ⟨_, _, _, _, hpop, _⟩
    · rw [intercept, hpop] at h
      cases h
      exact ⟨inner, [], by simp, hlog, by simp [hq], by simp⟩
    · rw [intercept, hpop] at h
      cases h
  | cons m ms ih =>
    rcases recording_pop hT BUFFER_SIZE sim.inner with
      ⟨inner, hq, hpop, hlog⟩ | ⟨data, sender, inner, hq, hpop, hlog⟩
    · rw [intercept, hpop] at h
      cases h
      exact ⟨inner, [], by simp, hlog, by simp [hq], by simp⟩
    · have hclean : ({ sim with inner := inner } : NetworkSimulator (σ × List InnerCall)).Clean := hc
      rw [intercept, hpop] at h
      dsimp only at h
      rw [hclean.shouldDrop, if_neg (by decide), hclean.delay] at h
      obtain ⟨inner', new, rfl, hlog', hnew, hin⟩ := ih (by exact hc) h
      refine ⟨inner', receivedPacket (data.take BUFFER_SIZE) sender m { sim with inner := inner } :: new,
        by simp, hlog'.trans hlog, ?_, ?_⟩
      · rw [map_cons, hnew, hq, map_cons]
        rfl
      · intro pkt hpkt
        rcases mem_cons.mp hpkt with rfl | hpkt
        · rfl
        · exact hin pkt hpkt

/-- A moment for each packet is enough for the loop to come to its end. -/
theorem isSome_intercept (hT : Queued T queue) (ms : List Moment) (sim : NetworkSimulator σ) :
    (intercept T ms sim).isSome ↔ (queue sim.inner).length ≤ ms.length := by
  induction ms generalizing sim with
  | nil =>
    rcases hT.pop_cases BUFFER_SIZE sim.inner with ⟨inner, hq, hpop⟩ | ⟨data, sender, inner, hq, hpop⟩ <;>
      simp [intercept, hpop, hq]
  | cons m ms ih =>
    rcases hT.pop_cases BUFFER_SIZE sim.inner with ⟨inner, hq, hpop⟩ | ⟨data, sender, inner, hq, hpop⟩
    · simp [intercept, hpop, hq]
    · have hdelay : ∀ (sim : NetworkSimulator σ) (pkt : QueuedPacket), (sim.delay m pkt).inner = sim.inner := by
        intro sim pkt
        unfold delay
        dsimp only
        split <;> rfl
      rw [intercept, hpop, hq, length_cons, length_cons, Nat.add_le_add_iff_right]
      dsimp only
      split
      · exact ih _
      · rw [ih, hdelay]

/-- A poll returns if there is a draw for each packet that waits. -/
theorem isSome_poll (hT : Queued T queue) (ms : List Moment) (now : ℚ) (sim : NetworkSimulator σ) :
    (sim.poll T ms now).isSome ↔ (queue (T.poll sim.inner)).length ≤ ms.length := by
  unfold poll
  rw [Option.isSome_map, isSome_intercept hT]

/-- The outbound packets whose time has come. -/
def expired (now : ℚ) (sim : NetworkSimulator σ) : List QueuedPacket :=
  sim.delayQueue.filter fun pkt => pkt.deliverTime ≤ now ∧ pkt.outbound

/-- What is due and what stays are all there was. -/
theorem filter_due_append (now : ℚ) (p : QueuedPacket → Bool) (pkts : List QueuedPacket) :
    (pkts.filter fun pkt => pkt.deliverTime ≤ now ∧ p pkt) ++
      (pkts.filter fun pkt => ¬pkt.deliverTime ≤ now).filter p ~ pkts.filter p := by
  have hsplit := filter_append_perm (fun pkt : QueuedPacket => decide (pkt.deliverTime ≤ now))
    (pkts.filter p)
  simp only [filter_filter] at hsplit ⊢
  convert hsplit using 3
  · funext pkt
    simp
  · funext pkt
    simp only [Bool.and_comm (p pkt), decide_not]

/-- The second loop of `poll`: what is due is forwarded or made ready, the rest stays. -/
theorem moveExpired_spec (now : ℚ) (sim : NetworkSimulator (σ × List InnerCall)) :
    ∃ t, moveExpired (Transport.recording T) now sim.delayQueue { sim with delayQueue := [] } = t ∧
      (sim.Clean → t.Clean) ∧
      t.inner.2 = sim.inner.2 ++ (sim.expired now).map QueuedPacket.call ∧
      sim.expired now ++ t.outbound ~ sim.outbound ∧ t.inbound ~ sim.inbound ∧
      ∀ pkt ∈ t.delayQueue, now < pkt.deliverTime := by
  refine ⟨_, rfl, ?_⟩
  rw [moveExpired_eq]
  refine ⟨id, record_foldl_forward _ _, ?_, ?_, ?_⟩
  · exact filter_due_append now (fun pkt => pkt.outbound) sim.delayQueue
  · have hsplit := filter_due_append now (fun pkt => !pkt.outbound) sim.delayQueue
    have hmap := (hsplit.append_left sim.readyQueue).map content
    simpa [inbound] using hmap
  · intro pkt hpkt
    have hstay := (mem_filter.mp ((nil_append _).symm ▸ hpkt)).2
    simpa using hstay

/-! ### One call -/

/-- What one call forwards. -/
def dueAt (sim : NetworkSimulator σ) : Call → List QueuedPacket
  | .poll _ now => sim.expired now
  | _ => []

/-- The packet that `pop_receive` takes, whatever the buffer of the caller. -/
def taken (sim : NetworkSimulator σ) : Call → List (Bytes × Address)
  | .popReceive _ => sim.readyQueue.head?.toList.map content
  | _ => []

/-- What one call does with the traffic of the simulator. -/
structure Moves (queue : σ → List (Bytes × Address)) (T : ITransport σ)
    (sim : NetworkSimulator (σ × List InnerCall)) (call : Call)
    (t : NetworkSimulator (σ × List InnerCall)) : Prop where
  clean : t.Clean
  record : t.inner.2 = sim.inner.2 ++ (sim.dueAt call).map QueuedPacket.call
  outbound : sim.dueAt call ++ t.outbound ~ sim.outbound ++ given sim call
  inbound : taken sim call ++ t.inbound ~
    sim.inbound ++ (received (Transport.recording T) (queue ·.1) sim call).map cut
  later : ∀ ms now, call = .poll ms now → ∀ pkt ∈ t.delayQueue, now < pkt.deliverTime

theorem moves_poll (hT : Queued T queue) {sim t : NetworkSimulator (σ × List InnerCall)} (hc : sim.Clean)
    {ms : List Moment} {now : ℚ} (h : sim.poll (Transport.recording T) ms now = some t) :
    Moves queue T sim (.poll ms now) t := by
  obtain ⟨u, hu, rfl⟩ := Option.map_eq_some_iff.mp h
  have hstart : Clean { sim with inner := (Transport.recording T).poll sim.inner } := hc
  obtain ⟨inner, new, rfl, hlog, hnew, hin⟩ := intercept_spec hT hstart hu
  obtain ⟨t, ht, hclean, hrecord, hout, hinb, hlater⟩ := moveExpired_spec (T := T) now
    { sim with inner := inner, delayQueue := sim.delayQueue ++ new }
  have hnone : ∀ p : QueuedPacket → Bool, (∀ pkt, p pkt → pkt.outbound) → new.filter p = [] := by
    intro p hp
    rw [filter_eq_nil_iff]
    intro pkt hpkt htrue
    have := hp pkt htrue
    rw [hin pkt hpkt] at this
    cases this
  have hexpired : expired now { sim with inner := inner, delayQueue := sim.delayQueue ++ new } =
      sim.expired now := by
    unfold expired
    rw [filter_append, hnone _ (by simp), append_nil]
  have houtbound : outbound { sim with inner := inner, delayQueue := sim.delayQueue ++ new } =
      sim.outbound := by
    unfold outbound
    rw [filter_append, hnone _ (by simp), append_nil]
  have hinbound : inbound { sim with inner := inner, delayQueue := sim.delayQueue ++ new } ~
      sim.inbound ++ (queue (T.poll sim.inner.1)).map cut := by
    have hall : new.filter (fun pkt => !pkt.outbound) = new := by
      rw [filter_eq_self]
      intro pkt hpkt
      rw [hin pkt hpkt]
      rfl
    unfold inbound
    rw [filter_append, hall, ← append_assoc, map_append, hnew]
    rfl
  rw [ht]
  refine ⟨hclean hc, ?_, ?_, hinb.trans hinbound, ?_⟩
  · rw [hrecord, hexpired]
    exact congrArg (· ++ _) hlog
  · rw [hexpired, houtbound] at hout
    simpa [dueAt, given] using hout
  · intro ms' now' heq
    cases heq
    exact hlater

theorem moves_delay {sim : NetworkSimulator (σ × List InnerCall)} (hc : sim.Clean) (m : Moment)
    {pkt : QueuedPacket} {call : Call} (hout : pkt.outbound = true)
    (hgiven : given sim call = [pkt]) (hcall : sim.dueAt call = [] ∧ taken sim call = [] ∧
      received (Transport.recording T) (queue ·.1) sim call = [] ∧ ∀ ms now, call ≠ .poll ms now) :
    Moves queue T sim call (sim.delay m pkt) := by
  obtain ⟨hdue, htaken, hreceived, hpoll⟩ := hcall
  rw [hc.delay]
  refine ⟨hc, ?_, ?_, ?_, fun ms now heq => absurd heq (hpoll ms now)⟩
  · rw [hdue, map_nil, append_nil]
  · rw [hdue, hgiven, nil_append]
    simp [outbound, hout]
  · rw [htaken, hreceived, map_nil, append_nil, nil_append]
    simp [inbound, hout]

theorem moves (hT : Queued T queue) {sim t : NetworkSimulator (σ × List InnerCall)} (hc : sim.Clean)
    {call : Call} (h : step (Transport.recording T) sim call = some t) : Moves queue T sim call t := by
  cases call with
  | send data r m =>
    cases h
    unfold send
    rw [hc.shouldDrop, if_neg (by decide)]
    exact moves_delay hc m rfl rfl ⟨rfl, rfl, rfl, fun _ _ => nofun⟩
  | sendTo address data r m =>
    cases h
    unfold sendTo
    rw [hc.shouldDrop, if_neg (by decide)]
    exact moves_delay hc m rfl rfl ⟨rfl, rfl, rfl, fun _ _ => nofun⟩
  | poll ms now => exact moves_poll hT hc h
  | popReceive n =>
    cases h
    unfold popReceive
    rcases hready : sim.readyQueue with _ | ⟨pkt, rest⟩
    · refine ⟨hc, ?_, ?_, ?_, nofun⟩ <;> simp [dueAt, given, taken, received, hready]
    · refine ⟨hc, ?_, ?_, ?_, nofun⟩
      · simp [dueAt]
      · simp [dueAt, given, outbound]
      · simp [taken, received, inbound, hready, content]

/-! ### Runs -/

/-- The buffer of the caller holds the packet that is popped. -/
def RoomToPop (sim : NetworkSimulator σ) : Call → Prop
  | .popReceive n => ∀ pkt ∈ sim.readyQueue.head?, pkt.data.length ≤ n
  | _ => True

/-- The buffer of `poll` holds the packets of the inner transport. -/
def RoomToPoll (T : ITransport σ) (queue : σ → List (Bytes × Address))
    (sim : NetworkSimulator (σ × List InnerCall)) : Call → Prop
  | .poll _ _ => ∀ packet ∈ queue (T.poll sim.inner.1), packet.1.length ≤ BUFFER_SIZE
  | _ => True

theorem room_iff {sim : NetworkSimulator (σ × List InnerCall)} {call : Call} :
    Room T queue sim call ↔ RoomToPop sim call ∧ RoomToPoll T queue sim call := by
  cases call <;> simp [Room, RoomToPop, RoomToPoll]

theorem delivered_eq {sim : NetworkSimulator σ} {n : ℕ} :
    delivered sim (.popReceive n) =
      sim.readyQueue.head?.toList.map fun pkt => (pkt.data.take n, pkt.sender) := by
  unfold delivered popReceive
  cases sim.readyQueue <;> rfl

/-- The number of bytes of a packet. -/
def size (packet : Bytes × Address) : ℕ := packet.1.length

theorem size_take_le (n : ℕ) (packets : List (Bytes × Address)) :
    ((packets.map fun packet => (packet.1.take n, packet.2)).map size).sum ≤ (packets.map size).sum := by
  induction packets with
  | nil => exact le_rfl
  | cons packet packets ih =>
    simp only [map_cons, sum_cons, size, length_take] at ih ⊢
    omega

/-- Packets that lose no bytes to a buffer all fit into it. -/
theorem size_take_eq_iff (n : ℕ) (packets : List (Bytes × Address)) :
    ((packets.map fun packet => (packet.1.take n, packet.2)).map size).sum = (packets.map size).sum ↔
      ∀ packet ∈ packets, packet.1.length ≤ n := by
  induction packets with
  | nil => simp
  | cons packet packets ih =>
    have hle := size_take_le n packets
    rw [forall_mem_cons, ← ih]
    simp only [map_cons, sum_cons, size, length_take] at hle ⊢
    omega

/-- Packets that fit into a buffer are not cut. -/
theorem map_take_eq {n : ℕ} {packets : List (Bytes × Address)}
    (h : ∀ packet ∈ packets, packet.1.length ≤ n) :
    (packets.map fun packet => (packet.1.take n, packet.2)) = packets := by
  conv_rhs => rw [← map_id packets]
  apply map_congr_left
  intro packet hpacket
  rw [take_of_length_le (h packet hpacket)]
  rfl

theorem delivered_take (sim : NetworkSimulator σ) (n : ℕ) :
    delivered sim (.popReceive n) =
      (taken sim (.popReceive n)).map fun packet => (packet.1.take n, packet.2) := by
  rw [delivered_eq, taken, map_map]
  rfl

theorem size_delivered (sim : NetworkSimulator σ) (call : Call) :
    ((delivered sim call).map size).sum ≤ ((taken sim call).map size).sum ∧
      (((delivered sim call).map size).sum = ((taken sim call).map size).sum ↔ RoomToPop sim call) := by
  cases call with
  | popReceive n =>
    rw [delivered_take]
    refine ⟨size_take_le n _, (size_take_eq_iff n _).trans ?_⟩
    simp [taken, RoomToPop, content]
  | _ => exact ⟨le_rfl, iff_of_true rfl trivial⟩

theorem size_received (T : ITransport σ) (queue : σ → List (Bytes × Address))
    (sim : NetworkSimulator (σ × List InnerCall)) (call : Call) :
    (((received (Transport.recording T) (queue ·.1) sim call).map cut).map size).sum ≤
        ((received (Transport.recording T) (queue ·.1) sim call).map size).sum ∧
      ((((received (Transport.recording T) (queue ·.1) sim call).map cut).map size).sum =
        ((received (Transport.recording T) (queue ·.1) sim call).map size).sum ↔
          RoomToPoll T queue sim call) := by
  cases call with
  | poll ms now => exact ⟨size_take_le BUFFER_SIZE _, size_take_eq_iff BUFFER_SIZE _⟩
  | _ => exact ⟨le_rfl, iff_of_true rfl trivial⟩

theorem delivered_of_room {sim : NetworkSimulator σ} {call : Call} (h : RoomToPop sim call) :
    delivered sim call = taken sim call := by
  cases call with
  | popReceive n =>
    rw [delivered_take, map_take_eq]
    simpa [taken, content, RoomToPop] using h
  | _ => rfl

theorem received_of_room {sim : NetworkSimulator (σ × List InnerCall)} {call : Call}
    (h : RoomToPoll T queue sim call) :
    (received (Transport.recording T) (queue ·.1) sim call).map cut =
      received (Transport.recording T) (queue ·.1) sim call := by
  cases call with
  | poll ms now => exact map_take_eq h
  | _ => rfl

/-- What is forwarded, and when: of every run, whatever fits where. -/
theorem forwarded_gather (hT : Queued T queue) {sim t : NetworkSimulator (σ × List InnerCall)}
    (hc : sim.Clean) {calls : List Call} (h : exec (step (Transport.recording T)) sim calls = some t) :
    t.inner.2 = sim.inner.2 ++
        (gather (step (Transport.recording T)) dueAt sim calls).map QueuedPacket.call ∧
      gather (step (Transport.recording T)) dueAt sim calls ++ t.outbound ~
        sim.outbound ++ gather (step (Transport.recording T)) given sim calls := by
  have hclean : ∀ s l u, Clean s → step (Transport.recording T) s l = some u → Clean u :=
    fun _ _ _ hs hu => (moves hT hs hu).clean
  constructor
  · rw [← gather_map]
    exact log_gather (fun s => s.inner.2) hclean (fun _ _ _ hs hu => (moves hT hs hu).record) hc h
  · exact gather_perm outbound hclean (fun _ _ _ hs hu => (moves hT hs hu).outbound) hc h

theorem later_of_poll (hT : Queued T queue) {sim : NetworkSimulator (σ × List InnerCall)}
    (hc : sim.Clean) {pre : List Call} {ms : List Moment} {now : ℚ}
    {u : NetworkSimulator (σ × List InnerCall)}
    (h : exec (step (Transport.recording T)) sim (pre ++ [.poll ms now]) = some u) :
    ∀ pkt ∈ u.delayQueue, now < pkt.deliverTime := by
  rw [exec_append] at h
  obtain ⟨s, hs, hu⟩ := Option.bind_eq_some_iff.mp h
  obtain ⟨u', hu', hlast⟩ := Option.bind_eq_some_iff.mp hu
  cases hlast
  have hclean : s.Clean := invariant_exec hs hc fun _ _ _ hs hu => (moves hT hs hu).clean
  exact (moves hT hclean hu').later ms now rfl

theorem mem_dueAt {sim : NetworkSimulator σ} {call : Call} {pkt : QueuedPacket}
    (h : pkt ∈ sim.dueAt call) :
    pkt ∈ sim.outbound ∧ ∃ ms now, call = .poll ms now ∧ pkt.deliverTime ≤ now := by
  cases call with
  | poll ms now =>
    obtain ⟨hmem, hdue⟩ := mem_filter.mp h
    rw [decide_eq_true_iff] at hdue
    exact ⟨mem_filter.mpr ⟨hmem, hdue.2⟩, ms, now, rfl, hdue.1⟩
  | _ => cases h

theorem inbound_gather (hT : Queued T queue) {sim t : NetworkSimulator (σ × List InnerCall)}
    (hc : sim.Clean) {calls : List Call} (h : exec (step (Transport.recording T)) sim calls = some t) :
    gather (step (Transport.recording T)) taken sim calls ++ t.inbound ~ sim.inbound ++
      gather (step (Transport.recording T))
        (fun s l => (received (Transport.recording T) (queue ·.1) s l).map cut) sim calls :=
  gather_perm inbound (fun _ _ _ hs hu => (moves hT hs hu).clean)
    (fun _ _ _ hs hu => (moves hT hs hu).inbound) hc h

theorem admits_room_iff {sim : NetworkSimulator (σ × List InnerCall)} {calls : List Call} :
    Admits (step (Transport.recording T)) (Room T queue) sim calls ↔
      Admits (step (Transport.recording T)) RoomToPop sim calls ∧
        Admits (step (Transport.recording T)) (RoomToPoll T queue) sim calls := by
  rw [← admits_and]
  exact ⟨fun h => h.mono fun _ _ => room_iff.mp, fun h => h.mono fun _ _ => room_iff.mpr⟩

/-- Bytes are only lost to a buffer, so where none are missing everything fitted. -/
theorem Conserves.room (hT : Queued T queue) {sim t : NetworkSimulator (σ × List InnerCall)}
    (hc : sim.Clean) {calls : List Call} (h : exec (step (Transport.recording T)) sim calls = some t)
    (hcons : Conserves T queue sim calls t) :
    Admits (step (Transport.recording T)) (Room T queue) sim calls := by
  obtain ⟨hpop, hpopIff⟩ := @weight_gather _ _ _ (step (Transport.recording T)) _ _ _ size
    (fun s l => (size_delivered s l).1) (fun s l => (size_delivered s l).2) sim calls
  obtain ⟨hpoll, hpollIff⟩ := @weight_gather _ _ _ (step (Transport.recording T)) _ _ _ size
    (fun s l => (size_received T queue s l).1) (fun s l => (size_received T queue s l).2) sim calls
  have hsum := ((inbound_gather hT hc h).map size).sum_nat
  have hsum' := (hcons.delivered.map size).sum_nat
  rw [map_append, map_append, sum_append, sum_append] at hsum hsum'
  rw [admits_room_iff, ← hpopIff, ← hpollIff]
  omega

/-- Without loss and duplication the simulator conserves its traffic in exactly the runs in which
every packet fits into the buffer of `poll` when it is taken from the inner transport, and into the
buffer of the caller when it is handed out. -/
theorem conserves_iff (hT : Queued T queue) {sim t : NetworkSimulator (σ × List InnerCall)}
    (hloss : sim.packetLoss = 0) (hdup : sim.duplication = 0) {calls : List Call}
    (h : exec (step (Transport.recording T)) sim calls = some t) :
    Conserves T queue sim calls t ↔
      Admits (step (Transport.recording T)) (Room T queue) sim calls := by
  have hc : sim.Clean := ⟨hloss, hdup⟩
  constructor
  · intro hcons
    exact hcons.room hT hc h
  · intro hadm
    refine ⟨⟨_, forwarded_gather hT hc h⟩, ?_, ?_, ?_⟩
    · intro pre call post u v _ hu hv
      have hclean : u.Clean := invariant_exec hu hc fun _ _ _ hs hu => (moves hT hs hu).clean
      exact ⟨u.dueAt call, (moves hT hclean hv).record, fun pkt => mem_dueAt⟩
    · intro pre ms now post u _ hu
      exact later_of_poll hT hc hu
    · have hdelivered : gather (step (Transport.recording T)) delivered sim calls =
          gather (step (Transport.recording T)) taken sim calls :=
        gather_congr (fun _ _ hok => delivered_of_room (room_iff.mp hok).1) hadm
      have hreceived : gather (step (Transport.recording T))
          (fun s l => (received (Transport.recording T) (queue ·.1) s l).map cut) sim calls =
          gather (step (Transport.recording T)) (received (Transport.recording T) (queue ·.1)) sim calls :=
        gather_congr (fun _ _ hok => received_of_room (room_iff.mp hok).2) hadm
      rw [hdelivered, ← hreceived]
      exact inbound_gather hT hc h

end

/-! ### A packet that is too long -/

open LoopbackTransport LoopbackHub

/-- A simulator around the loopback transport of a server, in whose queue one packet waits. -/
def waiting (data : Bytes) : NetworkSimulator (LoopbackHub × List InnerCall) :=
  { inner := (arrived [data], []) }

/-- The simulator polls at time 1 and hands out what is ready. -/
def pollAndPop : List Call := [.poll [{ now := 0 }] 1, .popReceive 4096]

/-- Two bytes fit everywhere. -/
theorem conserves_waiting_short : ∃ t,
    exec (step (recording (iTransport 0))) (waiting [7, 8]) pollAndPop = some t ∧
      Conserves (iTransport 0) (ready 0) (waiting [7, 8]) pollAndPop t := by
  have hroom : Admits (step (recording (iTransport 0))) (Room (iTransport 0) (ready 0)) (waiting [7, 8])
      pollAndPop := by decide +kernel
  exact ⟨_, rfl, (conserves_iff (queued 0) rfl rfl rfl).mpr hroom⟩

/-- Of a packet of 2049 bytes one is lost. -/
theorem not_conserves_waiting_long : ∃ t,
    exec (step (recording (iTransport 0))) (waiting (replicate 2049 0)) [.poll [{ now := 0 }] 1] =
        some t ∧
      ¬Conserves (iTransport 0) (ready 0) (waiting (replicate 2049 0)) [.poll [{ now := 0 }] 1] t := by
  refine ⟨_, rfl, fun h => ?_⟩
  have hroom := (h.room (queued 0) ⟨rfl, rfl⟩ rfl).1 (replicate 2049 0, clientAddr) (.head _)
  rw [length_replicate] at hroom
  exact absurd hroom (by decide)

end NetworkSimulator

end CampelloNet.Transport
