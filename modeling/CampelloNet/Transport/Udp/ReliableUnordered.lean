import CampelloNet.Transport.Udp.ReliableOrdered

/-!
# What the ReliableUnordered channel delivers and acknowledges

The receiver of the ReliableUnordered channel takes every packet, overwrites `remote_seq` with its
number and shifts a one into `ack_bits`, whatever the distance to the number before. The bits then
claim the numbers right below the newest one, which need not be the ones that arrived. When every
number that the bits come to claim has in fact been received, nothing is forgotten before it was
received (`reliableUnordered_delivery`); when message 1 arrives and message 0 does not, the sender
forgets message 0 (`reliableUnordered_forgets`). As it takes every packet, it queues a message again
whenever its packet arrives again (`reliableUnordered_once`, `reliableUnordered_twice`).
-/

namespace CampelloNet.Transport.Udp

open Lib PacketReliability

/-- The gate of the unordered channel. -/
theorem accept_unordered (receiver : Receiver) (sequence : UInt16) (data : Bytes) :
    receiver.accept (userHeader 2 {} sequence data.length) data =
      ({ receiver with remoteSeq := sequence, ackBits := (receiver.ackBits <<< 1) ||| 1 }, true) := by
  have hrel : (userHeader 2 {} sequence data.length).reliability = .reliableUnordered :=
    reliability_userHeader 2 {} sequence data.length
  simp only [Receiver.accept, acceptPacket, hrel]
  rfl

/-- The number `distance` before `sequence` is one that end `e` has received. -/
def World.HasReceived (w : World) (e : End) (sequence : UInt16) (distance : ℕ) : Prop :=
  sequence - UInt16.ofNat distance ∈ (w.queued e reliableUnordered.index).map Prod.fst

/-- When a packet of the unordered channel arrives from the peer, every number that the shifted
acknowledgement bits claim below its own has been received. -/
def World.HistoryReceived (addr : End → Address) (w : World) (e : End) (a : Arrival) : Prop :=
  a.sender = addr e.peer → ∀ pkt ∈ packet a.bytes, pkt.1.channel = reliableUnordered.index →
    ∀ d < 32, d + 1 ≤ pkt.1.sequence.toNat →
      ((((w.node e).view (addr e.peer) reliableUnordered.index).receiver.ackBits <<< 1) |||
        (1 : UInt32)) &&& (1 <<< UInt32.ofNat d) ≠ 0 →
      w.HasReceived e pkt.1.sequence (d + 1)

instance (addr : End → Address) (w : World) (e : End) (a : Arrival) :
    Decidable (w.HistoryReceived addr e a) := by
  unfold World.HistoryReceived World.HasReceived
  infer_instance

/-- What an acknowledgement covers besides its own number. -/
theorem isAcked_iff {sequence ack : UInt16} {ackBits : UInt32} (hne : sequence ≠ ack) :
    isAcked sequence ack ackBits = true ↔ ∃ d < 32, sequence.toNat + (d + 1) = ack.toNat ∧
      ackBits &&& (1 <<< UInt32.ofNat d) ≠ 0 := by
  rw [isAcked, if_neg hne]
  dsimp only
  split_ifs with h
  · rw [decide_eq_true_iff]
    constructor
    · intro hb
      refine ⟨((ack.toNat : Int) - sequence.toNat - 1).toNat, by omega, by omega, hb⟩
    · rintro ⟨d, -, hd, hb⟩
      have : ((ack.toNat : Int) - sequence.toNat - 1).toNat = d := by omega
      rwa [this]
  · simp only [false_iff]
    rintro ⟨d, hd, heq, -⟩
    exact h ⟨by omega, by omega⟩

variable {P : Platform} {addr : End → Address} {w₀ w : World}

/-- The condition on an arrival makes the word shown after it sound. -/
theorem soundStep_of_historyReceived {A : End → Flow} {e : End} {a : Arrival} {hdr : PacketHeader}
    {payload : Bytes} {i : ℕ} (h : Refines addr reliableUnordered.index w A)
    (hq : w.HistoryReceived addr e a) (hs : a.sender = addr e.peer)
    (hp : packet a.bytes = some (hdr, payload)) (hch : hdr.channel = reliableUnordered.index)
    (hi : hdr.sequence = UInt16.ofNat i) :
    Arq.SoundStep (channelProtocol reliableUnordered.index) 65535 (A e.peer) (.arrive i) := by
  intro j b hj hb k _ hack
  obtain rfl : i = j := by cases hj; rfl
  have hgate : (channelProtocol reliableUnordered.index).gate (A e.peer).receiver
      ((channelProtocol reliableUnordered.index).seqOf i) b = _ :=
    accept_unordered (A e.peer).receiver (UInt16.ofNat i) b
  rw [hgate] at hack ⊢
  rw [if_pos rfl, List.map_append, List.mem_append]
  change isAcked (UInt16.ofNat k) (UInt16.ofNat i) (((A e.peer).receiver.ackBits <<< 1) ||| 1) =
    true at hack
  change UInt16.ofNat k ∈ _ ∨ UInt16.ofNat k ∈ [UInt16.ofNat i]
  by_cases hki : UInt16.ofNat k = UInt16.ofNat i
  · exact .inr (List.mem_singleton.mpr hki)
  · left
    obtain ⟨d, hd, hsum, hbit⟩ := (isAcked_iff hki).mp hack
    rw [← hi] at hsum
    have hrecv := hq hs (hdr, payload) hp hch d hd (by dsimp only; omega)
      (by rw [h.receiver e]; exact hbit)
    rw [World.HasReceived, ← h.delivered e] at hrecv
    have hk : hdr.sequence - UInt16.ofNat (d + 1) = UInt16.ofNat k := by
      apply UInt16.toNat.inj
      have hlt := (UInt16.ofNat k).toNat_lt
      have hlt' := hdr.sequence.toNat_lt
      rw [UInt16.toNat_sub, UInt16.toNat_ofNat']
      omega
    rwa [← hk]

/-- In every run of fewer than 65535 messages each way in which every number the bits claim has been
received, whatever an acknowledgement erases at the sender was received by its peer. -/
theorem reliableUnordered_delivery (hfresh : w₀.Fresh addr reliableUnordered.index)
    (hrun : Run (World.step P addr)
      (World.Admissible P addr reliableUnordered.index fun w e a => w.HistoryReceived addr e a) w₀ w)
    (hN : ∀ e, (w.handed e reliableUnordered.index).length < 65535) :
    w.NothingLost reliableUnordered.index := by
  obtain ⟨A, hA, hruns⟩ := refines_run
    (Arq.SoundStep (channelProtocol reliableUnordered.index) 65535) hfresh (by decide)
    (fun s a keep i b h => by cases h) (fun s v i b h => by cases h)
    (fun w A e a hdr payload i h hq hs hp hch hi => soundStep_of_historyReceived h hq hs hp hch hi)
    hrun
  have hinit : ∀ i < 65535, (channelProtocol reliableUnordered.index).acks
      ((channelProtocol reliableUnordered.index).word {})
      ((channelProtocol reliableUnordered.index).seqOf i) = false := by
    intro i hi
    by_contra hne
    exact absurd (ordered_inOrder.acks (r := {}) (i := i) ⟨rfl, fun _ => rfl⟩ (Nat.zero_le _) hi
      (eq_true_of_ne_false hne)) (Nat.not_lt_zero i)
  refine hA.nothingLost fun e => Arq.erased_subset_delivered (seqOf_inj _) hinit (hruns e) ?_
  rw [hA.sent e]
  exact hN e

/-! ### Two executions -/

/-- Two messages from the left, of which those listed arrive, and an answer that acknowledges what
the right end then claims. -/
def answered (arriving : List (UInt16 × Bytes)) (claimed : Channel) : List World.Call :=
  [.send .left (World.goodEnv 1) [1] reliableUnordered,
    .send .left (World.goodEnv 1) [2] reliableUnordered,
    .poll .right (World.goodEnv 1) 1
      (arriving.map fun m => World.userArrival .right reliableUnordered.index {} m.1 m.2 1),
    .send .right (World.goodEnv 1) [9] reliableUnordered,
    .poll .left (World.goodEnv 1) 1 [World.userArrival .left reliableUnordered.index claimed 0 [9] 1]]

/-- Both messages arrive. -/
def bothArrive : World :=
  (Run.exec (World.step World.maskedShift World.localAddr) (World.connected World.localAddr)
    (answered [(0, [1]), (1, [2])] { remoteSeq := 1, ackBits := 3 })).get (by decide +kernel)

theorem reliableUnordered_delivery_bothArrive :
    (bothArrive.erased .left 2).length = 2 ∧ bothArrive.NothingLost 2 :=
  ⟨by decide +kernel, reliableUnordered_delivery (P := World.maskedShift)
    (World.fresh_connected World.localAddr _)
    (.of_exec (answered [(0, [1]), (1, [2])] { remoteSeq := 1, ackBits := 3 })
      (Option.some_get _).symm (by decide +kernel)) (by decide +kernel)⟩

/-- Only the second message arrives. -/
def secondArrives : World :=
  (Run.exec (World.step World.maskedShift World.localAddr) (World.connected World.localAddr)
    (answered [(1, [2])] { remoteSeq := 1, ackBits := 1 })).get (by decide +kernel)

/-- The answer to the second message makes the left end forget the first one, which never arrived. -/
theorem reliableUnordered_forgets :
    Run (World.step World.maskedShift World.localAddr)
      (World.Admissible World.maskedShift World.localAddr reliableUnordered.index fun _ _ _ => True)
      (World.connected World.localAddr) secondArrives ∧
    (∀ e, (secondArrives.handed e reliableUnordered.index).length < 65535) ∧
    ¬secondArrives.NothingLost reliableUnordered.index :=
  ⟨.of_exec (answered [(1, [2])] { remoteSeq := 1, ackBits := 1 }) (Option.some_get _).symm
    (by decide +kernel), by decide +kernel, by decide +kernel⟩

/-! ### Duplicates -/

/-- The messages that end `e` was given for a channel, with their numbers. -/
def World.numbered (w : World) (e : End) (ch : Fin 4) : List (UInt16 × Bytes) :=
  (w.handed e ch).zipIdx.map fun m => (.ofNat m.2, m.1)

/-- Each message of the channel has been queued at the other end at most once, and nothing else has. -/
def World.AtMostOnce (w : World) (ch : Fin 4) : Prop :=
  ∀ e : End, (w.queued e.peer ch).Nodup ∧ ∀ m ∈ w.queued e.peer ch, m ∈ w.numbered e ch

instance (w : World) (ch : Fin 4) : Decidable (w.AtMostOnce ch) :=
  inferInstanceAs (Decidable (∀ e : End, _ ∧ ∀ m ∈ w.queued e.peer ch, _))

/-- A packet of the unordered channel arrives from the peer for the first time: its message has not
been queued before. -/
def World.ArrivesFirst (addr : End → Address) (w : World) (e : End) (a : Arrival) : Prop :=
  a.sender = addr e.peer → ∀ pkt ∈ packet a.bytes, pkt.1.channel = reliableUnordered.index →
    pkt.1.sequence ∉ (w.queued e reliableUnordered.index).map Prod.fst

instance (addr : End → Address) (w : World) (e : End) (a : Arrival) :
    Decidable (w.ArrivesFirst addr e a) :=
  inferInstanceAs (Decidable (_ → ∀ pkt ∈ packet a.bytes, _ → _))

/-- In every run of fewer than 65535 messages each way in which no packet of the channel arrives again
after its message was queued, each message is queued at most once. -/
theorem reliableUnordered_once (hfresh : w₀.Fresh addr reliableUnordered.index)
    (hrun : Run (World.step P addr)
      (World.Admissible P addr reliableUnordered.index fun w e a => w.ArrivesFirst addr e a) w₀ w)
    (hN : ∀ e, (w.handed e reliableUnordered.index).length < 65535) :
    w.AtMostOnce reliableUnordered.index := by
  obtain ⟨A, hA, hruns⟩ := refines_run (Arq.FirstArrival (channelProtocol reliableUnordered.index))
    hfresh (by decide) (fun s a keep i h => by cases h) (fun s v i h => by cases h)
    (fun w A e a hdr payload i h hq hs hp hch hi => by
      intro j hj
      obtain rfl : i = j := by cases hj; rfl
      rw [h.delivered e]
      have hnew := hq hs (hdr, payload) hp hch
      rwa [hi] at hnew)
    hrun
  intro e
  rw [← hA.delivered_peer e]
  refine ⟨(Arq.nodup_delivered (hruns e)).of_map, fun m hm => ?_⟩
  obtain ⟨i, hi, hmsg⟩ := (hA.genuine e).delivered m hm
  rw [hA.sent e] at hmsg
  refine List.mem_map.mpr ⟨(m.2, i), ?_, Prod.ext hi.symm rfl⟩
  rw [List.mem_zipIdx_iff_getElem?]
  exact hmsg

/-- A message from the left, whose datagram arrives so many times. -/
def repeated (times : ℕ) : List World.Call :=
  [.send .left (World.goodEnv 1) [1] reliableUnordered,
    .poll .right (World.goodEnv 1) 1 (List.replicate times
      (World.userArrival .right reliableUnordered.index {} 0 [1] 1))]

def afterRepeated (times : ℕ) : World :=
  (Run.exec (World.step World.maskedShift World.localAddr) (World.connected World.localAddr)
    (repeated times)).getD (World.connected World.localAddr)

theorem exec_repeated (times : ℕ) (h : (Run.exec (World.step World.maskedShift World.localAddr)
    (World.connected World.localAddr) (repeated times)).isSome) :
    Run.exec (World.step World.maskedShift World.localAddr) (World.connected World.localAddr)
      (repeated times) = some (afterRepeated times) := by
  obtain ⟨w, hw⟩ := Option.isSome_iff_exists.mp h
  unfold afterRepeated
  rw [hw, Option.getD_some]

/-- A packet of the left's messages, a second after they were sent. -/
def unorderedArrival (sequence : UInt16) (data : Bytes) : Arrival :=
  World.userArrival .right reliableUnordered.index {} sequence data 2

/-- The left sends three messages and sends them again; the first to arrive is the last, and the second
arrives last. -/
def shuffled : List World.Call :=
  [.send .left (World.goodEnv 1) [1] reliableUnordered, .send .left (World.goodEnv 1) [2] reliableUnordered,
    .send .left (World.goodEnv 1) [3] reliableUnordered, .poll .left (World.goodEnv 2) 2 [],
    .poll .right (World.goodEnv 2) 2
      [unorderedArrival 2 [3], unorderedArrival 0 [1], unorderedArrival 1 [2]]]

theorem reliableUnordered_once_shuffled :
    ∃ w, Run.exec (World.step World.maskedShift World.localAddr) (World.connected World.localAddr)
        shuffled = some w ∧
      (w.wire.countP fun d => d.2.bytes = (unorderedArrival 1 [2]).bytes) = 2 ∧
      w.queued .right 2 = [(2, [3]), (0, [1]), (1, [2])] ∧ w.AtMostOnce 2 := by
  have hexec : (Run.exec (World.step World.maskedShift World.localAddr)
      (World.connected World.localAddr) shuffled).map (fun w =>
        (w.wire.countP fun d => d.2.bytes = (unorderedArrival 1 [2]).bytes, w.queued .right 2,
          [End.left, .right].map fun e => (w.handed e reliableUnordered.index).length)) =
      some (2, [(2, [3]), (0, [1]), (1, [2])], [3, 0]) := by
    decide +kernel
  obtain ⟨w, hrun, hw⟩ := Option.map_eq_some_iff.mp hexec
  obtain ⟨hwire, hw⟩ := Prod.ext_iff.mp hw
  obtain ⟨hqueued, hhanded⟩ := Prod.ext_iff.mp hw
  refine ⟨w, hrun, hwire, hqueued, reliableUnordered_once (P := World.maskedShift)
    (World.fresh_connected World.localAddr _) (.of_exec shuffled hrun (by decide +kernel)) ?_⟩
  change ([End.left, .right].map fun e => (w.handed e reliableUnordered.index).length) = [3, 0] at hhanded
  have hfew : ∀ n ∈ [End.left, .right].map fun e => (w.handed e reliableUnordered.index).length,
      n < 65535 := by
    rw [hhanded]
    decide
  exact fun e => hfew _ (List.mem_map_of_mem (by cases e <;> simp))

/-- The datagram arrives twice, and the message is queued twice. -/
theorem reliableUnordered_twice :
    Run (World.step World.maskedShift World.localAddr)
      (World.Admissible World.maskedShift World.localAddr reliableUnordered.index fun _ _ _ => True)
      (World.connected World.localAddr) (afterRepeated 2) ∧
    (∀ e, ((afterRepeated 2).handed e reliableUnordered.index).length < 65535) ∧
    ¬(afterRepeated 2).AtMostOnce reliableUnordered.index :=
  ⟨.of_exec (repeated 2) (exec_repeated 2 (by decide +kernel)) (by decide +kernel),
    by decide +kernel, by decide +kernel⟩

end CampelloNet.Transport.Udp
