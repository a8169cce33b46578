import CampelloNet.Transport.Udp.Refinement

/-!
# The ReliableOrdered channel delivers a prefix

The gate of the ReliableOrdered channel lets message `k` through when `k` messages have gone through
before, and no other; its acknowledgement never goes beyond what went through. Over any network that
only loses, repeats, delays and reorders datagrams, the receive queue therefore holds a prefix of
what was sent, and nothing is forgotten before it got there. Both need the sequence number not to
come around: the receiver starts at 65535, and would take a message of that number for acknowledged.
-/

namespace CampelloNet.Transport.Udp

open Lib PacketReliability

/-- The receiver of an ordered channel after `k` messages. -/
def OrderedAt (receiver : Receiver) (k : ℕ) : Prop :=
  receiver.remoteSeq = UInt16.ofNat (65535 + k) ∧ (k = 0 → receiver.ackBits = 0)

theorem ofNat_inj {i j : ℕ} (hi : i < 65536) (hj : j < 65536)
    (h : UInt16.ofNat i = UInt16.ofNat j) : i = j := by
  have := congrArg UInt16.toNat h
  rwa [UInt16.toNat_ofNat', UInt16.toNat_ofNat', Nat.mod_eq_of_lt hi, Nat.mod_eq_of_lt hj] at this

theorem ofNat_expected (k : ℕ) : UInt16.ofNat (65535 + k) + 1 = UInt16.ofNat k := by
  apply UInt16.toNat.inj
  simp only [UInt16.toNat_add, UInt16.toNat_ofNat', UInt16.toNat_one]
  omega

/-- The gate of the ordered channel. -/
theorem accept_ordered (receiver : Receiver) (sequence : UInt16) (data : Bytes) :
    (sequence = receiver.remoteSeq + 1 ∧
      receiver.accept (userHeader 1 {} sequence data.length) data =
        ({ receiver with remoteSeq := sequence, ackBits := (receiver.ackBits <<< 1) ||| 1 }, true)) ∨
    (sequence ≠ receiver.remoteSeq + 1 ∧ ∃ buffer,
      receiver.accept (userHeader 1 {} sequence data.length) data =
        ({ receiver with receiveBuffer := buffer }, false)) := by
  have hrel : (userHeader 1 {} sequence data.length).reliability = .reliableOrdered :=
    reliability_userHeader 1 {} sequence data.length
  have hseq : (userHeader 1 {} sequence data.length).sequence = sequence := rfl
  simp only [Receiver.accept, acceptPacket, hrel, hseq]
  by_cases h : sequence = receiver.remoteSeq + 1
  · exact .inl ⟨h, by rw [if_pos h]; rfl⟩
  · refine .inr ⟨h, ?_⟩
    rw [if_neg h]
    split_ifs <;> exact ⟨_, rfl⟩

/-- An acknowledged number is not after the acknowledgement. -/
theorem le_of_isAcked {sequence ack : UInt16} {ackBits : UInt32}
    (h : isAcked sequence ack ackBits = true) :
    sequence = ack ∨ sequence.toNat < ack.toNat ∧ ackBits ≠ 0 := by
  rw [isAcked] at h
  by_cases heq : sequence = ack
  · exact .inl heq
  · rw [if_neg heq] at h
    dsimp only at h
    split_ifs at h with hdiff
    refine .inr ⟨by omega, fun h0 => ?_⟩
    rw [h0, UInt32.zero_and] at h
    exact absurd h (by decide)

theorem ordered_inOrder : Arq.InOrder (channelProtocol 1) 65535 OrderedAt where
  deliver := by
    rintro r k i a ⟨hseq, -⟩ hk hi hdel
    rcases accept_ordered r (UInt16.ofNat i) a with ⟨hexp, hacc⟩ | ⟨-, buffer, hacc⟩
    · rw [hseq, ofNat_expected] at hexp
      obtain rfl := ofNat_inj (by omega) (by omega) hexp
      refine ⟨rfl, ?_⟩
      change OrderedAt (r.accept (userHeader 1 {} (UInt16.ofNat i) a.length) a).1 (i + 1)
      rw [hacc]
      refine ⟨?_, fun h => absurd h (Nat.succ_ne_zero i)⟩
      change UInt16.ofNat i = UInt16.ofNat (65535 + i + 1)
      rw [UInt16.ofNat_add]
      exact (ofNat_expected i).symm
    · change (r.accept (userHeader 1 {} (UInt16.ofNat i) a.length) a).2 = true at hdel
      rw [hacc] at hdel
      cases hdel
  drop := by
    rintro r k i a ⟨hseq, hbits⟩ hk hi hdel
    rcases accept_ordered r (UInt16.ofNat i) a with ⟨-, hacc⟩ | ⟨-, buffer, hacc⟩
    · change (r.accept (userHeader 1 {} (UInt16.ofNat i) a.length) a).2 = false at hdel
      rw [hacc] at hdel
      cases hdel
    · change OrderedAt (r.accept (userHeader 1 {} (UInt16.ofNat i) a.length) a).1 k
      rw [hacc]
      exact ⟨hseq, hbits⟩
  acks := by
    rintro r k i ⟨hseq, hbits⟩ hk hi hack
    have hi' : (UInt16.ofNat i).toNat = i := by
      rw [UInt16.toNat_ofNat']
      exact Nat.mod_eq_of_lt (by omega)
    have hack' : (UInt16.ofNat (65535 + k)).toNat = (65535 + k) % 65536 := UInt16.toNat_ofNat'
    change isAcked (UInt16.ofNat i) r.remoteSeq r.ackBits = true at hack
    rcases le_of_isAcked hack with h | ⟨h, hne⟩
    · have := congrArg UInt16.toNat (h.trans hseq)
      omega
    · rw [hseq] at h
      have hk0 : k ≠ 0 := fun h0 => hne (hbits h0)
      omega

/-! ### The two ends -/

/-- The numbers of the first 65535 messages are distinct. -/
theorem seqOf_inj (ch : Fin 4) : ∀ i < 65535, ∀ j < 65535,
    (channelProtocol ch).seqOf i = (channelProtocol ch).seqOf j → i = j :=
  fun _ hi _ hj h => ofNat_inj (by omega) (by omega) h

variable {P : Platform} {addr : End → Address} {w₀ w : World}

/-- In every run of fewer than 65535 messages each way, what an end has received from its peer on the
ReliableOrdered channel is a prefix of what the peer has sent, and what the peer has forgotten was
received. -/
theorem reliableOrdered_delivery (hfresh : w₀.Fresh addr reliableOrdered.index)
    (hrun : Run (World.step P addr)
      (World.Admissible P addr reliableOrdered.index fun _ _ _ => True) w₀ w)
    (hN : ∀ e, (w.handed e reliableOrdered.index).length < 65535) :
    (∀ e, (w.queued e.peer reliableOrdered.index).map Prod.snd <+:
        w.handed e reliableOrdered.index) ∧
      w.NothingLost reliableOrdered.index := by
  obtain ⟨A, hA, hruns⟩ := refines_run (fun _ _ => True) hfresh (by decide)
    (fun _ _ _ => trivial) (fun _ _ => trivial) (fun _ _ _ _ _ _ _ _ _ _ _ _ _ => trivial) hrun
  have hlen : ∀ e, (A e).sent.length < 65535 := fun e => by
    rw [hA.sent e]
    exact hN e
  have h0 : OrderedAt {} 0 := ⟨rfl, fun _ => rfl⟩
  constructor
  · intro e
    rw [← hA.delivered_peer e, ← hA.sent e]
    exact ordered_inOrder.delivered_prefix h0 (hruns e) (hlen e)
  · exact hA.nothingLost fun e =>
      ordered_inOrder.erased_subset_delivered h0 (seqOf_inj 1) (hruns e) (hlen e)

/-- A message each way, the second of which acknowledges the first. -/
def pingPong : List World.Call :=
  [.send .left (World.goodEnv 1) [7] reliableOrdered,
    .poll .right (World.goodEnv 1) 1 [World.userArrival .right reliableOrdered.index {} 0 [7] 1],
    .send .right (World.goodEnv 1) [9] reliableOrdered,
    .poll .left (World.goodEnv 1) 1
      [World.userArrival .left reliableOrdered.index { remoteSeq := 0, ackBits := 1 } 0 [9] 1]]

def pingPongWorld : World :=
  (Run.exec (World.step World.maskedShift World.localAddr) (World.connected World.localAddr)
    pingPong).get (by decide +kernel)

theorem pingPong_run : Run (World.step World.maskedShift World.localAddr)
    (World.Admissible World.maskedShift World.localAddr reliableOrdered.index fun _ _ _ => True)
    (World.connected World.localAddr) pingPongWorld :=
  .of_exec pingPong (Option.some_get _).symm (by decide +kernel)

/-- The run in which one message was delivered each way and the first has been acknowledged. -/
theorem reliableOrdered_delivery_pingPong :
    (pingPongWorld.erased .left 1).map (fun p => (p.sequence, p.data)) = [(0, [7])] ∧
      (∀ e, (pingPongWorld.queued e.peer 1).map Prod.snd <+: pingPongWorld.handed e 1) ∧
      pingPongWorld.NothingLost 1 :=
  ⟨by decide +kernel, reliableOrdered_delivery (World.fresh_connected World.localAddr _)
    pingPong_run (by decide +kernel)⟩

end CampelloNet.Transport.Udp
