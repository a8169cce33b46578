import CampelloNet.Manager.World
import CampelloNet.Transport.EncryptedDelivery
import CampelloNet.Transport.EncryptedQueue

/-!
# Draining an encrypted transport

The receive loop of a manager stops at the first failing `pop_receive`. Over an encrypted transport
that is the first rejected packet, and what is queued behind it waits for the next poll
(`rejected_hides_iff`). Between two packets the manager does nothing to the transport that receiving
depends on, except that it may close it.
-/

namespace CampelloNet

open Lib Transport Encrypted EncryptedTransport NetworkManager

variable {σ : Type} {T : ITransport σ} {queue : σ → List (Bytes × Address)}

/-- What handlers leave of a transport: its windows, and its queue if they do not close it. -/
structure HandledFrom (queue : σ → List (Bytes × Address)) (enc w : EncryptedTransport σ) : Prop where
  alike : Alike w enc
  queue : queue w.inner = queue enc.inner ∨ queue w.inner = []

theorem handledFrom_sendSealed {enc w : EncryptedTransport σ} {peer : Peer} {data : Bytes}
    {transmit : Bytes → σ → σ × Bool} (hkept : ∀ packet s, queue (transmit packet s).1 = queue s)
    (h : HandledFrom queue enc w) : HandledFrom queue enc (w.sendSealed peer data transmit).1 := by
  have hscratch : (w.sendSealed peer data transmit).1.recvScratch = w.recvScratch ∧
      queue (w.sendSealed peer data transmit).1.inner = queue w.inner := by
    rw [sendSealed_eq]
    dsimp only
    rw [hkept]
    cases peer <;> exact ⟨rfl, rfl⟩
  refine ⟨⟨(agree_sendSealed _ _ _).symm.trans h.alike.agree, ?_⟩, ?_⟩
  · rw [hscratch.1, h.alike.scratch]
  · rw [hscratch.2]
    exact h.queue

theorem sendsAt_handledFrom (hq : Queued T queue) (enc : EncryptedTransport σ) :
    SendsAt (fun _ => iTransport T) (fun _ _ => True) (HandledFrom queue enc) where
  send _ _ r _ _ h := handledFrom_sendSealed (fun packet s => hq.send packet r s) h
  sendTo _ address _ r _ _ h := handledFrom_sendSealed (fun packet s => hq.sendTo address packet r s) h

theorem handledFrom_disconnect (hq : Queued T queue) {enc w : EncryptedTransport σ}
    (h : HandledFrom queue enc w) : HandledFrom queue enc ((iTransport T).disconnect w) := by
  refine ⟨⟨(agree_inner w _ w.recvScratch).symm.trans h.alike.agree, h.alike.scratch⟩, ?_⟩
  show queue (T.disconnect w.inner) = _ ∨ queue (T.disconnect w.inner) = _
  rcases hq.disconnect w.inner with hkept | hnone
  · rw [hkept]
    exact h.queue
  · exact .inr hnone

/-- Handling a packet changes no window, and empties the queue at most. -/
theorem handledFrom_handlePacket (hq : Queued T queue) (net : NetworkManager (EncryptedTransport σ))
    (env : PacketEnv) (t : ℕ) (buffer : Bytes) (sender : Address) :
    HandledFrom queue net.world
      (net.handlePacket (fun _ => iTransport T) env t buffer sender).world :=
  world_handlePacket (sendsAt_handledFrom hq net.world) (fun _ _ _ => trivial) env t
    (fun _ _ _ _ h => handledFrom_disconnect hq h) ⟨Alike.refl _, .inl rfl⟩

/-- One turn of the receive loop. -/
theorem pollTransportReceivesFor_cases {ρ : Type} {U : ℕ → ITransport ρ} {net : NetworkManager ρ}
    {t : ℕ} {envs : List PacketEnv} {out : NetworkManager ρ × List PacketEnv}
    (h : net.pollTransportReceivesFor U t envs = some out) :
    (((U t).popReceive BUF_SIZE net.world).2 = none ∧ out.1 = net.taken U t ∧
        net.handledFor U t envs = []) ∨
      ∃ (p : Handled ρ) (rest : List PacketEnv), p.net = net ∧ p.transport = t ∧
        ((U t).popReceive BUF_SIZE net.world).2 = some (p.buffer, p.sender) ∧
        (p.after U).pollTransportReceivesFor U t rest = some out ∧
        net.handledFor U t envs = p :: (p.after U).handledFor U t rest := by
  unfold pollTransportReceivesFor at h
  rcases hpop : (U t).popReceive BUF_SIZE net.world with ⟨world, _ | ⟨buffer, sender⟩⟩
  · rw [hpop] at h
    obtain rfl := Option.some.inj h
    refine .inl ⟨rfl, ?_, ?_⟩
    · unfold taken
      rw [hpop]
    · cases envs with
      | nil => rfl
      | cons env envs =>
        unfold handledFor
        rw [hpop]
  · rw [hpop] at h
    cases envs with
    | nil => cases h
    | cons env envs =>
      refine .inr ⟨⟨net, env, t, buffer, sender⟩, envs, rfl, rfl, rfl, ?_, ?_⟩
      · unfold Handled.after Handled.before taken
        dsimp only
        rw [hpop]
        exact h
      · conv_lhs => unfold handledFor
        rw [hpop]

/-- The receive loop leaves nothing acceptable if and only if no rejected packet stood before an
acceptable one, or a handler emptied the queue. -/
theorem drained_iff (hq : Queued T queue) {net : NetworkManager (EncryptedTransport σ)} {t : ℕ}
    {envs : List PacketEnv} {out : NetworkManager (EncryptedTransport σ) × List PacketEnv}
    (h : net.pollTransportReceivesFor (fun _ => iTransport T) t envs = some out) :
    ¬Promising BUF_SIZE out.1.world (queue out.1.world.inner) ↔
      Unhidden BUF_SIZE net.world (queue net.world.inner) ∨
        ∃ p ∈ net.handledFor (fun _ => iTransport T) t envs,
          queue (p.after fun _ => iTransport T).world.inner ≠
            queue (p.before fun _ => iTransport T).world.inner := by
  induction hn : net.handledFor (fun _ => iTransport T) t envs generalizing net envs with
  | nil =>
    rcases pollTransportReceivesFor_cases h with ⟨hpop, hout, -⟩ | ⟨p, rest, -, -, -, -, hcons⟩
    · have hnone := unhidden_of_none hq net.world BUF_SIZE hpop
      rw [hout, ← hnone]
      exact ⟨.inl, fun h => h.resolve_right (by simp)⟩
    · rw [hcons] at hn
      cases hn
  | cons p ps ih =>
    rcases pollTransportReceivesFor_cases h with ⟨-, -, hnil⟩ | ⟨p', rest, rfl, -, hpop, hloop, hcons⟩
    · rw [hnil] at hn
      cases hn
    · rw [hcons] at hn
      obtain ⟨rfl, hps⟩ := List.cons.inj hn
      have hrest := ih hloop hps
      have hbefore := unhidden_of_some hq p'.net.world BUF_SIZE (by
        rw [show (p'.net.world.popReceive T BUF_SIZE).2 = some (p'.buffer, p'.sender) from hpop]
        rfl)
      obtain ⟨halike, hqueue⟩ := handledFrom_handlePacket hq (p'.before fun _ => iTransport T) p'.env
        p'.transport p'.buffer p'.sender
      change Unhidden BUF_SIZE (p'.before fun _ => iTransport T).world
        (queue (p'.before fun _ => iTransport T).world.inner) ↔ _ at hbefore
      change Alike (p'.after fun _ => iTransport T).world _ at halike
      change queue (p'.after fun _ => iTransport T).world.inner = _ ∨
        queue (p'.after fun _ => iTransport T).world.inner = _ at hqueue
      rw [hrest, halike.unhidden, List.exists_mem_cons_iff]
      by_cases hkept : queue (p'.after fun _ => iTransport T).world.inner =
          queue (p'.before fun _ => iTransport T).world.inner
      · -- the handler left the queue alone
        rw [hkept, hbefore]
        simp
      · -- the handler emptied the queue
        rw [hqueue.resolve_left hkept]
        refine iff_of_true (.inl trivial) (.inr (.inl ?_))
        rw [← hqueue.resolve_left hkept]
        exact hkept

/-- A failing `pop_receive` leaves nothing that would be accepted if and only if it did not take a
rejected packet in front of something acceptable; and a receive loop leaves nothing if and only if no
rejected packet stood before an acceptable one, or a handler emptied the queue. -/
theorem rejected_hides_iff (hq : Queued T queue) (enc : EncryptedTransport σ) :
    (∀ maxLength, ((enc.popReceive T maxLength).2 = none →
        ∀ n, ∀ a ∈ arrivals T (enc.popReceive T maxLength).1 (pops maxLength n), ¬a.accepted) ↔
      ¬∃ q qs, queue enc.inner = q :: qs ∧ ¬enc.Acceptable maxLength q ∧
        Promising maxLength (enc.after maxLength q) qs) ∧
    ∀ (net : NetworkManager (EncryptedTransport σ)) (t : ℕ) (envs : List PacketEnv)
        (out : NetworkManager (EncryptedTransport σ) × List PacketEnv), net.world = enc →
      net.pollTransportReceivesFor (fun _ => iTransport T) t envs = some out →
      ((∀ n, ∀ a ∈ arrivals T out.1.world (pops BUF_SIZE n), ¬a.accepted) ↔
        Unhidden BUF_SIZE enc (queue enc.inner) ∨
          ∃ p ∈ net.handledFor (fun _ => iTransport T) t envs,
            queue (p.after fun _ => iTransport T).world.inner ≠
              queue (p.before fun _ => iTransport T).world.inner) := by
  refine ⟨fun maxLength => popReceive_none_iff hq enc maxLength, ?_⟩
  rintro net t envs out rfl h
  rw [← drained_iff hq h, ← exists_accepted_iff hq]
  simp only [not_exists, not_and]

/-! ### A short packet in front -/

open LoopbackHub

/-- A server with a packet of one byte and a client's packet in its queue. -/
def behindShort : EncryptedTransport LoopbackHub :=
  new (holding [([0], clientAddr), (firstPacket sharedKey .server [1], clientAddr)]) sharedKey

/-- A server with the short packet only. -/
def onlyShort : EncryptedTransport LoopbackHub := new (holding [([0], clientAddr)]) sharedKey

theorem openReceived_short {enc : EncryptedTransport σ} {maxLength : ℕ} {received : Bytes}
    {sender : Address} (h : received.length < OVERHEAD) :
    enc.openReceived maxLength received sender = (enc, none) := by
  unfold openReceived
  rw [if_pos h]

theorem short_rejected (enc : EncryptedTransport σ) (maxLength : ℕ) :
    ¬enc.Acceptable maxLength ([0], clientAddr) ∧
      Alike (enc.after maxLength ([0], clientAddr))
        { enc with recvScratch := enc.roomFor maxLength } := by
  have hshort : (enc.cut maxLength ([0], clientAddr)).length < OVERHEAD := by
    unfold cut
    rw [List.length_take]
    exact lt_of_le_of_lt (min_le_right _ _) (by decide)
  refine ⟨?_, ?_⟩
  · rw [acceptable_iff, openReceived_short hshort]
    exact Bool.false_ne_true
  · unfold after
    rw [openReceived_short hshort]
    exact Alike.refl _

theorem rejected_hides_iff_onlyShort :
    (onlyShort.popReceive (LoopbackTransport.iTransport 0) 1).2 = none ∧
      ¬∃ n, ∃ a ∈ arrivals (LoopbackTransport.iTransport 0)
        (onlyShort.popReceive (LoopbackTransport.iTransport 0) 1).1 (pops 1 n), a.accepted := by
  have hqueue : LoopbackTransport.ready 0 onlyShort.inner = [([0], clientAddr)] := ready_holding _
  obtain ⟨hacc, -, -⟩ := popReceive_of_queue (LoopbackTransport.queued 0) onlyShort 1 hqueue
  have hnone : (onlyShort.popReceive (LoopbackTransport.iTransport 0) 1).2 = none := by
    rw [← Option.not_isSome_iff_eq_none, hacc]
    exact (short_rejected onlyShort 1).1
  refine ⟨hnone, ?_⟩
  have h := ((rejected_hides_iff (LoopbackTransport.queued 0) onlyShort).1 1).mpr ?_ hnone
  · rintro ⟨n, a, ha, haccepted⟩
    exact h n a ha haccepted
  · rintro ⟨q, qs, heq, -, hpromising⟩
    rw [hqueue] at heq
    obtain ⟨-, rfl⟩ := List.cons.inj heq
    exact hpromising

/-- A packet of one byte makes `pop_receive` fail and the receive loop stop in front of a packet that
would be accepted. -/
theorem short_hides :
    ((behindShort.popReceive (LoopbackTransport.iTransport 0) BUF_SIZE).2 = none ∧
      ∃ n, ∃ a ∈ arrivals (LoopbackTransport.iTransport 0)
        (behindShort.popReceive (LoopbackTransport.iTransport 0) BUF_SIZE).1 (pops BUF_SIZE n),
        a.accepted) ∧
    ∃ out, ({ mode := .server, world := behindShort } : NetworkManager
          (EncryptedTransport LoopbackHub)).pollTransportReceivesFor
        (fun _ => iTransport (LoopbackTransport.iTransport 0)) 0 [] = some out ∧
      ∃ n, ∃ a ∈ arrivals (LoopbackTransport.iTransport 0) out.1.world (pops BUF_SIZE n),
        a.accepted := by
  have hqueue : LoopbackTransport.ready 0 behindShort.inner =
      [([0], clientAddr), (firstPacket sharedKey .server [1], clientAddr)] := ready_holding _
  obtain ⟨hacc, hleft, halike⟩ := popReceive_of_queue (LoopbackTransport.queued 0) behindShort BUF_SIZE hqueue
  obtain ⟨hrejected, hafter⟩ := short_rejected behindShort BUF_SIZE
  have hnone : (behindShort.popReceive (LoopbackTransport.iTransport 0) BUF_SIZE).2 = none := by
    rw [← Option.not_isSome_iff_eq_none, hacc]
    exact hrejected
  have hpromising : ∃ n, ∃ a ∈ arrivals (LoopbackTransport.iTransport 0)
      (behindShort.popReceive (LoopbackTransport.iTransport 0) BUF_SIZE).1 (pops BUF_SIZE n),
      a.accepted := by
    rw [exists_accepted_iff (LoopbackTransport.queued 0), hleft, halike.promising, hafter.promising]
    refine .inl (acceptable_iff.mpr ?_)
    have hcut : cut { behindShort with recvScratch := behindShort.roomFor BUF_SIZE } BUF_SIZE
        (firstPacket sharedKey .server [1], clientAddr) = firstPacket sharedKey .server [1] := by
      refine List.take_of_length_le ?_
      rw [length_firstPacket]
      exact le_trans (by decide) (le_max_right _ _)
    have hagree : Agree (fun _ => True) { behindShort with recvScratch := behindShort.roomFor BUF_SIZE }
        (new () sharedKey) := ⟨fun p => by cases p <;> rfl, fun p _ => by cases p <;> rfl⟩
    rw [hcut, openReceived_firstPacket .server clientAddr hagree trivial (by decide)]
    rfl
  refine ⟨⟨hnone, hpromising⟩, ?_⟩
  exact ⟨_, pollTransportReceivesFor_of_none hnone, hpromising⟩

end CampelloNet
