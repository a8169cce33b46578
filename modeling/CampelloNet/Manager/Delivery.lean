import CampelloNet.Manager.Frame
import CampelloNet.Manager.History
import CampelloNet.Manager.Sending

/-!
# Delivery of user messages

What becomes of the messages that wait at a transport, one turn of the receive loop at a time. User
and system messages share one channel: a payload that begins as a system message does is taken for
one, every other payload of at most `BUF_SIZE` bytes reaches `pop_message` and the data callback as
it was sent. A longer message is clipped by the transport before its length is checked.
-/

namespace CampelloNet

open Lib Transport

namespace Transport

/-- Whole messages wait at the transport; `pop_receive` returns the first, as much of it as fits. -/
structure WholeMessages {σ : Type} (T : ITransport σ) (inbox : σ → List (Bytes × Address)) :
    Prop where
  popped : ∀ {n w msg sender rest}, inbox w = (msg, sender) :: rest →
    (T.popReceive n w).2 = some (msg.take n, sender)
  rest : ∀ {n w msg sender rest}, inbox w = (msg, sender) :: rest →
    inbox (T.popReceive n w).1 = rest

namespace LoopbackTransport

/-- The messages in the queue of a loopback transport. -/
def inbox (id : ℕ) (hub : LoopbackHub) : List (Bytes × Address) :=
  (hub.transports id).readyRecv.map fun pkt => (pkt.data, pkt.sender)

theorem wholeMessages (id : ℕ) : WholeMessages (iTransport id) (inbox id) where
  popped {n w msg sender rest} h := by
    obtain ⟨pkt, ready, hready, heq, -⟩ := List.map_eq_cons_iff.mp h
    show (popReceive id n w).2 = _
    unfold popReceive
    rw [hready]
    cases heq
    rfl
  rest {n w msg sender rest} h := by
    obtain ⟨pkt, ready, hready, -, hrest⟩ := List.map_eq_cons_iff.mp h
    show inbox id (popReceive id n w).1 = _
    unfold popReceive
    rw [hready]
    simp [inbox, LoopbackHub.set, ← hrest]

end LoopbackTransport

end Transport

namespace NetworkManager

variable {σ : Type} (T : ℕ → ITransport σ)

/-! ### Turns of the receive loop -/

/-- The state after exactly one turn of the loop of transport `t` for each environment. -/
def turns (t : ℕ) : List PacketEnv → NetworkManager σ → Option (NetworkManager σ)
  | [], net => some net
  | env :: envs, net =>
    match (T t).popReceive BUF_SIZE net.world with
    | (_, none) => none
    | (world, some (buffer, sender)) =>
      turns t envs ({ net with world := world }.handlePacket T env t buffer sender)

/-- One turn of the loop that takes `msg`. -/
def turn (env : PacketEnv) (t : ℕ) (msg : Bytes) (sender : Address) (net : NetworkManager σ) :
    NetworkManager σ :=
  (net.taken T t).handlePacket T env t (msg.take BUF_SIZE) sender

/-- The client that a user message from the address is attributed to, if it is not dropped. -/
def attributed (sender : Address) (net : NetworkManager σ) : Option ClientId :=
  if net.serving then (net.findClientByAddress sender).map ClientEntry.id
  else if net.mode = .client then some 0
  else none

/-- The message is within the rate limits of its sender. -/
def withinRate (env : PacketEnv) (length : ℕ) (sender : Address) (net : NetworkManager σ) : Bool :=
  !net.serving || (net.findClientByAddress sender).any fun entry =>
    (entry.rateLimiter.allowMessage .ieee length env.now).2

/-- The client table after a message of the given length was let through. -/
def charged (env : PacketEnv) (length : ℕ) (sender : Address) (net : NetworkManager σ) :
    List ClientEntry :=
  match (net.findClientByAddress sender).filter fun _ => net.serving with
  | none => net.clients
  | some entry =>
    upsert ClientEntry.address
      (countReceived (entry.rateLimiter.allowMessage .ieee length env.now).1 length entry) net.clients

/-- The manager with `msg` received for `client`: queued, handed to the callback, and counted. -/
def received (env : PacketEnv) (client : ClientId) (msg : Bytes) (sender : Address)
    (net : NetworkManager σ) : NetworkManager σ :=
  { net with
    clients := net.charged env msg.length sender
    messageQueue := net.messageQueue ++ [⟨client, msg⟩]
    calls := net.calls ++ if net.callbacks.onData then [.onData client msg] else [] }

section
variable {T} {t : ℕ} {inbox : σ → List (Bytes × Address)} {net : NetworkManager σ}

theorem pollTransportReceivesFor_turns {envs more : List PacketEnv} {net₁ : NetworkManager σ}
    (h : net.turns T t envs = some net₁) :
    net.pollTransportReceivesFor T t (envs ++ more) = net₁.pollTransportReceivesFor T t more := by
  induction envs generalizing net with
  | nil =>
    cases h
    rfl
  | cons env envs ih =>
    unfold turns at h
    split at h
    · cases h
    · rename_i world buffer sender hpop
      rw [List.cons_append, pollTransportReceivesFor, hpop]
      exact ih h

theorem pollTransportReceivesFor_turn (hT : WholeMessages (T t) inbox) {msg : Bytes}
    {sender : Address} {rest : List (Bytes × Address)} (h : inbox net.world = (msg, sender) :: rest)
    (env : PacketEnv) (envs : List PacketEnv) :
    net.pollTransportReceivesFor T t (env :: envs) =
      (net.turn T env t msg sender).pollTransportReceivesFor T t envs := by
  have hpop := hT.popped (n := BUF_SIZE) h
  unfold turn taken
  rw [pollTransportReceivesFor]
  rcases hp : (T t).popReceive BUF_SIZE net.world with ⟨world, _ | ⟨buffer, from'⟩⟩
  · rw [hp] at hpop
    cases hpop
  · rw [hp] at hpop
    cases hpop
    rfl

theorem flushToCallbacks_eq (client : ClientId) (data : Bytes) (net : NetworkManager σ) :
    net.flushToCallbacks client data =
      { net with calls := net.calls ++ if net.callbacks.onData then [.onData client data] else [] } := by
  unfold flushToCallbacks
  split_ifs
  · rfl
  · rw [List.append_nil]

theorem onUser_received {env : PacketEnv} {buffer : Bytes} {sender : Address} {client : ClientId}
    (hclient : net.attributed sender = some client)
    (hrate : net.withinRate env buffer.length sender) :
    net.onUser env buffer sender = net.received env client buffer sender := by
  unfold attributed at hclient
  unfold withinRate at hrate
  unfold onUser received charged
  by_cases hs : net.serving
  · rw [if_pos hs] at hclient
    rw [if_pos hs]
    rcases hfind : net.findClientByAddress sender with _ | entry
    · simp [hfind] at hclient
    · obtain rfl : entry.id = client := by simpa [hfind] using hclient
      have hok : (entry.rateLimiter.allowMessage .ieee buffer.length env.now).2 = true := by
        simpa [hs, hfind] using hrate
      simp only [hok, if_true, hs, Option.filter_some, flushToCallbacks_eq]
      rfl
  · rw [if_neg hs] at hclient
    rw [if_neg hs]
    split_ifs at hclient with hmode
    obtain rfl : 0 = client := by simpa using hclient
    have hnone : ((net.findClientByAddress sender).filter fun _ => net.serving) = none := by
      simp [hs]
    rw [if_pos hmode, hnone, flushToCallbacks_eq]
    rfl

/-- A user message that is not attributed or not within the rate is not seen. -/
theorem onUser_dropped {env : PacketEnv} {buffer : Bytes} {sender : Address}
    (h : ¬((net.attributed sender).isSome ∧ net.withinRate env buffer.length sender)) :
    (net.onUser env buffer sender).messageQueue = net.messageQueue ∧
      (net.onUser env buffer sender).calls = net.calls := by
  unfold attributed withinRate at h
  unfold onUser
  by_cases hs : net.serving
  · rw [if_pos hs]
    rcases hfind : net.findClientByAddress sender with _ | entry
    · exact ⟨rfl, rfl⟩
    · have hno : (entry.rateLimiter.allowMessage .ieee buffer.length env.now).2 = false := by
        simpa [hs, hfind] using h
      simp [hno, setClientByAddress]
  · rw [if_neg hs]
    split_ifs with hmode
    · simp [hs, hmode] at h
    · exact ⟨rfl, rfl⟩

end

/-! ### Messages that are not delivered -/

/-- The calls of the data callback. -/
def dataCalls (net : NetworkManager σ) : List AppCall := net.calls.filter fun c => c.kind = .data

/-- Nothing is delivered on the way from `net` to `net'`. -/
def Undelivered (net net' : NetworkManager σ) : Prop :=
  net'.messageQueue = net.messageQueue ∧ net'.dataCalls = net.dataCalls

section
variable {T} {net net' : NetworkManager σ}

theorem Undelivered.refl (net : NetworkManager σ) : Undelivered net net := ⟨rfl, rfl⟩

theorem Incidental.undelivered (h : Incidental net net') : Undelivered net net' :=
  ⟨h.messageQueue, h.filter_calls fun c hc => by simp [hc]⟩

theorem undelivered_called {calls : List AppCall} (h : ∀ c ∈ calls, c.kind ≠ .data) :
    Undelivered net (net.called calls) := by
  have hnil : (calls.filter fun c => c.kind = .data) = [] :=
    List.filter_eq_nil_iff.mpr fun c hc => by simpa using h c hc
  refine ⟨rfl, ?_⟩
  show (net.calls ++ calls).filter _ = _
  rw [List.filter_append, hnil, List.append_nil]
  rfl

theorem undelivered_tellEntities {f : NetworkEntityManager → NetworkEntityManager × List AppCall}
    (hf : ∀ em, ∀ c ∈ (f em).2, AppCall.kind c = .lifecycle) :
    Undelivered net (net.tellEntities f) := by
  unfold tellEntities
  split
  · exact .refl net
  · rename_i em _
    have hcalled : Undelivered net (net.called (f em).2) := undelivered_called fun c hc => by
      rw [hf em c hc]
      decide
    exact hcalled

theorem undelivered_onDeltaState (data : Bytes) : Undelivered net (net.onDeltaState data) := by
  unfold onDeltaState
  split
  · exact .refl net
  · rename_i rep _
    have hcalled : Undelivered net (net.called (rep.onReceiveDelta data).2) :=
      undelivered_called fun c hc => by
        rw [NetworkReplicationManager.onReceiveDelta_kind hc]
        decide
    exact hcalled

theorem undelivered_processSystemMessage (env : PacketEnv) (senderId : ClientId) (sender : Address)
    (t : ℕ) (type : UInt8) (data : Bytes) :
    Undelivered net (net.processSystemMessage T env senderId sender t type data) := by
  apply processSystemMessage_cases
  case connectRequest =>
    exact fun _ => (incidental_onConnectRequest net env sender t data).undelivered
  case connectAccept => exact fun _ => (incidental_onConnectAccept net data).undelivered
  case connectReject => exact fun _ => (incidental_onConnectReject net).undelivered
  case disconnectNotify => exact fun _ => (incidental_onDisconnectNotify net sender).undelivered
  case timeSyncRequest =>
    exact fun _ => (incidental_onTimeSyncRequest net env sender t data).undelivered
  case timeSyncResponse => exact fun _ => (incidental_onTimeSyncResponse net env data).undelivered
  case entitySpawn => exact fun _ => undelivered_tellEntities fun em c hc => em.onReceiveSpawn_calls hc
  case entityDestroy =>
    exact fun _ => undelivered_tellEntities fun em c hc => em.onReceiveDestroy_calls hc
  case entitySetOwner =>
    exact fun _ => undelivered_tellEntities fun em c hc => absurd hc List.not_mem_nil
  case entityFullState =>
    exact fun _ => undelivered_tellEntities fun em c hc => absurd hc List.not_mem_nil
  case deltaState => exact fun _ => undelivered_onDeltaState data
  case snapshotAck => exact fun _ => (incidental_onSnapshotAck net senderId data).undelivered
  case rpc => exact fun _ => (incidental_onRpc net env senderId sender data).undelivered
  case unknown => exact .refl net

theorem undelivered_onSystem (env : PacketEnv) (t : ℕ) (buffer : Bytes) (sender : Address) :
    Undelivered net (net.onSystem T env t buffer sender) := by
  unfold onSystem
  dsimp only
  by_cases hs : net.serving
  · rw [if_pos hs]
    rcases net.findClientByAddress sender with _ | entry
    · dsimp only
      split_ifs
      · exact undelivered_processSystemMessage env 0 sender t _ _
      · exact .refl net
    · exact undelivered_processSystemMessage env entry.id sender t _ _
  · rw [if_neg hs]
    exact undelivered_processSystemMessage env 0 sender t _ _

/-! ### Packets -/

/-- The packet is taken for a user message and let through. -/
structure Accepted (env : PacketEnv) (buffer : Bytes) (sender : Address)
    (net : NetworkManager σ) : Prop where
  nonempty : buffer ≠ []
  fits : buffer.length ≤ net.config.maxPacketSize
  user : isSystem buffer = false
  attributed : (net.attributed sender).isSome
  rate : net.withinRate env buffer.length sender

theorem handlePacket_of_accepted {env : PacketEnv} (t : ℕ) {buffer : Bytes} {sender : Address}
    (h : net.Accepted env buffer sender) : ∃ client, net.attributed sender = some client ∧
      net.handlePacket T env t buffer sender = net.received env client buffer sender := by
  obtain ⟨client, hclient⟩ := Option.isSome_iff_exists.mp h.attributed
  refine ⟨client, hclient, ?_⟩
  unfold handlePacket
  rw [if_neg h.nonempty, if_neg (not_lt.mpr h.fits), if_neg (by simp [h.user])]
  exact onUser_received hclient h.rate

theorem undelivered_of_not_accepted {env : PacketEnv} (t : ℕ) {buffer : Bytes} {sender : Address}
    (h : ¬net.Accepted env buffer sender) :
    Undelivered net (net.handlePacket T env t buffer sender) := by
  unfold handlePacket
  split_ifs with hne hfits hsys
  · exact .refl net
  · exact (incidental_onOversized net sender).undelivered
  · exact undelivered_onSystem env t buffer sender
  · have hdrop : ¬((net.attributed sender).isSome ∧ net.withinRate env buffer.length sender) :=
      fun hd => h ⟨hne, not_lt.mp hfits, by simpa using hsys, hd.1, hd.2⟩
    obtain ⟨hqueue, hcalls⟩ := onUser_dropped hdrop
    exact ⟨hqueue, by unfold dataCalls; rw [hcalls]⟩

end

/-! ### Whole messages -/

/-- `msg` is delivered as it is, or nothing is. -/
def DeliveredWhole (msg : Bytes) (net net' : NetworkManager σ) : Prop :=
  Undelivered net net' ∨ ∃ client, net'.messageQueue = net.messageQueue ++ [⟨client, msg⟩] ∧
    net'.dataCalls = net.dataCalls ++ if net.callbacks.onData then [.onData client msg] else []

section
variable {T} {net : NetworkManager σ}

theorem received_whole (net : NetworkManager σ) (env : PacketEnv) (client : ClientId) (msg : Bytes) (sender : Address) :
    DeliveredWhole msg net (net.received env client msg sender) := by
  refine .inr ⟨client, rfl, ?_⟩
  unfold dataCalls received
  rw [List.filter_append]
  split_ifs <;> rfl

theorem received_clipped (net : NetworkManager σ) {env : PacketEnv} {client : ClientId} {msg buffer : Bytes}
    {sender : Address} (h : buffer ≠ msg) :
    ¬DeliveredWhole msg net (net.received env client buffer sender) := by
  rintro (hnone | ⟨client', hqueue, -⟩)
  · have hlen := congrArg List.length hnone.1
    simp [received] at hlen
  · have hmsg := List.append_cancel_left hqueue
    simp only [List.cons.injEq, ReceivedMessage.mk.injEq] at hmsg
    exact h hmsg.1.2

end

/-- A message that waits at a transport is delivered whole or not at all, unless it is longer than
the receive buffer and what is left of it is accepted. -/
theorem delivery_whole_iff (T : ℕ → ITransport σ) {t : ℕ} {inbox : σ → List (Bytes × Address)}
    (hT : WholeMessages (T t) inbox) (net : NetworkManager σ) {msg : Bytes} {sender : Address}
    {rest : List (Bytes × Address)} (h : inbox net.world = (msg, sender) :: rest)
    (env : PacketEnv) (envs : List PacketEnv) :
    net.pollTransportReceivesFor T t (env :: envs) =
      (net.turn T env t msg sender).pollTransportReceivesFor T t envs ∧
    (DeliveredWhole msg net (net.turn T env t msg sender) ↔
      ¬(BUF_SIZE < msg.length ∧ net.Accepted env (msg.take BUF_SIZE) sender)) := by
  refine ⟨pollTransportReceivesFor_turn hT h env envs, ?_⟩
  unfold turn
  by_cases hacc : net.Accepted env (msg.take BUF_SIZE) sender
  · have hacc' : (net.taken T t).Accepted env (msg.take BUF_SIZE) sender :=
      ⟨hacc.nonempty, hacc.fits, hacc.user, hacc.attributed, hacc.rate⟩
    obtain ⟨client, -, heq⟩ := handlePacket_of_accepted (T := T) t hacc'
    rw [heq]
    by_cases hlong : BUF_SIZE < msg.length
    · refine iff_of_false ?_ (not_not_intro ⟨hlong, hacc⟩)
      refine received_clipped (net.taken T t) (fun htake => ?_)
      have hlen := congrArg List.length htake
      rw [List.length_take] at hlen
      omega
    · rw [List.take_of_length_le (not_lt.mp hlong)]
      exact iff_of_true (received_whole (net.taken T t) env client msg sender)
        fun h => hlong h.1
  · have hacc' : ¬(net.taken T t).Accepted env (msg.take BUF_SIZE) sender := fun h =>
      hacc ⟨h.nonempty, h.fits, h.user, h.attributed, h.rate⟩
    have hun := undelivered_of_not_accepted (T := T) t hacc'
    exact iff_of_true (.inl hun) fun h => hacc h.2

/-- A client with two messages of its own: one that fits the receive buffer. -/
theorem delivery_whole_iff_fits :
    DeliveredWhole [7, 8] (served [[7, 8]])
      ((served [[7, 8]]).turn loopback packetEnv 0 [7, 8] LoopbackHub.clientAddr) :=
  (delivery_whole_iff loopback (LoopbackTransport.wholeMessages 0) (served [[7, 8]])
    (show LoopbackTransport.inbox 0 (served [[7, 8]]).world = [([7, 8], LoopbackHub.clientAddr)] from
      rfl) packetEnv []).2.mpr fun h => absurd h.1 (by decide)

/-- A message one byte longer than the receive buffer. -/
def longMessage : Bytes := List.replicate 4097 0

/-- The server as it has taken the long message from its client. -/
def afterLongMessage : NetworkManager LoopbackHub :=
  (served [longMessage]).turn loopback packetEnv 0 longMessage LoopbackHub.clientAddr

theorem longMessage_clipped : longMessage.take BUF_SIZE = List.replicate 4096 0 := by
  unfold longMessage BUF_SIZE
  rw [List.take_replicate]
  rfl

theorem accepted_clipped : ((served [longMessage]).taken loopback 0).Accepted packetEnv
    (longMessage.take BUF_SIZE) LoopbackHub.clientAddr := by
  rw [longMessage_clipped]
  refine ⟨List.ne_nil_of_length_pos (by rw [List.length_replicate]; decide), ?_, ?_, ?_, ?_⟩
  · rw [List.length_replicate]
    decide
  · unfold isSystem
    rw [List.take_replicate, List.length_replicate]
    decide
  · decide +kernel
  · rw [List.length_replicate]
    decide +kernel

/-- The long message waits at a server that admits messages of 8192 bytes; the server delivers its
first 4096 bytes. -/
theorem delivery_clipped :
    LoopbackTransport.inbox 0 (served [longMessage]).world = [(longMessage, LoopbackHub.clientAddr)] ∧
    longMessage.length ≤ (served [longMessage]).config.maxPacketSize ∧
    (∃ id, afterLongMessage.messageQueue = [⟨id, List.replicate 4096 0⟩]) ∧
    ¬DeliveredWhole longMessage (served [longMessage]) afterLongMessage := by
  obtain ⟨id, -, heq⟩ := handlePacket_of_accepted (T := loopback) 0 accepted_clipped
  have hafter : afterLongMessage = _ := heq
  refine ⟨rfl, ?_, ⟨id, ?_⟩, ?_⟩
  · unfold longMessage
    rw [List.length_replicate]
    decide
  · rw [hafter, longMessage_clipped]
    rfl
  · rw [hafter, longMessage_clipped]
    refine received_clipped ((served [longMessage]).taken loopback 0) fun h => ?_
    have hlen := congrArg List.length h
    unfold longMessage at hlen
    rw [List.length_replicate, List.length_replicate] at hlen
    omega

/-! ### User payloads -/

section
variable {T : ℕ → ITransport σ} {net : NetworkManager σ}

theorem iterate_popMessage (k : ℕ) (h : net.messageReadIdx + k ≤ net.messageQueue.length) :
    (fun n : NetworkManager σ => n.popMessage.1)^[k] net =
      { net with messageReadIdx := net.messageReadIdx + k } := by
  induction k with
  | zero => rfl
  | succ k ih =>
    rw [Function.iterate_succ_apply', ih (by omega)]
    have hlt : net.messageReadIdx + k < net.messageQueue.length := by omega
    unfold popMessage
    dsimp only
    rw [List.drop_eq_getElem_cons hlt]
    rfl

/-- The `k`-th next message that the application pops. -/
theorem popMessage_iterate (k : ℕ) (h : net.messageReadIdx + k < net.messageQueue.length) :
    ((fun n : NetworkManager σ => n.popMessage.1)^[k] net).popMessage.2 =
      some net.messageQueue[net.messageReadIdx + k] := by
  rw [iterate_popMessage k (by omega)]
  unfold popMessage
  dsimp only
  rw [List.drop_eq_getElem_cons h]

theorem send_client {u : ℕ} (b : Bytes) (r : PacketReliability) (hmode : net.mode = .client)
    (hconn : net.clientConnected) (hu : net.transport = some u) :
    net.send T b r =
      ({ net with world := ((T u).send b r net.world).1 }, ((T u).send b r net.world).2) := by
  unfold send transmit
  rw [if_pos hmode, if_pos hconn, hu]

theorem sendToClient_remote {u : ℕ} {client : ClientId} {entry : ClientEntry} (b : Bytes)
    (r : PacketReliability) (hs : net.serving) (hremote : ¬(net.mode = .host ∧ client = net.localClientId))
    (hfind : net.findClientById client = some entry) (happroved : entry.approved)
    (hu : entry.transport = some u) :
    (net.sendToClient T client b r).1.world = ((T u).sendTo entry.address b r net.world).1 ∧
      (net.sendToClient T client b r).2 = ((T u).sendTo entry.address b r net.world).2 := by
  unfold sendToClient
  rw [if_neg (by simp [hs]), if_neg hremote, hfind, Option.filter_some, if_pos happroved]
  dsimp only
  rw [hu]
  dsimp only
  split_ifs <;> exact ⟨rfl, rfl⟩

theorem connection_received (env : PacketEnv) (client : ClientId) (b : Bytes) (sender : Address) :
    (net.received env client b sender).clients.map ClientEntry.connection =
      net.clients.map ClientEntry.connection := by
  show (net.charged env b.length sender).map ClientEntry.connection = _
  unfold charged
  rcases hfind : net.findClientByAddress sender with _ | entry
  · rfl
  · by_cases hs : net.serving
    · rw [Option.filter_some, if_pos hs]
      dsimp only
      have haddr : entry.address = sender := lookup_key hfind
      have hself : lookup ClientEntry.address entry.address net.clients = some entry := by
        rw [haddr]
        exact hfind
      exact map_upsert_of_lookup hself rfl
    · rw [Option.filter_some, if_neg hs]

end

/-- A payload that does not begin as a system message does goes to the transport as it is, and when
the receive loop of the other side, after any turns, comes to it, it is queued for `pop_message`
under its sender's id; nothing else changes but the limiter and the counters of that client. -/
theorem userPayload_transparent (T : ℕ → ITransport σ) {t : ℕ}
    {inbox : σ → List (Bytes × Address)} (hT : WholeMessages (T t) inbox) (b : Bytes) (hne : b ≠ [])
    (hlen : b.length ≤ BUF_SIZE) (hsys : isSystem b = false) :
    (∀ (client : NetworkManager σ) (r : PacketReliability) (u : ℕ), client.mode = .client →
      client.clientConnected → client.transport = some u →
      client.send T b r = ({ client with world := ((T u).send b r client.world).1 },
        ((T u).send b r client.world).2)) ∧
    (∀ (server : NetworkManager σ) (id : ClientId) (entry : ClientEntry) (r : PacketReliability)
      (u : ℕ), server.serving → ¬(server.mode = .host ∧ id = server.localClientId) →
      server.findClientById id = some entry → entry.approved → entry.transport = some u →
      (server.sendToClient T id b r).1.world = ((T u).sendTo entry.address b r server.world).1 ∧
      (server.sendToClient T id b r).2 = ((T u).sendTo entry.address b r server.world).2) ∧
    ∀ (receiver net : NetworkManager σ) (earlier later : List PacketEnv) (env : PacketEnv)
      (sender : Address) (rest : List (Bytes × Address)) (id : ClientId),
      receiver.turns T t earlier = some net → inbox net.world = (b, sender) :: rest →
      b.length ≤ net.config.maxPacketSize → net.attributed sender = some id →
      net.withinRate env b.length sender →
      receiver.pollTransportReceivesFor T t (earlier ++ env :: later) =
        ((net.taken T t).received env id b sender).pollTransportReceivesFor T t later ∧
      ((net.taken T t).received env id b sender).clients.map ClientEntry.connection =
        net.clients.map ClientEntry.connection ∧
      ∀ unread, net.messageReadIdx + unread = net.messageQueue.length →
        ((fun n : NetworkManager σ => n.popMessage.1)^[unread]
          ((net.taken T t).received env id b sender)).popMessage.2 = some ⟨id, b⟩ := by
  refine ⟨fun client r u => send_client b r, fun server id entry r u => sendToClient_remote b r, ?_⟩
  intro receiver net earlier later env sender rest id hturns hhead hfits hid hrate
  refine ⟨?_, connection_received env id b sender, ?_⟩
  · rw [pollTransportReceivesFor_turns hturns, pollTransportReceivesFor_turn hT hhead]
    have hacc : (net.taken T t).Accepted env b sender :=
      ⟨hne, hfits, hsys, Option.isSome_iff_exists.mpr ⟨id, hid⟩, hrate⟩
    obtain ⟨id', hid', heq⟩ := handlePacket_of_accepted (T := T) t hacc
    obtain rfl : id' = id := Option.some.inj (hid'.symm.trans hid)
    unfold turn
    rw [List.take_of_length_le hlen, heq]
  · intro unread hunread
    have hqueue : ((net.taken T t).received env id b sender).messageQueue =
        net.messageQueue ++ [⟨id, b⟩] := rfl
    have hidx : ((net.taken T t).received env id b sender).messageReadIdx = net.messageReadIdx := rfl
    rw [popMessage_iterate unread (by rw [hqueue, hidx, List.length_append, List.length_singleton]; omega)]
    simp only [hqueue, hidx, hunread]
    rw [List.getElem_append_right (le_refl _)]
    simp

/-- A client sends three bytes; the server's loop delivers them. -/
theorem userPayload_transparent_bytes :
    (served [[1, 2, 3]]).pollTransportReceivesFor loopback 0 [packetEnv] =
      (((served [[1, 2, 3]]).taken loopback 0).received packetEnv 1 [1, 2, 3]
        LoopbackHub.clientAddr).pollTransportReceivesFor loopback 0 [] ∧
    (((served [[1, 2, 3]]).taken loopback 0).received packetEnv 1 [1, 2, 3]
      LoopbackHub.clientAddr).popMessage.2 = some ⟨1, [1, 2, 3]⟩ := by
  obtain ⟨-, -, hreceive⟩ := userPayload_transparent loopback (LoopbackTransport.wholeMessages 0)
    [1, 2, 3] (by decide) (by decide) (by decide)
  obtain ⟨hloop, -, hpop⟩ := hreceive (served [[1, 2, 3]]) (served [[1, 2, 3]]) [] [] packetEnv
    LoopbackHub.clientAddr [] 1 rfl rfl (by decide) (by decide +kernel) (by decide +kernel)
  exact ⟨hloop, hpop 0 rfl⟩

/-- The client of `served`. -/
def joined : NetworkManager LoopbackHub where
  mode := .client
  world := LoopbackHub.connected
  transport := some 1
  clientConnected := true
  localClientId := 1

/-- A client sends the payload CA FE 03 as a user message; the server drops the client and delivers
nothing. -/
theorem userPayload_taken_for_system :
    (joined.send loopback [0xCA, 0xFE, 3] .reliableOrdered).2 = true ∧
    (({ served [] with world := (joined.send loopback [0xCA, 0xFE, 3] .reliableOrdered).1.world }.poll
      loopback { now := 0, format := zeroFormat, packets := [packetEnv] }).map fun (net : NetworkManager LoopbackHub) =>
        (net.clients.map ClientEntry.id, net.popMessage.2)) = some ([], none) := by
  decide +kernel

end NetworkManager

end CampelloNet
