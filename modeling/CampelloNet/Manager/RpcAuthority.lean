import CampelloNet.Manager.ClientTable
import CampelloNet.Manager.Delivery

/-!
# Who calls a handler

A server hands an RPC packet to its handlers under the id of the client whose address it came from.
Ids of clients are never 0, which `RpcManager` takes for the server, so a client reaches no handler
that is for the server only. A handler is given what the receive buffer holds of the packet:
`Clipped` says when that is not all of it.
-/

namespace CampelloNet

open Lib Transport

namespace Transport

/-- What waits in the inbox is all that `pop_receive` returns. -/
structure Inbox {σ : Type} (T : ITransport σ) (inbox : σ → List (Bytes × Address)) : Prop
    extends WholeMessages T inbox where
  empty : ∀ {n w}, inbox w = [] → (T.popReceive n w).2 = none

theorem LoopbackTransport.inbox_popped (id : ℕ) : Inbox (iTransport id) (inbox id) where
  toWholeMessages := wholeMessages id
  empty {n w} h := by
    have hready : (w.transports id).readyRecv = [] := List.map_eq_nil_iff.mp h
    show (popReceive id n w).2 = none
    unfold popReceive
    rw [hready]

end Transport

namespace AppCall

def IsRpc : AppCall → Prop
  | rpc _ _ _ => True
  | _ => False

instance : DecidablePred IsRpc
  | rpc _ _ _ => isTrue trivial
  | onConnected _ | onDisconnected _ | onData _ _ | onApproval _ _ | spawn _ _ _ | destroy _
  | deserializeEntity _ _ | snapshotReceived _ _ => isFalse id

theorem IsRpc.kind {c : AppCall} (h : c.IsRpc) : c.kind = .notice := by
  cases c with
  | rpc _ _ _ => rfl
  | _ => cases h

end AppCall

/-! ### The RPC manager -/

namespace RpcManager

/-- The manager invokes a handler with the packet: it is long enough and not too long, and its id has
a handler that the sender may call, within the rate of the id. -/
structure Accepts (now : ℚ) (sender : ClientId) (data : Bytes) (rpc : RpcManager) : Prop where
  length : 2 ≤ data.length
  payload : rpc.maxPayloadSize > 0 → data.length - 2 ≤ rpc.maxPayloadSize
  handler : ∃ h ∈ lookup Prod.fst (readBe16 data) rpc.handlers, h.2 = .serverOnly → sender = 0
  rate : ∀ b ∈ lookup Prod.fst (readBe16 data) rpc.rpcRateBuckets, (b.2.take now).2

variable {env : ReceiveEnv} {sender : ClientId} {data : Bytes} {rpc : RpcManager}

theorem onReceive_accepted (h : rpc.Accepts env.now sender data) :
    (rpc.onReceive env sender data).2 =
      [.rpc (readBe16 data) (rpc.paramsOf env sender) (data.drop 2)] := by
  obtain ⟨⟨id, authority⟩, hhandler, hauth⟩ := h.handler
  have hrate := h.rate
  have hallowed : ¬(authority = .serverOnly ∧ sender ≠ 0) := fun hno => hno.2 (hauth hno.1)
  have hpayload : ¬(rpc.maxPayloadSize > 0 ∧ data.length - 2 > rpc.maxPayloadSize) := by
    intro hlong
    have := h.payload hlong.1
    omega
  unfold onReceive
  dsimp only
  rw [if_neg (not_lt.mpr h.length), if_neg hpayload, hhandler]
  dsimp only
  rw [if_neg hallowed]
  rcases hbucket : lookup Prod.fst (readBe16 data) rpc.rpcRateBuckets with _ | ⟨_, bucket⟩
  · rfl
  · exact if_pos (hrate _ hbucket)

theorem onReceive_rejected (h : ¬rpc.Accepts env.now sender data) :
    (rpc.onReceive env sender data).2 = [] := by
  unfold onReceive
  dsimp only
  split_ifs with hlen hpayload
  · rfl
  · rfl
  · rcases hhandler : lookup Prod.fst (readBe16 data) rpc.handlers with _ | ⟨id, authority⟩
    · rfl
    · dsimp only
      split_ifs with hauth
      · rfl
      · have hrate : ∃ b ∈ lookup Prod.fst (readBe16 data) rpc.rpcRateBuckets,
            (b.2.take env.now).2 = false := by
          by_contra hno
          apply h
          refine ⟨not_lt.mp hlen, fun hpos => ?_, ⟨_, hhandler, fun honly => ?_⟩, fun b hb => ?_⟩
          · by_contra hlong
            exact hpayload ⟨hpos, not_le.mp hlong⟩
          · by_contra hsender
            exact hauth ⟨honly, hsender⟩
          · by_contra hrate
            exact hno ⟨b, hb, by simpa using hrate⟩
        obtain ⟨⟨_, bucket⟩, hbucket, hrate⟩ := hrate
        rw [hbucket]
        exact if_neg (by rw [hrate]; decide)

end RpcManager

namespace NetworkManager

variable {σ : Type} {T : ℕ → ITransport σ}

/-! ### The handlers that a packet invokes -/

/-- The handlers invoked so far. -/
def rpcCalls (net : NetworkManager σ) : List AppCall := net.calls.filter fun c => c.IsRpc

section
variable (net : NetworkManager σ)

theorem rpcCalls_called {calls : List AppCall} (h : ∀ c ∈ calls, ¬c.IsRpc) :
    (net.called calls).rpcCalls = net.rpcCalls := by
  have hnil : calls.filter (fun c => c.IsRpc) = [] :=
    List.filter_eq_nil_iff.mpr fun c hc => by simpa using h c hc
  unfold rpcCalls called
  rw [List.filter_append, hnil, List.append_nil]

theorem rpcCalls_one {c : AppCall} (h : ¬c.IsRpc) : (net.called [c]).rpcCalls = net.rpcCalls :=
  rpcCalls_called net fun d hd => by rwa [List.mem_singleton.mp hd]

theorem rpcCalls_of_eq {net' : NetworkManager σ} (h : net'.calls = net.calls) :
    net'.rpcCalls = net.rpcCalls := by
  unfold rpcCalls
  rw [h]

@[simp] theorem rpcCalls_callOnConnected (client : ClientId) :
    (net.callOnConnected client).rpcCalls = net.rpcCalls := by
  unfold callOnConnected
  split_ifs
  · exact rpcCalls_one net not_false
  · rfl

@[simp] theorem rpcCalls_callOnDisconnected (client : ClientId) :
    (net.callOnDisconnected client).rpcCalls = net.rpcCalls := by
  unfold callOnDisconnected
  split_ifs
  · exact rpcCalls_one net not_false
  · rfl

@[simp] theorem rpcCalls_tellReplication
    (f : NetworkReplicationManager → NetworkReplicationManager) :
    (net.tellReplication f).rpcCalls = net.rpcCalls := rfl

@[simp] theorem rpcCalls_disconnectTransport :
    (net.disconnectTransport T).rpcCalls = net.rpcCalls := by
  unfold disconnectTransport
  split <;> rfl

theorem rpcCalls_dropClient (client : ClientId) :
    (net.dropClient client).rpcCalls = net.rpcCalls := by
  unfold dropClient
  rw [rpcCalls_tellReplication, rpcCalls_callOnDisconnected]
  rfl

theorem rpcCalls_quiet {net' : NetworkManager σ} (h : Quiet T net net') :
    net'.rpcCalls = net.rpcCalls := by
  obtain ⟨calls, heq, hkind⟩ := h.calls
  have hnone : ∀ c ∈ calls, ¬c.IsRpc := by
    intro c hc hrpc
    rcases hkind c hc with hdata | hlifecycle
    · cases hdata.symm.trans hrpc.kind
    · cases hlifecycle.symm.trans hrpc.kind
  exact (rpcCalls_of_eq (net.called calls) heq).trans (rpcCalls_called net hnone)

theorem rpcCalls_sent {net' : NetworkManager σ} (h : Sent T net net') :
    net'.rpcCalls = net.rpcCalls := rpcCalls_quiet net h.quiet

theorem rpcCalls_onConnectRequest (env : PacketEnv) (sender : Address) (t : ℕ) (data : Bytes) :
    (net.onConnectRequest T env sender t data).rpcCalls = net.rpcCalls := by
  have happ : (net.checkApproval env sender data).1.rpcCalls = net.rpcCalls := by
    unfold checkApproval
    dsimp only
    split_ifs
    · exact rpcCalls_one net not_false
    · rfl
  unfold onConnectRequest
  split_ifs
  · rfl
  · split
    · rfl
    · dsimp only
      split_ifs
      · exact happ
      · exact happ
      · unfold admitClient
        dsimp only
        rw [rpcCalls_tellReplication, rpcCalls_callOnConnected]
        exact happ

theorem rpcCalls_onConnectAccept (data : Bytes) :
    (net.onConnectAccept data).rpcCalls = net.rpcCalls := by
  unfold onConnectAccept
  split_ifs
  · rfl
  · rfl
  · dsimp only
    rw [rpcCalls_tellReplication, rpcCalls_callOnConnected]
    rfl

theorem rpcCalls_onConnectReject : (net.onConnectReject T).rpcCalls = net.rpcCalls := by
  unfold onConnectReject
  split_ifs
  · rfl
  · exact rpcCalls_disconnectTransport { net with awaitingAccept := false }

theorem rpcCalls_onDisconnectNotify (sender : Address) :
    (net.onDisconnectNotify T sender).rpcCalls = net.rpcCalls := by
  unfold onDisconnectNotify
  split_ifs
  · split
    · rfl
    · exact rpcCalls_dropClient net _
  · dsimp only
    rw [rpcCalls_tellReplication, rpcCalls_callOnDisconnected, rpcCalls_disconnectTransport]
    rfl
  · rfl

theorem rpcCalls_tellEntities {f : NetworkEntityManager → NetworkEntityManager × List AppCall}
    (hf : ∀ em, ∀ c ∈ (f em).2, AppCall.kind c = .lifecycle) :
    (net.tellEntities f).rpcCalls = net.rpcCalls := by
  unfold tellEntities
  split
  · rfl
  · rename_i em _
    refine Eq.trans (rpcCalls_called _ fun c hc hrpc => ?_) rfl
    cases (hf em c hc).symm.trans hrpc.kind

theorem rpcCalls_onDeltaState (data : Bytes) : (net.onDeltaState data).rpcCalls = net.rpcCalls := by
  unfold onDeltaState
  split
  · rfl
  · refine Eq.trans (rpcCalls_called _ fun c hc hrpc => ?_) rfl
    cases (NetworkReplicationManager.onReceiveDelta_kind hc).symm.trans hrpc.kind

theorem rpcCalls_onOversized (sender : Address) :
    (net.onOversized T sender).rpcCalls = net.rpcCalls := by
  unfold onOversized
  split_ifs
  · rfl
  · split
    · rfl
    · split
      · rfl
      · split_ifs
        · rfl
        · rw [rpcCalls_dropClient]
          rfl

theorem rpcCalls_flushToCallbacks (client : ClientId) (data : Bytes) :
    (net.flushToCallbacks client data).rpcCalls = net.rpcCalls := by
  unfold flushToCallbacks
  split_ifs
  · exact rpcCalls_one net not_false
  · rfl

theorem rpcCalls_onUser (env : PacketEnv) (buffer : Bytes) (sender : Address) :
    (net.onUser env buffer sender).rpcCalls = net.rpcCalls := by
  unfold onUser
  split_ifs
  · split
    · rfl
    · dsimp only
      split_ifs
      · rw [rpcCalls_flushToCallbacks]
        rfl
      · rfl
  · rw [rpcCalls_flushToCallbacks]
    rfl
  · rfl

/-- Who `RpcManager` takes the sender of a packet for: 0 is the server. -/
def caller (sender : Address) : Option ClientId :=
  if net.serving then (net.findClientByAddress sender).map ClientEntry.id else some 0

/-- The packet invokes a handler of `rpc` as `client`. -/
structure Invokes (env : PacketEnv) (buffer : Bytes) (sender : Address) (client : ClientId)
    (rpc : RpcManager) : Prop where
  message : net.SystemMessage SysType.rpc buffer
  caller : net.caller sender = some client
  manager : net.rpcManager = some rpc
  rate : (net.allowRpc env sender).2
  accepts : rpc.Accepts env.now client (buffer.drop 3)

variable {net}

theorem allowRpc_frame (env : PacketEnv) (sender : Address) :
    (net.allowRpc env sender).1.rpcCalls = net.rpcCalls ∧
      (net.allowRpc env sender).1.rpcManager = net.rpcManager := by
  unfold allowRpc
  split_ifs
  · split <;> exact ⟨rfl, rfl⟩
  · exact ⟨rfl, rfl⟩

theorem allowRpc_world (env : PacketEnv) (sender : Address) (world : σ) :
    ({ net with world := world }.allowRpc env sender).2 = (net.allowRpc env sender).2 := by
  have hfind : findClientByAddress sender { net with world := world } =
    net.findClientByAddress sender := rfl
  unfold allowRpc
  rw [hfind]
  by_cases hs : net.serving
  · rw [if_pos hs, if_pos (show serving { net with world := world } from hs)]
    rcases net.findClientByAddress sender with _ | entry <;> rfl
  · rw [if_neg hs, if_neg (show ¬serving { net with world := world } from hs)]

theorem rpcCalls_onRpc {env : PacketEnv} {client : ClientId} {sender : Address} {data : Bytes} :
    (∃ rpc params, net.rpcManager = some rpc ∧ (net.allowRpc env sender).2 ∧
      rpc.Accepts env.now client data ∧ params.sender = client ∧
      (net.onRpc T env client sender data).rpcCalls =
        net.rpcCalls ++ [.rpc (readBe16 data) params (data.drop 2)]) ∨
    (¬∃ rpc, net.rpcManager = some rpc ∧ (net.allowRpc env sender).2 ∧
      rpc.Accepts env.now client data) ∧
      (net.onRpc T env client sender data).rpcCalls = net.rpcCalls := by
  obtain ⟨hcalls, -⟩ := allowRpc_frame env sender
  unfold onRpc
  rcases hrpc : net.rpcManager with _ | rpc
  · refine .inr ⟨?_, rfl⟩
    rintro ⟨_, hno, -⟩
    cases hno
  · dsimp only
    by_cases hallowed : (net.allowRpc env sender).2
    · rw [if_pos hallowed]
      let renv : RpcManager.ReceiveEnv := ⟨env.now, (net.allowRpc env sender).1.networkTime env.now,
        (net.allowRpc env sender).1.clientRtt T client⟩
      have hadded : ({ (net.allowRpc env sender).1 with
          rpcManager := some (rpc.onReceive renv client data).1 }.called
            (rpc.onReceive renv client data).2).rpcCalls =
          net.rpcCalls ++ (rpc.onReceive renv client data).2.filter fun c => c.IsRpc := by
        unfold rpcCalls called
        rw [List.filter_append]
        exact congrArg (· ++ _) hcalls
      by_cases haccepts : rpc.Accepts env.now client data
      · have hone := RpcManager.onReceive_accepted (show rpc.Accepts renv.now client data from haccepts)
        refine .inl ⟨rpc, rpc.paramsOf renv client, rfl, hallowed, haccepts, ?_, ?_⟩
        · unfold RpcManager.paramsOf
          split_ifs <;> rfl
        · exact hadded.trans (by rw [hone]; rfl)
      · have hnone := RpcManager.onReceive_rejected (show ¬rpc.Accepts renv.now client data from haccepts)
        refine .inr ⟨?_, ?_⟩
        · rintro ⟨_, hsame, -, hacc⟩
          cases hsame
          exact haccepts hacc
        · exact hadded.trans (by rw [hnone]; exact List.append_nil _)
    · rw [if_neg hallowed]
      refine .inr ⟨?_, hcalls⟩
      rintro ⟨_, -, hno, -⟩
      exact hallowed hno

theorem rpcCalls_processSystemMessage {env : PacketEnv} {client : ClientId} {sender : Address}
    {t : ℕ} {type : UInt8} {data : Bytes} (htype : type ≠ SysType.rpc) :
    (net.processSystemMessage T env client sender t type data).rpcCalls = net.rpcCalls := by
  apply processSystemMessage_cases (P := fun next => next.rpcCalls = net.rpcCalls)
  case connectRequest => exact fun _ => rpcCalls_onConnectRequest net env sender t data
  case connectAccept => exact fun _ => rpcCalls_onConnectAccept net data
  case connectReject => exact fun _ => rpcCalls_onConnectReject net
  case disconnectNotify => exact fun _ => rpcCalls_onDisconnectNotify net sender
  case timeSyncRequest =>
    intro _
    unfold onTimeSyncRequest
    split_ifs <;> rfl
  case timeSyncResponse =>
    intro _
    unfold onTimeSyncResponse
    split_ifs <;> rfl
  case entitySpawn => exact fun _ => rpcCalls_tellEntities net fun em c hc => em.onReceiveSpawn_calls hc
  case entityDestroy =>
    exact fun _ => rpcCalls_tellEntities net fun em c hc => em.onReceiveDestroy_calls hc
  case entitySetOwner =>
    exact fun _ => rpcCalls_tellEntities net fun em c hc => absurd hc List.not_mem_nil
  case entityFullState =>
    exact fun _ => rpcCalls_tellEntities net fun em c hc => absurd hc List.not_mem_nil
  case deltaState => exact fun _ => rpcCalls_onDeltaState net data
  case snapshotAck =>
    intro _
    unfold onSnapshotAck
    split_ifs <;> rfl
  case rpc => exact fun h => absurd h htype
  case unknown => rfl

/-- A packet that is no RPC message of a known sender invokes nothing; one that is goes to
`onRpc`. -/
theorem rpcCalls_handlePacket_cases (env : PacketEnv) (t : ℕ) (buffer : Bytes) (sender : Address) :
    (∃ client, net.SystemMessage SysType.rpc buffer ∧ net.caller sender = some client ∧
      (net.handlePacket T env t buffer sender).rpcCalls =
        (net.onRpc T env client sender (buffer.drop 3)).rpcCalls) ∨
    (¬(net.SystemMessage SysType.rpc buffer ∧ (net.caller sender).isSome)) ∧
      (net.handlePacket T env t buffer sender).rpcCalls = net.rpcCalls := by
  unfold handlePacket
  split_ifs with hne hfits hsys
  · refine .inr ⟨fun h => ?_, rfl⟩
    have hsys := h.1.2.1
    rw [hne] at hsys
    cases hsys
  · exact .inr ⟨fun h => absurd h.1.1 (not_le.mpr hfits), rpcCalls_onOversized net sender⟩
  · unfold onSystem caller
    dsimp only
    by_cases htype : buffer.getD 2 0 = SysType.rpc
    · have hmsg : net.SystemMessage SysType.rpc buffer := ⟨not_lt.mp hfits, hsys, htype⟩
      have hrpc : ∀ client, net.processSystemMessage T env client sender t (buffer.getD 2 0)
          (buffer.drop 3) = net.onRpc T env client sender (buffer.drop 3) := by
        intro client
        rw [htype]
        rfl
      by_cases hs : net.serving
      · rw [if_pos hs, if_pos hs]
        rcases net.findClientByAddress sender with _ | entry
        · refine .inr ⟨fun h => absurd h.2 (by decide), ?_⟩
          rw [htype]
          rfl
        · exact .inl ⟨entry.id, hmsg, rfl, congrArg rpcCalls (hrpc entry.id)⟩
      · rw [if_neg hs, if_neg hs]
        exact .inl ⟨0, hmsg, rfl, congrArg rpcCalls (hrpc 0)⟩
    · refine .inr ⟨fun h => htype h.1.2.2, ?_⟩
      by_cases hs : net.serving
      · rw [if_pos hs]
        rcases net.findClientByAddress sender with _ | entry
        · dsimp only
          split_ifs
          · exact rpcCalls_processSystemMessage htype
          · rfl
        · exact rpcCalls_processSystemMessage htype
      · rw [if_neg hs]
        exact rpcCalls_processSystemMessage htype
  · exact .inr ⟨fun h => hsys h.1.2.1, rpcCalls_onUser net env buffer sender⟩

/-- What a packet invokes. -/
theorem rpcCalls_handlePacket (env : PacketEnv) (t : ℕ) (buffer : Bytes) (sender : Address) :
    (∃ client rpc params, net.Invokes env buffer sender client rpc ∧ params.sender = client ∧
      (net.handlePacket T env t buffer sender).rpcCalls =
        net.rpcCalls ++ [.rpc (readBe16 (buffer.drop 3)) params (buffer.drop 5)]) ∨
    (¬∃ client rpc, net.Invokes env buffer sender client rpc) ∧
      (net.handlePacket T env t buffer sender).rpcCalls = net.rpcCalls := by
  rcases rpcCalls_handlePacket_cases (T := T) env t buffer sender with
    ⟨client, hmsg, hcaller, heq⟩ | ⟨hno, heq⟩
  · rw [heq]
    rcases rpcCalls_onRpc (T := T) with ⟨rpc, params, hrpc, hrate, haccepts, hparams, hcalls⟩ | ⟨hno, hcalls⟩
    · refine .inl ⟨client, rpc, params, ⟨hmsg, hcaller, hrpc, hrate, haccepts⟩, hparams, ?_⟩
      rw [hcalls, List.drop_drop]
    · refine .inr ⟨?_, hcalls⟩
      rintro ⟨client', rpc, h⟩
      obtain rfl : client = client' := Option.some.inj (hcaller.symm.trans h.caller)
      exact hno ⟨rpc, h.manager, h.rate, h.accepts⟩
  · refine .inr ⟨?_, heq⟩
    rintro ⟨client, rpc, h⟩
    exact hno ⟨h.message, by rw [h.caller]; rfl⟩

/-! ### The other calls -/

theorem rpcCalls_stop : (net.stop T).rpcCalls = net.rpcCalls := by
  have hsent := rpcCalls_sent net
    (sent_transmit (T := T) net (sysPacket SysType.disconnectNotify []) .reliableOrdered)
  unfold stop
  dsimp only
  split_ifs
  · refine List.foldlRecOn
      (motive := fun n : NetworkManager σ => n.rpcCalls = net.rpcCalls) net.clients _ rfl ?_
    intro n hn c _
    split
    · exact hn
    · split_ifs <;> exact hn
  · exact hsent
  · rfl

theorem rpcCalls_start (config : Config) (udp : ℕ) :
    (net.start T config udp).1.rpcCalls = net.rpcCalls := by
  have hstop : (if net.mode = .none then net else net.stop T).rpcCalls = net.rpcCalls := by
    split_ifs
    · rfl
    · exact rpcCalls_stop
  have hlaunch : ∀ n : NetworkManager σ, (n.launch T).rpcCalls = n.rpcCalls := by
    intro n
    unfold launch
    split_ifs
    · exact rpcCalls_sent n (sent_sendConnectRequest n)
    · exact (rpcCalls_callOnConnected _ _).trans rfl
    · rfl
  unfold start
  dsimp only
  generalize (if net.mode = .none then net else net.stop T) = stopped at hstop
  split_ifs
  · exact (hlaunch _).trans hstop
  · exact hstop

theorem rpcCalls_disconnectClient (client : ClientId) :
    (net.disconnectClient T client).rpcCalls = net.rpcCalls := by
  unfold disconnectClient
  by_cases hs : net.serving
  · rw [if_neg (by simp [hs])]
    rcases net.findClientById client with _ | entry
    · rfl
    · dsimp only
      rw [rpcCalls_dropClient]
      split_ifs
      · rfl
      · split <;> rfl
  · rw [if_pos (by simp [hs])]

theorem rpcCalls_finishPoll (env : PollEnv) : (net.finishPoll T env).rpcCalls = net.rpcCalls := by
  have hsync := rpcCalls_sent net (sent_pollClientTimeSync (T := T) net env)
  unfold finishPoll
  dsimp only
  split_ifs
  all_goals first
    | exact hsync
    | exact (rpcCalls_sent _ (sent_sendConnectRequest _)).trans hsync

/-- No call but a poll invokes a handler. -/
theorem rpcCalls_step {call : Call σ} {net' : NetworkManager σ} (hpoll : ∀ env, call ≠ .poll env)
    (h : net.step T call = some net') : net'.rpcCalls = net.rpcCalls := by
  by_cases hplain : call.Plain
  · exact rpcCalls_quiet net (quiet_step net hplain h)
  · cases call with
    | poll env => exact absurd rfl (hpoll env)
    | network world => cases h; rfl
    | setTransport t =>
      cases h
      unfold setTransport
      split_ifs
      · rfl
      · exact rpcCalls_stop
    | addTransport t => cases h; rfl
    | start config udp => cases h; exact rpcCalls_start config udp
    | stop => cases h; exact rpcCalls_stop
    | addLocalClient =>
      cases h
      unfold addLocalClient
      split_ifs
      · rfl
      · exact (rpcCalls_callOnConnected _ _).trans rfl
    | disconnectClient client => cases h; exact rpcCalls_disconnectClient client
    | disconnect =>
      cases h
      unfold disconnect
      split_ifs
      · exact rpcCalls_stop.trans (rpcCalls_sent net (sent_transmit net _ _))
      · exact rpcCalls_stop
      · exact rpcCalls_disconnectClient _
      · rfl
    | _ => exact absurd trivial hplain

/-! ### Runs -/

/-- The packet as it waits at its transport. -/
def Handled.message (inbox : ℕ → σ → List (Bytes × Address)) (p : Handled σ) : Bytes :=
  ((inbox p.transport p.net.world).head?.map Prod.fst).getD []

/-- The handlers that a packet invokes. -/
def Handled.invoked (T : ℕ → ITransport σ) (p : Handled σ) : List AppCall :=
  (p.after T).rpcCalls.drop p.net.rpcCalls.length

/-- A call is one of a handler that anyone may call, by a connected client whose packet it is: the
arguments are what follows the RPC id. -/
structure Handled.Authorized (inbox : ℕ → σ → List (Bytes × Address)) (p : Handled σ) (id : UInt16)
    (params : RpcParams) (args : Bytes) : Prop where
  anyone : ∃ rpc ∈ p.net.rpcManager, lookup Prod.fst id rpc.handlers = some (id, .anyone)
  client : ∃ c ∈ p.net.clients, c.address = p.sender ∧ c.approved ∧ c.id ≠ 0 ∧ params.sender = c.id
  args : p.message inbox = sysPacket SysType.rpc (be16 id ++ args)

/-- The packet is longer than the receive buffer, and what is left of it invokes a handler. -/
def Handled.Clipped (inbox : ℕ → σ → List (Bytes × Address)) (p : Handled σ) : Prop :=
  BUF_SIZE < (p.message inbox).length ∧
    ∃ client rpc, p.net.Invokes p.env p.buffer p.sender client rpc

theorem after_rpcCalls (p : Handled σ) :
    (p.after T).rpcCalls = p.net.rpcCalls ++ p.invoked T := by
  have hprefix : ∃ calls, (p.after T).rpcCalls = p.net.rpcCalls ++ calls := by
    rcases rpcCalls_handlePacket (T := T) p.env p.transport p.buffer p.sender with
      ⟨client, rpc, params, -, -, h⟩ | ⟨-, h⟩
    · exact ⟨_, h⟩
    · exact ⟨[], h.trans (List.append_nil _).symm⟩
  obtain ⟨calls, hcalls⟩ := hprefix
  unfold Handled.invoked
  rw [hcalls, List.drop_left]

theorem invokes_taken {p : Handled σ} {client : ClientId} {rpc : RpcManager} :
    (p.before T).Invokes p.env p.buffer p.sender client rpc ↔
      p.net.Invokes p.env p.buffer p.sender client rpc := by
  have hrate : ((p.before T).allowRpc p.env p.sender).2 = (p.net.allowRpc p.env p.sender).2 :=
    allowRpc_world p.env p.sender _
  constructor
  · intro h
    exact ⟨h.message, h.caller, h.manager, hrate.symm.trans h.rate, h.accepts⟩
  · intro h
    exact ⟨h.message, h.caller, h.manager, hrate.trans h.rate, h.accepts⟩

/-- A packet invokes one handler or none. -/
theorem invoked_cases (T : ℕ → ITransport σ) (p : Handled σ) :
    (∃ client rpc params, p.net.Invokes p.env p.buffer p.sender client rpc ∧
      params.sender = client ∧
      p.invoked T = [.rpc (readBe16 (p.buffer.drop 3)) params (p.buffer.drop 5)]) ∨
    (¬∃ client rpc, p.net.Invokes p.env p.buffer p.sender client rpc) ∧ p.invoked T = [] := by
  have hafter := after_rpcCalls (T := T) p
  rcases (p.before T).rpcCalls_handlePacket (T := T) p.env p.transport p.buffer p.sender with
    ⟨client, rpc, params, hinvokes, hparams, hcalls⟩ | ⟨hno, hcalls⟩
  · refine .inl ⟨client, rpc, params, invokes_taken.mp hinvokes, hparams, ?_⟩
    have hcalls' : (p.after T).rpcCalls = p.net.rpcCalls ++ _ := hcalls
    exact List.append_cancel_left (hafter.symm.trans hcalls')
  · refine .inr ⟨?_, ?_⟩
    · rintro ⟨client, rpc, h⟩
      exact hno ⟨client, rpc, invokes_taken.mpr h⟩
    · have hcalls' : (p.after T).rpcCalls = p.net.rpcCalls := hcalls
      exact List.append_right_eq_self.mp (hafter.symm.trans hcalls')

theorem isSystem_eq {buffer : Bytes} {type : UInt8} (hsys : isSystem buffer)
    (htype : buffer.getD 2 0 = type) : buffer = sysPacket type (buffer.drop 3) := by
  unfold isSystem at hsys
  obtain ⟨hlen, hmagic⟩ := Bool.and_eq_true_iff.mp hsys
  rcases buffer with _ | ⟨a, _ | ⟨b, _ | ⟨c, rest⟩⟩⟩
  · simp at hlen
  · simp at hlen
  · simp at hlen
  · have hab : [a, b] = sysMagic := by simpa using hmagic
    obtain rfl : c = type := htype
    show [a, b] ++ c :: rest = _
    rw [hab]
    rfl

/-- What a packet invokes at a server is authorized, unless the packet was clipped. -/
theorem authorized_of_invoked {inbox : ℕ → σ → List (Bytes × Address)}
    (hT : ∀ t, Inbox (T t) (inbox t)) {p : Handled σ}
    (hpop : ((T p.transport).popReceive BUF_SIZE p.net.world).2 = some (p.buffer, p.sender))
    (hsound : p.net.session.Sound) (hserving : p.net.serving) (hwhole : ¬p.Clipped inbox)
    {c : AppCall} (hc : c ∈ p.invoked T) :
    ∃ id params args, c = .rpc id params args ∧ p.Authorized inbox id params args := by
  rcases invoked_cases T p with ⟨client, rpc, params, hinvokes, hparams, hadded⟩ | ⟨-, hnil⟩
  · rw [hadded] at hc
    refine ⟨_, params, _, List.mem_singleton.mp hc, ?_⟩
    -- the client is the one found under the sender's address
    obtain ⟨entry, hfind, hid⟩ : ∃ entry, p.net.findClientByAddress p.sender = some entry ∧
        entry.id = client := by
      have hcaller : p.net.caller p.sender = some client := hinvokes.caller
      unfold caller at hcaller
      rw [if_pos hserving] at hcaller
      exact Option.map_eq_some_iff.mp hcaller
    have hmem : entry.toConnection ∈ p.net.session.clients :=
      List.mem_map_of_mem (lookup_mem hfind)
    have hnonzero : entry.id ≠ 0 := hsound.nonzero entry.toConnection hmem
    have hwhole' : (p.message inbox).length ≤ BUF_SIZE := by
      by_contra hlong
      exact hwhole ⟨not_le.mp hlong, client, rpc, hinvokes⟩
    -- nothing was cut off
    have hmessage : p.buffer = p.message inbox := by
      unfold Handled.message at hwhole' ⊢
      rcases hinbox : inbox p.transport p.net.world with _ | ⟨⟨msg, sender⟩, rest⟩
      · rw [(hT p.transport).empty hinbox] at hpop
        cases hpop
      · rw [hinbox] at hwhole'
        rw [(hT p.transport).popped hinbox] at hpop
        have hbuffer : msg.take BUF_SIZE = p.buffer := congrArg Prod.fst (Option.some.inj hpop)
        rw [← hbuffer]
        exact List.take_of_length_le hwhole'
    refine ⟨?_, ?_, ?_⟩
    · obtain ⟨⟨id, authority⟩, hhandler, honly⟩ := hinvokes.accepts.handler
      refine ⟨rpc, hinvokes.manager, ?_⟩
      have hkey : id = readBe16 (p.buffer.drop 3) := lookup_key hhandler
      cases authority with
      | anyone => exact hhandler.trans (by rw [hkey])
      | serverOnly => exact absurd (hid.trans (honly rfl)) hnonzero
    · exact ⟨entry, lookup_mem hfind, lookup_key hfind, hsound.approved _ hmem, hnonzero,
        hparams.trans hid.symm⟩
    · have hargs := be16_readBe16 hinvokes.accepts.length
      rw [List.drop_drop] at hargs
      rw [hargs, ← hmessage]
      exact isSystem_eq hinvokes.message.2.1 hinvokes.message.2.2
  · rw [hnil] at hc
    cases hc

end

/-- In every run without clipped packets, handlers are invoked by packets only, and at a server each
only by a connected client, under its id, with the arguments it sent, and none for the server only. -/
theorem rpcAuthority (T : ℕ → ITransport σ) (inbox : ℕ → σ → List (Bytes × Address))
    (hT : ∀ t, Inbox (T t) (inbox t)) (net net' : NetworkManager σ) (run : List (Call σ))
    (hmode : net.mode = .none) (hclients : net.clients = [])
    (h : Run.exec (step T) net run = some net') (hfits : Run.Admits (step T) Fits net run)
    (hwhole : ∀ p ∈ net.history T run, ¬p.Clipped inbox) :
    net'.rpcCalls = net.rpcCalls ++ (net.history T run).flatMap (Handled.invoked T) ∧
    ∀ p ∈ net.history T run, p.net.serving → ∀ c ∈ p.invoked T,
      ∃ id params args, c = .rpc id params args ∧ p.Authorized inbox id params args := by
  obtain ⟨hsound, -, -⟩ := clientTable_run hmode hclients h hfits
  refine ⟨?_, fun p hp hserving c hc => ?_⟩
  · exact history_accumulates (fun _ _ => rfl) after_rpcCalls
      (fun net call net' hpoll hstep => rpcCalls_step hpoll hstep)
      (fun net env => rpcCalls_finishPoll env) h
  · exact authorized_of_invoked hT (history_popped hp) (hsound p hp) hserving (hwhole p hp) hc

/-- A server starts with a handler for id 7, a client connects and calls it. -/
def callRun : List (Call LoopbackHub) :=
  [.start { mode := .server, bindAddress := LoopbackHub.serverAddr } 0,
    .setRpcManager (some { hasNet := true, handlers := [(7, .anyone)] }),
    .network (LoopbackHub.arrived
      [sysPacket SysType.connectRequest [], sysPacket SysType.rpc (be16 7 ++ [1, 2])]),
    pollCall 2]

theorem rpcAuthority_callRun : ∃ net',
    Run.exec (step loopback) tokenServer callRun = some net' ∧
    net'.rpcCalls = [.rpc 7 { sender := 1 } [1, 2]] ∧
    net'.rpcCalls =
      (tokenServer.history loopback callRun).flatMap (Handled.invoked loopback) ∧
    ∀ p ∈ tokenServer.history loopback callRun, p.net.serving → ∀ c ∈ p.invoked loopback,
      ∃ id params args, c = .rpc id params args ∧
        p.Authorized LoopbackTransport.inbox id params args := by
  have hexec : (Run.exec (step loopback) tokenServer callRun).map (fun net => net.rpcCalls) =
      some [.rpc 7 { sender := 1 } [1, 2]] := by
    decide +kernel
  obtain ⟨net', h, hcalls⟩ := Option.map_eq_some_iff.mp hexec
  have hfits : Run.Admits (step loopback) Fits tokenServer callRun := by decide +kernel
  have hshort : ∀ p ∈ tokenServer.history loopback callRun,
      ¬BUF_SIZE < (p.message LoopbackTransport.inbox).length := by
    decide +kernel
  obtain ⟨hall, hauthorized⟩ := rpcAuthority loopback LoopbackTransport.inbox
    LoopbackTransport.inbox_popped tokenServer net' callRun rfl rfl h hfits
    fun p hp hclipped => hshort p hp hclipped.1
  have hnone : tokenServer.rpcCalls = [] := rfl
  rw [hnone, List.nil_append] at hall
  exact ⟨net', h, hcalls, hall, hauthorized⟩

/-- A call of id 7 with 5000 bytes of arguments. -/
def longCall : Bytes := sysPacket SysType.rpc (be16 7 ++ List.replicate 5000 0)

/-- A server with a handler for id 7 and the long call of its client in the queue. -/
def calledServer : NetworkManager LoopbackHub :=
  { served [longCall] with rpcManager := some { hasNet := true, handlers := [(7, .anyone)] } }

/-- The long call as the server handles it. -/
def longCallHandled : Handled LoopbackHub :=
  ⟨calledServer.pollTransports loopback, packetEnv, 0, longCall.take BUF_SIZE,
    LoopbackHub.clientAddr⟩

theorem longCall_clipped :
    longCall.take BUF_SIZE = [0xCA, 0xFE, 0x22, 0, 7] ++ List.replicate 4091 0 := by
  have heq : longCall = [0xCA, 0xFE, 0x22, 0, 7] ++ List.replicate 5000 0 := by
    unfold longCall sysPacket
    rw [show be16 7 = [0, 7] by decide]
    rfl
  have hsize : BUF_SIZE = [0xCA, 0xFE, 0x22, 0, (7 : UInt8)].length + 4091 := by decide
  rw [heq, hsize, List.take_length_add_append, List.take_replicate]
  rfl

theorem longCall_invokes : ∃ client rpc, longCallHandled.net.Invokes packetEnv
    longCallHandled.buffer LoopbackHub.clientAddr client rpc := by
  have hbuffer : longCallHandled.buffer = [0xCA, 0xFE, 0x22, 0, 7] ++ List.replicate 4091 0 :=
    longCall_clipped
  have hdata : longCallHandled.buffer.drop 3 = [0, 7] ++ List.replicate 4091 0 := by
    rw [hbuffer]
    rfl
  have hid : readBe16 (longCallHandled.buffer.drop 3) = 7 := by
    rw [hdata]
    show ofBe16 0 7 = 7
    decide
  refine ⟨1, { hasNet := true, handlers := [(7, .anyone)] }, ⟨?_, ?_, ?_⟩, ?_, rfl, ?_, ?_⟩
  · rw [hbuffer, List.length_append, List.length_replicate]
    decide
  · unfold isSystem
    rw [hbuffer, List.length_append, List.length_replicate]
    rfl
  · rw [hbuffer]
    rfl
  · decide +kernel
  · decide +kernel
  · refine ⟨?_, fun h => absurd h (lt_irrefl 0), ?_, fun b hb => by cases hb⟩
    · rw [hdata, List.length_append, List.length_replicate]
      decide
    · rw [hid]
      exact ⟨(7, .anyone), by simp [lookup_cons], fun h => by cases h⟩

/-- The server handles the long call of its client, and the handler is given the first 4091 bytes of
the 5000 that the client sent. -/
theorem rpcAuthority_clipped :
    longCallHandled ∈ calledServer.history loopback [pollCall 1] ∧ longCallHandled.net.serving ∧
    longCallHandled.message LoopbackTransport.inbox =
      sysPacket SysType.rpc (be16 7 ++ List.replicate 5000 0) ∧
    ∃ params, .rpc 7 params (List.replicate 4091 0) ∈ longCallHandled.invoked loopback ∧
      ¬longCallHandled.Authorized LoopbackTransport.inbox 7 params (List.replicate 4091 0) := by
  refine ⟨?_, rfl, rfl, ?_⟩
  · exact List.mem_append_left _ (List.mem_append_left _ List.mem_cons_self)
  · have hdata : longCallHandled.buffer.drop 5 = List.replicate 4091 0 := by
      show (longCall.take BUF_SIZE).drop 5 = _
      rw [longCall_clipped]
      rfl
    have hid : readBe16 (longCallHandled.buffer.drop 3) = 7 := by
      show readBe16 ((longCall.take BUF_SIZE).drop 3) = _
      rw [longCall_clipped]
      show ofBe16 0 7 = 7
      decide
    rcases invoked_cases loopback longCallHandled with ⟨_, _, params, -, -, hadded⟩ | ⟨hno, -⟩
    · refine ⟨params, ?_, fun h => ?_⟩
      · rw [hadded, hid, hdata]
        exact List.mem_singleton_self _
      · have hlen := congrArg List.length h.args
        change (sysPacket SysType.rpc (be16 7 ++ List.replicate 5000 0)).length = _ at hlen
        simp only [sysPacket, List.length_append, List.length_cons, List.length_replicate] at hlen
        omega
    · exact absurd longCall_invokes hno

end NetworkManager

end CampelloNet
