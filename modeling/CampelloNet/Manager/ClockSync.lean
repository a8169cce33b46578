import CampelloNet.Manager.Signals
import CampelloNet.NetworkTime.OffsetError

/-!
# Synchronised clocks

The exchange of timestamps between a client and the servers it talks to, over a network that loses,
doubles and delays the datagrams as it likes. A response that the client handles answers a request that the
client has sent, so that its four timestamps were taken in that order, and the error of the client's
network time is at most half of the longest round trip (`clocks_synchronised`).
-/

namespace CampelloNet

open Lib Transport
open List hiding lookup

open NetworkManager

/-- The call in the middle of a run takes place. -/
theorem Lib.Run.exec_mid {σ ℓ : Type*} {step : σ → ℓ → Option σ} {s t u : σ} {pre post : List ℓ} {l : ℓ}
    (h : Run.exec step s (pre ++ l :: post) = some t) (hu : Run.exec step s pre = some u) :
    ∃ v, step u l = some v ∧ Run.exec step v post = some t := by
  rw [Run.exec_append, hu] at h
  exact Option.bind_eq_some_iff.mp h

theorem NetworkTime.recordAll_append (time : NetworkTime) (samples more : List NetworkTime.Sample) :
    time.recordAll (samples ++ more) = (time.recordAll samples).recordAll more := foldl_append

namespace NetworkManager

variable {σ : Type} {T : ℕ → ITransport σ} {net : NetworkManager σ}

/-! ### What a manager knows of the time -/

@[simp] theorem netTime_callOnConnected (client : ClientId) :
    (net.callOnConnected client).netTime = net.netTime := by
  unfold callOnConnected
  split_ifs <;> rfl

@[simp] theorem netTime_callOnDisconnected (client : ClientId) :
    (net.callOnDisconnected client).netTime = net.netTime := by
  unfold callOnDisconnected
  split_ifs <;> rfl

@[simp] theorem netTime_flushToCallbacks (client : ClientId) (data : Bytes) :
    (net.flushToCallbacks client data).netTime = net.netTime := by
  unfold flushToCallbacks
  split_ifs <;> rfl

@[simp] theorem netTime_tellReplication (f : NetworkReplicationManager → NetworkReplicationManager) :
    (net.tellReplication f).netTime = net.netTime := rfl

@[simp] theorem netTime_disconnectTransport : (net.disconnectTransport T).netTime = net.netTime := by
  unfold disconnectTransport
  split <;> rfl

@[simp] theorem netTime_dropClient (id : ClientId) : (net.dropClient id).netTime = net.netTime :=
  netTime_callOnDisconnected id

@[simp] theorem netTime_tellEntities (f : NetworkEntityManager → NetworkEntityManager × List AppCall) :
    (net.tellEntities f).netTime = net.netTime := by
  unfold tellEntities
  split <;> rfl

@[simp] theorem netTime_transmit (data : Bytes) (r : PacketReliability) :
    (net.transmit T data r).1.netTime = net.netTime := by
  unfold transmit
  split <;> rfl

@[simp] theorem netTime_sendConnectRequest : (net.sendConnectRequest T).netTime = net.netTime := by
  unfold sendConnectRequest
  split_ifs
  · rfl
  · exact netTime_transmit _ _

@[simp] theorem netTime_sendToClient (client : ClientId) (data : Bytes) (r : PacketReliability) :
    (net.sendToClient T client data r).1.netTime = net.netTime := by
  unfold sendToClient
  split_ifs
  · rfl
  · rfl
  · split
    · rfl
    · split
      · exact netTime_flushToCallbacks _ _
      · dsimp only
        split_ifs <;> rfl

theorem netTime_broadcastLoop (data : Bytes) (r : PacketReliability) (exclude : ClientId)
    (cs : List ClientEntry) : (broadcastLoop T data r exclude cs net).1.netTime = net.netTime := by
  induction cs generalizing net with
  | nil => rfl
  | cons c cs ih =>
    have hone : (broadcastOne T data r exclude c net).1.netTime = net.netTime := by
      unfold broadcastOne
      split_ifs
      · rfl
      · split
        · exact netTime_flushToCallbacks _ _
        · rfl
    exact ih.trans hone

@[simp] theorem netTime_broadcast (data : Bytes) (r : PacketReliability) (exclude : ClientId) :
    (net.broadcast T data r exclude).netTime = net.netTime := by
  unfold broadcast
  dsimp only
  split_ifs
  · rfl
  · exact netTime_broadcastLoop ..
  · exact netTime_broadcastLoop ..

@[simp] theorem netTime_send (data : Bytes) (r : PacketReliability) :
    (net.send T data r).1.netTime = net.netTime := by
  unfold send
  split_ifs
  · exact netTime_transmit _ _
  · rfl
  · exact netTime_flushToCallbacks _ _
  · rfl

@[simp] theorem netTime_disconnectClient (client : ClientId) :
    (net.disconnectClient T client).netTime = net.netTime := by
  unfold disconnectClient
  by_cases hserving : net.serving
  · rw [if_neg (by simp [hserving])]
    rcases net.findClientById client with _ | entry
    · rfl
    · dsimp only
      rw [netTime_dropClient]
      split_ifs
      · rfl
      · split <;> rfl
  · rw [if_pos (by simp [hserving])]

/-- What ends the session forgets the time. -/
theorem netTime_stop : (net.stop T).netTime = {} := by
  unfold stop
  dsimp only

/-! ### Packets -/

/-- The timestamps of a response that arrives now. -/
def timeSample (env : PacketEnv) (data : Bytes) : NetworkTime.Sample where
  t0 := env.format.ofBits (readBe64 data)
  t1 := env.format.ofBits (readBe64 (data.drop 8))
  t2 := env.format.ofBits (readBe64 (data.drop 16))
  t3 := env.now

/-- The packet is a response to a request for the time that the manager looks at. -/
def TakesTime (net : NetworkManager σ) (buffer : Bytes) (sender : Address) : Prop :=
  net.joining ∧ net.SystemMessage SysType.timeSyncResponse buffer ∧ 24 ≤ (buffer.drop 3).length ∧
    (net.serving → (net.findClientByAddress sender).isSome)

instance (net : NetworkManager σ) (buffer : Bytes) (sender : Address) :
    Decidable (net.TakesTime buffer sender) :=
  inferInstanceAs (Decidable (_ ∧ (_ ∧ _ ∧ _) ∧ _ ∧ (_ → _)))

theorem netTime_onConnectRequest (env : PacketEnv) (sender : Address) (t : ℕ) (data : Bytes) :
    (net.onConnectRequest T env sender t data).netTime = net.netTime := by
  have happroval : (net.checkApproval env sender data).1.netTime = net.netTime := by
    obtain ⟨calls, hcalls⟩ := net.checkApproval_called env sender data
    rw [hcalls]
    rfl
  unfold onConnectRequest
  split_ifs
  · rfl
  · split
    · rfl
    · dsimp only
      split_ifs
      · exact happroval
      · exact happroval
      · exact (netTime_callOnConnected _).trans happroval

theorem netTime_onOversized (sender : Address) : (net.onOversized T sender).netTime = net.netTime := by
  unfold onOversized
  split_ifs
  · rfl
  · split
    · rfl
    · split
      · rfl
      · split_ifs
        · rfl
        · exact netTime_dropClient _

theorem netTime_onRpc (env : PacketEnv) (senderId : ClientId) (sender : Address) (data : Bytes) :
    (net.onRpc T env senderId sender data).netTime = net.netTime := by
  have hallow : (net.allowRpc env sender).1.netTime = net.netTime := by
    unfold allowRpc
    split_ifs
    · split <;> rfl
    · rfl
  unfold onRpc
  split
  · rfl
  · dsimp only
    split_ifs
    · exact hallow
    · exact hallow

theorem netTime_onUser (env : PacketEnv) (buffer : Bytes) (sender : Address) :
    (net.onUser env buffer sender).netTime = net.netTime := by
  unfold onUser
  split_ifs
  · split
    · rfl
    · dsimp only
      split_ifs
      · exact netTime_flushToCallbacks _ _
      · rfl
  · exact netTime_flushToCallbacks _ _
  · rfl

theorem netTime_processSystemMessage {env : PacketEnv} {senderId : ClientId} {sender : Address} {t : ℕ}
    {type : UInt8} {data : Bytes} (htype : type ≠ SysType.timeSyncResponse) :
    (net.processSystemMessage T env senderId sender t type data).netTime = net.netTime := by
  apply processSystemMessage_cases (P := fun next => next.netTime = net.netTime)
  case connectRequest => exact fun _ => netTime_onConnectRequest env sender t data
  case connectAccept =>
    intro _
    unfold onConnectAccept
    split_ifs
    · rfl
    · rfl
    · exact netTime_callOnConnected _
  case connectReject =>
    intro _
    unfold onConnectReject
    split_ifs
    · rfl
    · exact netTime_disconnectTransport
  case disconnectNotify =>
    intro _
    unfold onDisconnectNotify
    split_ifs
    · split
      · rfl
      · exact netTime_dropClient _
    · exact (netTime_callOnDisconnected _).trans netTime_disconnectTransport
    · rfl
  case timeSyncRequest =>
    intro _
    unfold onTimeSyncRequest
    split_ifs <;> rfl
  case timeSyncResponse => exact fun h => absurd h htype
  case entitySpawn => exact fun _ => netTime_tellEntities _
  case entityDestroy => exact fun _ => netTime_tellEntities _
  case entitySetOwner => exact fun _ => netTime_tellEntities _
  case entityFullState => exact fun _ => netTime_tellEntities _
  case deltaState =>
    intro _
    unfold onDeltaState
    split <;> rfl
  case snapshotAck =>
    intro _
    unfold onSnapshotAck
    split_ifs <;> rfl
  case rpc => exact fun _ => netTime_onRpc env senderId sender data
  case unknown => rfl

/-- The samples that a packet makes a manager record. -/
def Handled.samples (p : Handled σ) : List NetworkTime.Sample :=
  if p.net.TakesTime p.buffer p.sender then [timeSample p.env (p.buffer.drop 3)] else []

variable (net) in
/-- A packet is a sample, or does nothing to what a manager knows of the time. -/
theorem netTime_handlePacket (env : PacketEnv) (t : ℕ) (buffer : Bytes) (sender : Address) :
    (net.handlePacket T env t buffer sender).netTime =
      if net.TakesTime buffer sender then net.netTime.record (timeSample env (buffer.drop 3))
      else net.netTime := by
  unfold handlePacket
  by_cases htakes : net.TakesTime buffer sender
  · obtain ⟨hjoining, ⟨hfits, hsystem, htype⟩, hlong, hknown⟩ := id htakes
    have hne : buffer ≠ [] := by
      rintro rfl
      cases hsystem
    have hresponse : ∀ client, (net.processSystemMessage T env client sender t (buffer.getD 2 0)
        (buffer.drop 3)).netTime = net.netTime.record (timeSample env (buffer.drop 3)) := by
      intro client
      rw [htype]
      show (net.onTimeSyncResponse env (buffer.drop 3)).netTime = _
      unfold onTimeSyncResponse
      rw [if_neg (by simp [hjoining]), if_neg (not_lt.mpr hlong)]
      rfl
    rw [if_pos htakes, if_neg hne, if_neg (not_lt.mpr hfits), if_pos hsystem]
    unfold onSystem
    dsimp only
    by_cases hserving : net.serving
    · obtain ⟨entry, hentry⟩ := Option.isSome_iff_exists.mp (hknown hserving)
      rw [if_pos hserving, hentry]
      exact hresponse entry.id
    · rw [if_neg hserving]
      exact hresponse 0
  · rw [if_neg htakes]
    split_ifs with hne hfits hsystem
    · rfl
    · exact netTime_onOversized sender
    · have hkept : ∀ client, (net.serving → (net.findClientByAddress sender).isSome) →
          (net.processSystemMessage T env client sender t (buffer.getD 2 0) (buffer.drop 3)).netTime =
            net.netTime := by
        intro client hknown
        by_cases htype : buffer.getD 2 0 = SysType.timeSyncResponse
        · rw [htype]
          show (net.onTimeSyncResponse env (buffer.drop 3)).netTime = _
          unfold onTimeSyncResponse
          split_ifs with hjoining hshort
          · rfl
          · rfl
          · refine absurd ⟨?_, ⟨not_lt.mp hfits, hsystem, htype⟩, not_lt.mp hshort, hknown⟩ htakes
            simpa using hjoining
        · exact netTime_processSystemMessage htype
      unfold onSystem
      dsimp only
      by_cases hserving : net.serving
      · rw [if_pos hserving]
        rcases hfind : net.findClientByAddress sender with _ | entry
        · dsimp only
          split_ifs with htype
          · refine netTime_processSystemMessage ?_
            rw [htype]
            decide
          · rfl
        · exact hkept entry.id fun _ => by rw [hfind]; rfl
      · rw [if_neg hserving]
        exact hkept 0 fun h => absurd h hserving
    · exact netTime_onUser env buffer sender

/-! ### Calls -/

theorem netTime_finishPoll {env : PollEnv} (hhost : net.mode ≠ .host) :
    (net.finishPoll T env).netTime = net.netTime := by
  have hsync : (net.pollClientTimeSync T env).netTime = net.netTime := by
    unfold pollClientTimeSync
    dsimp only
    split_ifs
    · rfl
    · rfl
    · exact netTime_transmit _ _
    · rfl
  unfold finishPoll
  dsimp only
  split_ifs
  · exact netTime_sendConnectRequest.trans hsync
  · exact netTime_sendConnectRequest.trans hsync
  · exact hsync
  · exact hsync

theorem netTime_start (config : Config) (udp : ℕ) :
    (net.start T config udp).1.netTime = net.netTime ∨ (net.start T config udp).1.netTime = {} := by
  have hlaunch : ∀ n : NetworkManager σ, (n.launch T).netTime = n.netTime := by
    intro n
    unfold launch
    split_ifs
    · exact netTime_sendConnectRequest
    · exact netTime_callOnConnected _
    · rfl
  have hstop : (if net.mode = .none then net else net.stop T).netTime = net.netTime ∨
      (if net.mode = .none then net else net.stop T).netTime = {} := by
    split_ifs
    · exact .inl rfl
    · exact .inr netTime_stop
  unfold start
  dsimp only
  generalize (if net.mode = .none then net else net.stop T) = stopped at hstop
  split_ifs
  · exact hstop.imp (hlaunch _).trans (hlaunch _).trans
  · exact hstop

theorem netTime_foldl {α : Type} {f : NetworkManager σ → α → NetworkManager σ}
    (hf : ∀ n x, (f n x).netTime = n.netTime) (l : List α) : (l.foldl f net).netTime = net.netTime := by
  refine foldlRecOn (motive := fun n : NetworkManager σ => n.netTime = net.netTime) l f rfl ?_
  intro n hn x _
  exact (hf n x).trans hn

theorem netTime_sendRpc (client : ClientId) (packet : Bytes) :
    (net.sendRpc T client packet).netTime = net.netTime := by
  unfold sendRpc
  split_ifs
  · rfl
  · exact netTime_sendToClient _ _ _
  · exact netTime_send _ _
  · rfl

theorem netTime_attached {net' : NetworkManager σ} {call : Call σ} (hcall : call.Attached)
    (hstep : net.step T call = some net') : net'.netTime = net.netTime := by
  cases call with
  | spawn prefabId initData handle announce =>
    cases hstep
    unfold spawnEntity
    split
    · rfl
    · dsimp only
      split_ifs
      · exact netTime_broadcast _ _ _
      · rfl
  | destroy id announce =>
    cases hstep
    unfold destroyEntity
    split
    · rfl
    · dsimp only
      split_ifs
      · exact (netTime_broadcast _ _ _).trans (netTime_tellEntities _)
      · exact netTime_tellEntities _
  | sendFullState client =>
    cases hstep
    unfold sendFullStateToClient
    split
    · rfl
    · exact netTime_foldl (fun n msg => netTime_sendToClient _ _ _) _
  | serverTick deltaTime envs =>
    have hstep : net.serverTick T deltaTime envs = some net' := hstep
    unfold serverTick at hstep
    split at hstep
    · cases hstep
      rfl
    · split_ifs at hstep
      · cases hstep
        rfl
      · obtain ⟨out, -, rfl⟩ := Option.map_eq_some_iff.mp hstep
        exact netTime_foldl (fun n msg => netTime_sendToClient _ _ _) _
  | clientTick deltaTime turns =>
    have hstep : net.clientTick T deltaTime turns = some net' := hstep
    unfold clientTick at hstep
    split at hstep
    · cases hstep
      rfl
    · split_ifs at hstep
      · cases hstep
        rfl
      · obtain ⟨out, -, rfl⟩ := Option.map_eq_some_iff.mp hstep
        exact netTime_foldl (fun n msg => netTime_send _ _) _
  | invokeRpc target rpcId args =>
    cases hstep
    unfold invokeRpc
    split
    · rfl
    · rename_i rpc _
      dsimp only
      by_cases hnet : (!rpc.hasNet) = true
      · rw [if_pos hnet]
      · rw [if_neg hnet]
        cases target with
        | client client => exact netTime_sendRpc _ _
        | server => exact netTime_sendRpc _ _
        | broadcast => exact netTime_broadcast _ _ _
        | owner entity =>
          dsimp only
          split_ifs
          · rfl
          · exact netTime_sendRpc _ _
        | notOwner entity =>
          dsimp only
          split_ifs
          · rfl
          · exact netTime_broadcast _ _ _
  | _ => cases hcall

/-- A call that handles no packets keeps the time, or forgets it. -/
theorem netTime_call {net' : NetworkManager σ} {call : Call σ} (hpoll : ∀ env, call ≠ .poll env)
    (hstep : net.step T call = some net') : net'.netTime = net.netTime ∨ net'.netTime = {} := by
  by_cases hattached : call.Attached
  · exact .inl (netTime_attached hattached hstep)
  cases call with
  | poll env => exact absurd rfl (hpoll env)
  | network world => cases hstep; exact .inl rfl
  | setTransport t =>
    cases hstep
    unfold setTransport
    dsimp only
    split_ifs
    · exact .inl rfl
    · exact .inr netTime_stop
  | addTransport t => cases hstep; exact .inl rfl
  | start config udp => cases hstep; exact netTime_start config udp
  | stop => cases hstep; exact .inr netTime_stop
  | addLocalClient =>
    cases hstep
    unfold addLocalClient
    split_ifs
    · exact .inl rfl
    · exact .inl (netTime_callOnConnected _)
  | disconnectClient client => cases hstep; exact .inl (netTime_disconnectClient client)
  | disconnect =>
    cases hstep
    unfold disconnect
    split_ifs
    · exact .inr netTime_stop
    · exact .inr netTime_stop
    · exact .inl (netTime_disconnectClient _)
    · exact .inl rfl
  | sendToClient client data r => cases hstep; exact .inl (netTime_sendToClient client data r)
  | broadcast data r exclude => cases hstep; exact .inl (netTime_broadcast data r exclude)
  | send data r => cases hstep; exact .inl (netTime_send data r)
  | popMessage =>
    cases hstep
    unfold popMessage
    split <;> exact .inl rfl
  | setCallbacks callbacks => cases hstep; exact .inl rfl
  | setConnectionToken token => cases hstep; exact .inl rfl
  | setReplicationManager rep => cases hstep; exact .inl rfl
  | setRpcManager rpc => cases hstep; exact .inl rfl
  | setOwner id owner => cases hstep; exact .inl (netTime_tellEntities _)
  | markDirty id => cases hstep; exact .inl rfl
  | _ => exact absurd trivial hattached

theorem Handled.netTime_after (p : Handled σ) :
    (p.after T).netTime = p.net.netTime.recordAll p.samples := by
  have hpacket : (p.after T).netTime = if p.net.TakesTime p.buffer p.sender then
      p.net.netTime.record (timeSample p.env (p.buffer.drop 3)) else p.net.netTime :=
    netTime_handlePacket (p.before T) p.env p.transport p.buffer p.sender
  rw [hpacket, samples]
  split_ifs <;> rfl

/-- A poll records the samples that its packets are. -/
theorem netTime_poll {net' : NetworkManager σ} {env : PollEnv} (hhost : net.mode ≠ .host)
    (hstep : net.poll T env = some net') :
    net'.netTime = net.netTime.recordAll ((net.handled T (.poll env)).flatMap Handled.samples) := by
  unfold handled
  unfold poll at hstep
  split_ifs at hstep ⊢
  · cases hstep
    rfl
  · obtain ⟨out, hout, rfl⟩ := Option.map_eq_some_iff.mp hstep
    let J (past : List (Handled σ)) (n : NetworkManager σ) : Prop := n.mode = net.mode ∧
      n.netTime = net.netTime.recordAll (past.flatMap Handled.samples)
    have hpacket : ∀ before p, J before p.net → J (before ++ [p]) (p.after T) := by
      rintro before p ⟨hmode, htime⟩
      refine ⟨(mode_handlePacket (p.before T) p.env p.transport p.buffer p.sender).trans hmode, ?_⟩
      rw [p.netTime_after, htime, flatMap_append, NetworkTime.recordAll_append, flatMap_singleton]
    have hpast : ∀ out ∈ pollTransportReceives T net.transports env.packets (net.pollTransports T),
        J ((net.pollTransports T).handledOf T net.transports env.packets) out.1 :=
      (handledOf_past (J := J) (fun past n t hJ => hJ) [] (fun before p _ _ => hpacket before p)
        (show J [] (net.pollTransports T) from ⟨rfl, rfl⟩)).2
    obtain ⟨hmode, htime⟩ := hpast out hout
    rw [netTime_finishPoll (hmode.trans_ne hhost), htime]

/-! ### Messages about the time -/

/-- The bytes ask for the time or tell it. -/
def TimeMessage (data : Bytes) : Prop :=
  isSystem data ∧ (data.getD 2 0 = SysType.timeSyncRequest ∨ data.getD 2 0 = SysType.timeSyncResponse)

instance (net : NetworkManager σ) (buffer : Bytes) : Decidable (net.AnswersTime buffer) :=
  inferInstanceAs (Decidable (_ ∧ (_ ∧ _ ∧ _) ∧ _))

/-- The messages about the time that a call sends: the answers to the requests that it handles, and the
request at the end of a client's poll. -/
def timeMessages (T : ℕ → ITransport σ) (net : NetworkManager σ) (call : Call σ) : List Bytes :=
  ((net.handled T call).flatMap fun p =>
    if p.net.AnswersTime p.buffer then [timeAnswer p.env (p.buffer.drop 3)] else []) ++
  match call with
  | .poll env => if net.mode = .client then [timeRequest env] else []
  | _ => []

theorem not_timeMessage_connecting {data : Bytes} (h : Connecting data) : ¬TimeMessage data := by
  rintro ⟨-, htype⟩
  obtain ⟨type, hle, payload, rfl⟩ := h
  have htype : type = SysType.timeSyncRequest ∨ type = SysType.timeSyncResponse := htype
  rcases htype with rfl | rfl <;> exact absurd hle (by decide)

/-- The attached managers send other messages. -/
theorem not_timeMessage_emitted {call : Call σ} {p : Parcel} (h : p ∈ net.emitted call) :
    ¬TimeMessage p.data := by
  rintro ⟨hsystem, htype⟩
  obtain ⟨type, hcall, hempty | ⟨payload, hdata⟩⟩ := emitted_signal h
  · rw [hempty] at hsystem
    cases hsystem
  · rw [hdata] at htype
    have htype : type = SysType.timeSyncRequest ∨ type = SysType.timeSyncResponse := htype
    rcases htype with rfl | rfl <;> cases call <;> cases hcall

/-! ### Clocks -/

theorem handledFor_env {t : ℕ} {envs : List PacketEnv} {p : Handled σ}
    (hp : p ∈ net.handledFor T t envs) : p.env ∈ envs := by
  induction envs generalizing net with
  | nil => cases hp
  | cons env envs ih =>
    unfold handledFor at hp
    split at hp
    · cases hp
    · rcases mem_cons.mp hp with rfl | hp
      · exact mem_cons_self
      · exact mem_cons_of_mem _ (ih hp)

theorem envs_left {t : ℕ} {envs : List PacketEnv} {out : NetworkManager σ × List PacketEnv}
    (h : net.pollTransportReceivesFor T t envs = some out) : out.2 ⊆ envs := by
  induction envs generalizing net with
  | nil =>
    unfold pollTransportReceivesFor at h
    split at h
    · cases h
      exact fun _ henv => henv
    · cases h
  | cons env envs ih =>
    unfold pollTransportReceivesFor at h
    split at h
    · cases h
      exact fun _ henv => henv
    · exact fun env henv => mem_cons_of_mem _ (ih h henv)

theorem handledOf_env {ts : List ℕ} {envs : List PacketEnv} {p : Handled σ}
    (hp : p ∈ net.handledOf T ts envs) : p.env ∈ envs := by
  induction ts generalizing envs net with
  | nil => cases hp
  | cons t ts ih =>
    unfold handledOf at hp
    rcases mem_append.mp hp with hp | hp
    · exact handledFor_env hp
    · rcases hout : net.pollTransportReceivesFor T t envs with _ | out
      · rw [hout] at hp
        cases hp
      · rw [hout] at hp
        exact envs_left hout (ih hp)

/-- The readings of a manager's clock that a call takes. -/
def readings : Call σ → List ℚ
  | .poll env => env.packets.map PacketEnv.now ++ [env.now]
  | _ => []

/-- All timestamps of a call travel in one format, which is exact on the readings. -/
def Formatted (format : DoubleFormat) (call : Call σ) : Prop :=
  (∀ env, call = .poll env → env.format = format ∧ ∀ p ∈ env.packets, p.format = format) ∧
    ∀ r ∈ readings call, format.ofBits (format.toBits r) = r

end NetworkManager

namespace Managers

variable {σ : Type}

/-- The samples that manager `k` records. -/
def samples (T : ℕ → ITransport σ) (k : ℕ) (s : Managers σ) (run : List (ℕ × Call σ)) :
    List NetworkTime.Sample :=
  Run.gather (step T) (fun s l =>
    if l.1 = k then ((s.manage k).handled T l.2).flatMap Handled.samples else []) s run

/-- The messages about the time that are sent in a run. -/
def asked (T : ℕ → ITransport σ) (s : Managers σ) (run : List (ℕ × Call σ)) : List Bytes :=
  Run.gather (step T) (fun s l => (s.manage l.1).timeMessages T l.2) s run

/-- In a poll manager `k` does not serve, and the others are no clients. -/
def OneClient (k : ℕ) (s : Managers σ) (l : ℕ × Call σ) : Prop :=
  match l.2 with
  | .poll _ => if l.1 = k then ¬(s.manager l.1).serving else (s.manager l.1).mode ≠ .client
  | _ => True

instance (k : ℕ) (s : Managers σ) (l : ℕ × Call σ) : Decidable (s.OneClient k l) := by
  unfold OneClient
  split <;> infer_instance

/-- The readings of a call in the time of the servers, which is `θ` ahead of the clock of manager `k`. -/
def serverTimes (θ : ℚ) (k : ℕ) (l : ℕ × Call σ) : List ℚ :=
  (readings l.2).map fun r => if l.1 = k then r + θ else r

/-- The clocks of the servers agree, that of manager `k` is `θ` behind them, and all go forward. -/
structure Paced (format : DoubleFormat) (θ : ℚ) (k : ℕ) (run : List (ℕ × Call σ)) : Prop where
  formatted : ∀ l ∈ run, Formatted format l.2
  forward : (run.flatMap (serverTimes θ k)).Pairwise (· ≤ ·)

/-- Every message about the time that is on its way is in `P`. -/
def TimesIn (onWay : σ → Set (Address × Bytes)) (P : Set Bytes) (w : σ) : Prop :=
  ∀ x ∈ onWay w, TimeMessage x.2 → x.2 ∈ P

section
variable {T : ℕ → ITransport σ} {addr : ℕ → σ → Address} {onWay : σ → Set (Address × Bytes)}
  (hT : Carries T addr onWay) {P : Set Bytes} {s s' : Managers σ}

theorem timesIn_insert {w w' : σ} {a : Address} {data : Bytes} (hx : TimeMessage data → data ∈ P)
    (hsub : onWay w' ⊆ insert (a, data) (onWay w)) (h : TimesIn onWay P w) : TimesIn onWay P w' := by
  intro x hmem
  rcases hsub hmem with rfl | hmem
  · exact hx
  · exact h x hmem

include hT

theorem timesIn_sendsAt : SendsAt T (fun _ data => TimeMessage data → data ∈ P) (TimesIn onWay P) :=
  ⟨fun t data r w hdata => timesIn_insert hdata (hT.send t data r w),
    fun t address data r w hdata => timesIn_insert hdata (hT.sendTo t address data r w)⟩

theorem timesIn_inert : Inert T (TimesIn onWay P) where
  bind t address w h x hx := h x (hT.bind t address w hx)
  connect t address w h x hx := h x (hT.connect t address w hx)
  disconnect t w h x hx := h x (hT.disconnect t w hx)
  poll t w h x hx := h x (hT.poll t w hx)
  popReceive t n w h x hx := h x (hT.rest t n w hx)

/-- One call: what it sends of the time is in `P`, whenever a packet is handled and at the end. -/
theorem timesIn_step {l : ℕ × Call σ} (hfaithful : s.Faithful onWay l) (hplain : s.Plain l)
    (hstep : s.step T l = some s') (h : TimesIn onWay P s.world)
    (hP : ∀ x ∈ (s.manage l.1).timeMessages T l.2, x ∈ P) :
    (∀ p ∈ (s.manage l.1).handled T l.2, TimesIn onWay P p.net.world ∧
      p.net.mode = (s.manager l.1).mode) ∧ TimesIn onWay P s'.world := by
  obtain ⟨net', hnet, rfl⟩ := Option.map_eq_some_iff.mp hstep
  refine world_call (timesIn_sendsAt hT) (timesIn_inert hT)
    (fun _ _ hown htime => absurd htime (not_timeMessage_connecting hown)) ?_
    (fun world hw x hx => h x (hfaithful world hw hx)) ?_ ?_ ?_ hnet h
  · rintro - - ⟨hsystem, -⟩
    cases hsystem
  · intro p hp t _ htime
    rcases mem_append.mp hp with hp | hp
    · exact absurd htime (not_timeMessage_emitted hp)
    · exact absurd htime.1 (hplain p hp)
  · intro p hp hanswers _
    refine hP _ (mem_append_left _ (mem_flatMap.mpr ⟨p, hp, ?_⟩))
    rw [if_pos hanswers]
    exact mem_singleton_self _
  · rintro env hcall hclient t -
    refine hP _ (mem_append_right _ ?_)
    rw [hcall]
    dsimp only
    rw [if_pos hclient]
    exact mem_singleton_self _

theorem timesIn_run {run : List (ℕ × Call σ)} (hfaithful : Run.Admits (step T) (Faithful onWay) s run)
    (hplain : Run.Admits (step T) Plain s run) (h : Run.exec (step T) s run = some s')
    (hP : ∀ x ∈ s.asked T run, x ∈ P) (hs : TimesIn onWay P s.world) : TimesIn onWay P s'.world := by
  induction run generalizing s with
  | nil =>
    cases h
    exact hs
  | cons l run ih =>
    obtain ⟨mid, hmid, h⟩ := Option.bind_eq_some_iff.mp h
    unfold asked at hP
    rw [Run.gather_cons hmid] at hP
    have hnext := (timesIn_step hT hfaithful.1 hplain.1 hmid hs fun x hx =>
      hP x (mem_append_left _ hx)).2
    exact ih (hfaithful.2 mid hmid) (hplain.2 mid hmid) h (fun x hx => hP x (mem_append_right _ hx)) hnext

/-! ### Where the timestamps come from -/

omit hT in
/-- Of two readings the one that is taken in an earlier call is not later. -/
theorem Paced.le {format : DoubleFormat} {θ : ℚ} {k : ℕ} {pre post : List (ℕ × Call σ)}
    {l l' : ℕ × Call σ} (h : Paced format θ k (pre ++ l' :: post)) (hl : l ∈ pre) {r r' : ℚ}
    (hr : r ∈ serverTimes θ k l) (hr' : r' ∈ serverTimes θ k l') : r ≤ r' := by
  obtain ⟨-, hcalls⟩ := pairwise_flatMap.mp h.forward
  exact (pairwise_append.mp hcalls).2.2 l hl l' mem_cons_self r hr r' hr'

omit hT in
theorem Paced.prefix {format : DoubleFormat} {θ : ℚ} {k : ℕ} {pre post : List (ℕ × Call σ)}
    (h : Paced format θ k (pre ++ post)) : Paced format θ k pre := by
  refine ⟨fun l hl => h.formatted l (mem_append_left _ hl), ?_⟩
  have hforward := h.forward
  rw [flatMap_append] at hforward
  exact (pairwise_append.mp hforward).1

omit hT in
/-- The receive buffer holds all of a message about the time. -/
theorem timeMessages_cases {net : NetworkManager σ} {call : Call σ} {msg : Bytes}
    (h : msg ∈ net.timeMessages T call) : msg.take BUF_SIZE = msg ∧
      ((∃ p ∈ net.handled T call, p.net.AnswersTime p.buffer ∧
        msg = timeAnswer p.env (p.buffer.drop 3)) ∨
      ∃ env, call = .poll env ∧ net.mode = .client ∧ msg = timeRequest env) := by
  have hbuf : BUF_SIZE = 4096 := rfl
  rcases mem_append.mp h with h | h
  · obtain ⟨p, hp, h⟩ := mem_flatMap.mp h
    split_ifs at h with hanswers
    · obtain rfl := mem_singleton.mp h
      refine ⟨take_of_length_le ?_, .inl ⟨p, hp, hanswers, rfl⟩⟩
      simp only [timeAnswer, sysPacket, sysMagic, length_append, length_cons, length_nil, length_take,
        length_be64]
      omega
    · cases h
  · cases call with
    | poll env =>
      dsimp only at h
      split_ifs at h with hclient
      · obtain rfl := mem_singleton.mp h
        exact ⟨rfl, .inr ⟨env, rfl, hclient, rfl⟩⟩
      · cases h
    | _ => cases h

/-- What a manager handles of the time was sent before, or by the same call. -/
theorem handled_time {run : List (ℕ × Call σ)} {l : ℕ × Call σ} {next : Managers σ}
    (hway : onWay s.world = ∅) (hfaithful : Run.Admits (step T) (Faithful onWay) s run)
    (hplain : Run.Admits (step T) Plain s run) (h : Run.exec (step T) s run = some s')
    (hl : s'.Faithful onWay l) (hl' : s'.Plain l) (hnext : s'.step T l = some next) {p : Handled σ}
    (hp : p ∈ (s'.manage l.1).handled T l.2) (htime : TimeMessage p.buffer) :
    p.net.mode = (s'.manager l.1).mode ∧
      (p.buffer ∈ s.asked T run ∨ p.buffer ∈ (s'.manage l.1).timeMessages T l.2) := by
  have hbefore : TimesIn onWay {x | x ∈ s.asked T run ∨ x ∈ (s'.manage l.1).timeMessages T l.2}
      s'.world := by
    refine timesIn_run hT hfaithful hplain h (fun x hx => .inl hx) fun x hx => ?_
    rw [hway] at hx
    cases hx
  obtain ⟨hworld, hmode⟩ := (timesIn_step hT hl hl' hnext hbefore fun x hx => .inr hx).1 p hp
  obtain ⟨msg, hmsg, hbuffer⟩ := hT.received (handled_popped hp)
  have hmem : msg ∈ s.asked T run ∨ msg ∈ (s'.manage l.1).timeMessages T l.2 := by
    rw [hbuffer] at htime
    refine hworld _ hmsg ⟨isSystem_of_take htime.1, ?_⟩
    rw [getD_eq_getElem?_getD, ← getElem?_take_of_lt (show 2 < BUF_SIZE by decide),
      ← getD_eq_getElem?_getD]
    exact htime.2
  have hwhole : msg.take BUF_SIZE = msg := by
    rcases hmem with hmem | hmem
    · obtain ⟨pre, m, post, u, -, -, hmem⟩ := Run.mem_gather.mp hmem
      exact (timeMessages_cases hmem).1
    · exact (timeMessages_cases hmem).1
  rw [hbuffer, hwhole]
  exact ⟨hmode, hmem⟩

/-- The response that the client handles is the answer to a request that a server has handled
before. -/
theorem answer_origin {run : List (ℕ × Call σ)} {l : ℕ × Call σ} {next : Managers σ}
    (hway : onWay s.world = ∅) (hfaithful : Run.Admits (step T) (Faithful onWay) s run)
    (hplain : Run.Admits (step T) Plain s run) (h : Run.exec (step T) s run = some s')
    (hl : s'.Faithful onWay l) (hl' : s'.Plain l) (hserves : ¬(s'.manager l.1).serving)
    (hnext : s'.step T l = some next) {p : Handled σ} (hp : p ∈ (s'.manage l.1).handled T l.2)
    (htakes : p.net.TakesTime p.buffer p.sender) :
    ∃ pre m post u q, run = pre ++ m :: post ∧ Run.exec (step T) s pre = some u ∧
      q ∈ (u.manage m.1).handled T m.2 ∧ q.net.AnswersTime q.buffer ∧
      p.buffer = timeAnswer q.env (q.buffer.drop 3) := by
  obtain ⟨-, ⟨-, hsystem, htype⟩, -⟩ := htakes
  obtain ⟨-, hmsg⟩ := handled_time hT hway hfaithful hplain h hl hl' hnext hp ⟨hsystem, .inr htype⟩
  have hrequest : ∀ env, p.buffer ≠ timeRequest env := by
    intro env heq
    rw [heq] at htype
    cases htype
  rcases hmsg with hmsg | hmsg
  · obtain ⟨pre, m, post, u, hrun, hu, hmsg⟩ := Run.mem_gather.mp hmsg
    obtain ⟨-, ⟨q, hq, hanswers, hbuffer⟩ | ⟨env, -, -, hbuffer⟩⟩ := timeMessages_cases hmsg
    · exact ⟨pre, m, post, u, q, hrun, hu, hq, hanswers, hbuffer⟩
    · exact absurd hbuffer (hrequest env)
  · obtain ⟨-, ⟨q, hq, hanswers, -⟩ | ⟨env, -, -, hbuffer⟩⟩ := timeMessages_cases hmsg
    · obtain ⟨hserving, hmessage, -⟩ := hanswers
      obtain ⟨hmode, -⟩ := handled_time hT hway hfaithful hplain h hl hl' hnext hq
        ⟨hmessage.2.1, .inl hmessage.2.2⟩
      refine absurd ?_ hserves
      unfold serving at hserving ⊢
      rwa [hmode] at hserving
    · exact absurd hbuffer (hrequest env)

/-- The request that a server handles was sent by the client before. -/
theorem request_origin {k : ℕ} {run : List (ℕ × Call σ)} {l : ℕ × Call σ} {next : Managers σ}
    (hway : onWay s.world = ∅) (hfaithful : Run.Admits (step T) (Faithful onWay) s run)
    (hplain : Run.Admits (step T) Plain s run) (hone : Run.Admits (step T) (OneClient k) s run)
    (h : Run.exec (step T) s run = some s') (hl : s'.Faithful onWay l) (hl' : s'.Plain l)
    (hnext : s'.step T l = some next) {q : Handled σ} (hq : q ∈ (s'.manage l.1).handled T l.2)
    (hanswers : q.net.AnswersTime q.buffer) :
    (s'.manager l.1).serving ∧ ∃ pre post env, run = pre ++ (k, .poll env) :: post ∧
      q.buffer = timeRequest env := by
  obtain ⟨hserving, ⟨-, hsystem, htype⟩, -⟩ := hanswers
  obtain ⟨hmode, hmsg⟩ :=
    handled_time hT hway hfaithful hplain h hl hl' hnext hq ⟨hsystem, .inl htype⟩
  have hserves : (s'.manager l.1).serving := by
    unfold serving at hserving ⊢
    rwa [hmode] at hserving
  have hanswer : ∀ env data, q.buffer ≠ timeAnswer env data := by
    intro env data heq
    rw [heq] at htype
    cases htype
  refine ⟨hserves, ?_⟩
  rcases hmsg with hmsg | hmsg
  · obtain ⟨pre, ⟨i, call⟩, post, u, hrun, hu, hmsg⟩ := Run.mem_gather.mp hmsg
    obtain ⟨-, ⟨p, -, -, hbuffer⟩ | ⟨env, rfl, hclient, hbuffer⟩⟩ := timeMessages_cases hmsg
    · exact absurd hbuffer (hanswer _ _)
    · rw [hrun] at hone
      have hclient : (u.manager i).mode = .client := hclient
      have hmid : if i = k then ¬(u.manager i).serving else (u.manager i).mode ≠ .client := hone.mid hu
      obtain rfl : i = k := by
        by_contra hne
        rw [if_neg hne] at hmid
        exact hmid hclient
      exact ⟨pre, post, env, hrun, hbuffer⟩
  · obtain ⟨-, ⟨p, -, -, hbuffer⟩ | ⟨env, -, hclient, -⟩⟩ := timeMessages_cases hmsg
    · exact absurd hbuffer (hanswer _ _)
    · have hclient : (s'.manager l.1).mode = .client := hclient
      unfold serving at hserves
      rw [hclient] at hserves
      cases hserves

omit hT in
/-- The four timestamps that an exchange leaves. -/
theorem timeSample_answer {format : DoubleFormat} {env : PollEnv} {answer arrival : PacketEnv}
    (henv : env.format = format) (hanswer : answer.format = format) (harrival : arrival.format = format)
    (ht0 : format.ofBits (format.toBits env.now) = env.now)
    (ht1 : format.ofBits (format.toBits answer.now) = answer.now) :
    timeSample arrival ((timeAnswer answer ((timeRequest env).drop 3)).drop 3) =
      ⟨env.now, answer.now, answer.now, arrival.now⟩ := by
  have hrequest : ((timeRequest env).drop 3).take 8 = be64 (format.toBits env.now) := by
    rw [← henv]
    rfl
  have hdata : (timeAnswer answer ((timeRequest env).drop 3)).drop 3 =
      be64 (format.toBits env.now) ++ (be64 (format.toBits answer.now) ++
        be64 (format.toBits answer.now)) := by
    rw [← append_assoc, ← hrequest, ← hanswer]
    rfl
  have hdrop : ∀ (x : UInt64) (rest : Bytes), (be64 x ++ rest).drop 8 = rest := fun _ _ => rfl
  have hdrop2 : ∀ (x y : UInt64) (rest : Bytes), (be64 x ++ (be64 y ++ rest)).drop 16 = rest :=
    fun _ _ _ => rfl
  have hlast : readBe64 (be64 (format.toBits answer.now)) = format.toBits answer.now := by
    rw [← append_nil (be64 _), readBe64_be64]
  unfold timeSample
  rw [harrival, hdata, readBe64_be64, hdrop, hdrop2, readBe64_be64, hlast, ht0, ht1]

/-- In the run manager `k` sends a request in a poll, another manager answers it in a later one, and
manager `k` takes the sample from the answer in a third one. -/
def Exchange (k : ℕ) (run : List (ℕ × Call σ)) (x : NetworkTime.Sample) : Prop :=
  ∃ pre mid rest post j request answering arriving, ∃ answer ∈ answering.packets,
    ∃ arrival ∈ arriving.packets,
      run = pre ++ (k, .poll request) :: mid ++ (j, .poll answering) :: rest ++ (k, .poll arriving) :: post ∧
      j ≠ k ∧ x = timeSample arrival ((timeAnswer answer ((timeRequest request).drop 3)).drop 3)

omit hT in
theorem handled_poll {net : NetworkManager σ} {call : Call σ} {p : Handled σ}
    (hp : p ∈ net.handled T call) : ∃ env, call = .poll env ∧ p.env ∈ env.packets := by
  cases call with
  | poll env =>
    refine ⟨env, rfl, ?_⟩
    unfold handled at hp
    split_ifs at hp
    · cases hp
    · exact handledOf_env hp
  | _ => cases hp

/-- Every sample that the client records is of an exchange. -/
theorem exchange_of_sample {k : ℕ} {run : List (ℕ × Call σ)} (hway : onWay s.world = ∅)
    (hfaithful : Run.Admits (step T) (Faithful onWay) s run) (hplain : Run.Admits (step T) Plain s run)
    (hone : Run.Admits (step T) (OneClient k) s run) (h : Run.exec (step T) s run = some s')
    {x : NetworkTime.Sample} (hx : x ∈ s.samples T k run) : Exchange k run x := by
  obtain ⟨pre, ⟨i, call⟩, post, mid, rfl, hmid, hx⟩ := Run.mem_gather.mp hx
  split_ifs at hx with hi
  · obtain rfl : i = k := hi
    obtain ⟨p, hp, hx⟩ := mem_flatMap.mp hx
    unfold Handled.samples at hx
    split_ifs at hx with htakes
    · obtain rfl := mem_singleton.mp hx
      obtain ⟨arriving, rfl, harrival⟩ := handled_poll hp
      obtain ⟨next, hnext, -⟩ := Run.exec_mid h hmid
      have hserves : ¬(mid.manager i).serving := by
        have hmode : if i = i then ¬(mid.manager i).serving else (mid.manager i).mode ≠ .client :=
          hone.mid hmid
        rwa [if_pos rfl] at hmode
      obtain ⟨pre₁, ⟨j, call⟩, rest, u, q, rfl, hu, hq, hanswers, hbuffer⟩ :=
        answer_origin hT hway hfaithful.append.1 hplain.append.1 hmid (hfaithful.mid hmid)
          (hplain.mid hmid) hserves hnext hp htakes
      obtain ⟨answering, rfl, hanswer⟩ := handled_poll hq
      obtain ⟨next₁, hnext₁, -⟩ := Run.exec_mid hmid hu
      have hfaithful₁ := hfaithful.append.1
      have hplain₁ := hplain.append.1
      obtain ⟨hserves₁, pre₂, mid₂, request, rfl, hbuffer₁⟩ := request_origin hT hway hfaithful₁.append.1
        hplain₁.append.1 hone.append.1.append.1 hu (hfaithful₁.mid hu) (hplain₁.mid hu) hnext₁ hq hanswers
      refine ⟨pre₂, mid₂, rest, post, j, request, answering, arriving, q.env, hanswer, p.env, harrival,
        rfl, ?_, ?_⟩
      · rintro rfl
        have hmode : if j = j then ¬(u.manager j).serving else (u.manager j).mode ≠ .client :=
          hone.append.1.mid hu
        rw [if_pos rfl] at hmode
        exact hmode hserves₁
      · rw [hbuffer, hbuffer₁]
    · cases hx
  · cases hx

omit hT in
/-- The timestamps of an exchange are in the order of the calls that they were taken in. -/
theorem Exchange.timed {format : DoubleFormat} {θ : ℚ} {k : ℕ} {run : List (ℕ × Call σ)}
    {x : NetworkTime.Sample} (hx : Exchange k run x) (hpaced : Paced format θ k run) : x.Timed θ := by
  obtain ⟨pre, mid, rest, post, j, request, answering, arriving, answer, hanswer, arrival, harrival, rfl,
    hother, rfl⟩ := hx
  have hformat : ∀ i env, (i, .poll env) ∈ pre ++ (k, .poll request) :: mid ++
      (j, .poll answering) :: rest ++ (k, .poll arriving) :: post →
      env.format = format ∧ ∀ p ∈ env.packets, p.format = format := fun i env hl =>
    (hpaced.formatted _ hl).1 env rfl
  have hexact : ∀ i env, (i, .poll env) ∈ pre ++ (k, .poll request) :: mid ++
      (j, .poll answering) :: rest ++ (k, .poll arriving) :: post →
      ∀ r ∈ env.packets.map PacketEnv.now ++ [env.now], format.ofBits (format.toBits r) = r :=
    fun i env hl => (hpaced.formatted _ hl).2
  have hsent : request.now + θ ∈ serverTimes θ k ((k, .poll request) : ℕ × Call σ) :=
    mem_map.mpr ⟨request.now, mem_append_right _ (mem_singleton_self _), if_pos rfl⟩
  have hanswered : answer.now ∈ serverTimes θ k ((j, .poll answering) : ℕ × Call σ) :=
    mem_map.mpr ⟨answer.now, mem_append_left _ (mem_map_of_mem hanswer), if_neg hother⟩
  have harrived : arrival.now + θ ∈ serverTimes θ k ((k, .poll arriving) : ℕ × Call σ) :=
    mem_map.mpr ⟨arrival.now, mem_append_left _ (mem_map_of_mem harrival), if_pos rfl⟩
  have hrequest : request.now + θ ≤ answer.now := hpaced.prefix.le (by simp) hsent hanswered
  have hresponse : answer.now ≤ arrival.now + θ := hpaced.le (by simp) hanswered harrived
  rw [timeSample_answer (hformat k request (by simp)).1 ((hformat j answering (by simp)).2 _ hanswer)
    ((hformat k arriving (by simp)).2 _ harrival)
    (hexact k request (by simp) _ (mem_append_right _ (mem_singleton_self _)))
    (hexact j answering (by simp) _ (mem_append_left _ (mem_map_of_mem hanswer)))]
  constructor
  · dsimp only
    linarith
  · dsimp only
    linarith

end

/-! ### The time of a client -/

section
variable {T : ℕ → ITransport σ} {s s' : Managers σ} {k : ℕ}

/-- One call records the samples of its packets, or makes the client forget the time. -/
theorem netTime_step {l : ℕ × Call σ} (hone : s.OneClient k l) (hstep : s.step T l = some s') :
    (s'.manager k).netTime = (s.manager k).netTime.recordAll (if l.1 = k then
        ((s.manage k).handled T l.2).flatMap Handled.samples else []) ∨ (s'.manager k).netTime = {} := by
  obtain ⟨i, call⟩ := l
  obtain ⟨net', hnet, rfl⟩ := Option.map_eq_some_iff.mp hstep
  by_cases hi : i = k
  · subst hi
    have hself : Function.update s.manager i net' i = net' := Function.update_self ..
    dsimp only
    rw [hself, if_pos rfl]
    by_cases hpoll : ∃ env, call = .poll env
    · obtain ⟨env, rfl⟩ := hpoll
      have hserves : ¬(s.manager i).serving := by
        have hmode : if i = i then ¬(s.manager i).serving else (s.manager i).mode ≠ .client := hone
        rwa [if_pos rfl] at hmode
      have hhost : (s.manage i).mode ≠ .host := by
        intro hhost
        have hhost : (s.manager i).mode = .host := hhost
        exact hserves (by simp [serving, hhost])
      exact .inl (netTime_poll hhost hnet)
    · have hnone : (s.manage i).handled T call = [] := by
        cases call with
        | poll env => exact absurd ⟨env, rfl⟩ hpoll
        | _ => rfl
      have hcall : net'.netTime = (s.manage i).netTime ∨ net'.netTime = {} :=
        netTime_call (fun env hcall => hpoll ⟨env, hcall⟩) hnet
      rw [hnone]
      exact hcall
  · have hkept : Function.update s.manager i net' k = s.manager k :=
      Function.update_of_ne (Ne.symm hi) ..
    dsimp only
    rw [hkept, if_neg hi]
    exact .inl rfl

/-- The time of a client is what the samples make of it, or those since it was last forgotten. -/
theorem netTime_run {run : List (ℕ × Call σ)} (hone : Run.Admits (step T) (OneClient k) s run)
    (h : Run.exec (step T) s run = some s') :
    (s'.manager k).netTime = (s.manager k).netTime.recordAll (s.samples T k run) ∨
      ∃ samples, samples <:+ s.samples T k run ∧
        (s'.manager k).netTime = ({} : NetworkTime).recordAll samples := by
  induction run generalizing s with
  | nil =>
    cases h
    exact .inl rfl
  | cons l run ih =>
    obtain ⟨mid, hmid, h⟩ := Option.bind_eq_some_iff.mp h
    unfold samples at ih ⊢
    rw [Run.gather_cons hmid, NetworkTime.recordAll_append]
    rcases ih (hone.2 mid hmid) h with hend | ⟨samples, hsuffix, hend⟩
    · rcases netTime_step hone.1 hmid with hkept | hforgot
      · rw [hkept] at hend
        exact .inl hend
      · rw [hforgot] at hend
        exact .inr ⟨_, suffix_append _ _, hend⟩
    · exact .inr ⟨samples, hsuffix.trans (suffix_append _ _), hend⟩

end

/-- The client's clock is synchronised with that of the servers, whatever the network loses, doubles and
delays: each sample is of an exchange, its timestamps in order, and as soon as there is one the network
time is off by at most half of the longest round trip. -/
theorem clocks_synchronised (T : ℕ → ITransport σ) {addr : ℕ → σ → Address}
    {onWay : σ → Set (Address × Bytes)} (hT : Carries T addr onWay) (format : DoubleFormat) (θ : ℚ) (k : ℕ)
    (s s' : Managers σ) (run : List (ℕ × Call σ)) (hway : onWay s.world = ∅)
    (h : Run.exec (step T) s run = some s') (hfaithful : Run.Admits (step T) (Faithful onWay) s run)
    (hplain : Run.Admits (step T) Plain s run) (hone : Run.Admits (step T) (OneClient k) s run)
    (hpaced : Paced format θ k run) (hfresh : (s.manager k).netTime = {}) :
    (∀ x ∈ s.samples T k run, Exchange k run x ∧ x.Timed θ) ∧
      ∃ samples, samples <:+ s.samples T k run ∧
        (s'.manager k).netTime = ({} : NetworkTime).recordAll samples ∧
        (samples ≠ [] → ∃ longest ∈ samples, (∀ x ∈ samples, x.roundTrip ≤ longest.roundTrip) ∧
          ∀ now, |(s'.manager k).netTime.localToRemote now - (now + θ)| ≤ longest.roundTrip / 2) := by
  have hexchange : ∀ x ∈ s.samples T k run, Exchange k run x := fun x =>
    exchange_of_sample hT hway hfaithful hplain hone h
  have htimed : ∀ x ∈ s.samples T k run, x.Timed θ := fun x hx => (hexchange x hx).timed hpaced
  refine ⟨fun x hx => ⟨hexchange x hx, htimed x hx⟩, ?_⟩
  obtain ⟨samples, hsuffix, htime⟩ : ∃ samples, samples <:+ s.samples T k run ∧
      (s'.manager k).netTime = ({} : NetworkTime).recordAll samples := by
    rcases netTime_run hone h with hall | hsome
    · rw [hfresh] at hall
      exact ⟨_, suffix_rfl, hall⟩
    · exact hsome
  refine ⟨samples, hsuffix, htime, fun hne => ?_⟩
  obtain ⟨shortest, -, longest, hlongest, hall, herror, -⟩ := NetworkTime.offset_error θ {} rfl samples hne
    fun x hx => htimed x (hsuffix.subset hx)
  refine ⟨longest, hlongest, fun x hx => (hall x hx).2, fun now => ?_⟩
  have hoff : (({} : NetworkTime).recordAll samples).localToRemote now - (now + θ) =
      (({} : NetworkTime).recordAll samples).smoothedOffset - θ := by
    unfold NetworkTime.localToRemote
    ring
  rw [htime, hoff]
  exact herror

/-! ### A client 100 seconds behind its server -/

open LoopbackTransport

/-- Whole seconds as they travel. -/
def secondsFormat : DoubleFormat := ⟨fun r => UInt64.ofNat r.num.toNat, fun b => b.toNat⟩

/-- A poll in which nothing takes time. -/
def pollAt (now : ℚ) (packets : ℕ) : Call LoopbackHub :=
  .poll { now := now, format := secondsFormat
          packets := replicate packets { now := now, format := secondsFormat } }

theorem formatted_pollAt {now : ℚ} (h : secondsFormat.ofBits (secondsFormat.toBits now) = now)
    (packets : ℕ) : Formatted secondsFormat (pollAt now packets) := by
  constructor
  · intro env henv
    cases henv
    exact ⟨rfl, fun p hp => by rw [eq_of_mem_replicate hp]⟩
  · intro r hr
    have hnow : r = now := by
      rcases mem_append.mp hr with hr | hr
      · obtain ⟨p, hp, rfl⟩ := mem_map.mp hr
        rw [eq_of_mem_replicate hp]
      · exact mem_singleton.mp hr
    rw [hnow]
    exact h

theorem formatted_start (config : Config) (udp : ℕ) :
    Formatted secondsFormat (.start config udp : Call LoopbackHub) := by
  constructor
  · intro env henv
    cases henv
  · intro r hr
    cases hr

/-- The client asks at 5 by its clock, the server answers at once, and the answer arrives at 7. -/
def asking : List (ℕ × Call LoopbackHub) :=
  [(0, .start serverConfig 0), (1, .start { mode := .client, serverAddress := LoopbackHub.serverAddr } 1),
    (0, pollAt 101 1), (1, pollAt 2 1), (1, pollAt 5 0), (0, pollAt 105 1), (1, pollAt 7 1)]

theorem paced_asking : Paced secondsFormat 100 1 asking where
  formatted := by
    intro l hl
    simp only [asking, mem_cons, not_mem_nil, or_false] at hl
    rcases hl with rfl | rfl | rfl | rfl | rfl | rfl | rfl
    · exact formatted_start _ _
    · exact formatted_start _ _
    all_goals exact formatted_pollAt (by decide +kernel) _
  forward := by decide +kernel

/-- The network time is off by half of the round trip: the answer took all of it. -/
theorem clocks_synchronised_asking : ∃ s', Run.exec (step loopback) fresh asking = some s' ∧
    (s'.manager 1).netTime.smoothedOffset = 99 ∧
    (fresh.samples loopback 1 asking).map (fun x => (x.t0, x.t1, x.t2, x.t3)) = [(5, 105, 105, 7)] ∧
    ((∀ x ∈ fresh.samples loopback 1 asking, Exchange 1 asking x ∧ x.Timed 100) ∧
      ∃ samples, samples <:+ fresh.samples loopback 1 asking ∧
        (s'.manager 1).netTime = ({} : NetworkTime).recordAll samples ∧
        (samples ≠ [] → ∃ longest ∈ samples, (∀ x ∈ samples, x.roundTrip ≤ longest.roundTrip) ∧
          ∀ now, |(s'.manager 1).netTime.localToRemote now - (now + 100)| ≤ longest.roundTrip / 2)) := by
  have hexec : (Run.exec (step loopback) fresh asking).map
      (fun s' => (s'.manager 1).netTime.smoothedOffset) = some 99 := by decide +kernel
  obtain ⟨s', h, hoffset⟩ := Option.map_eq_some_iff.mp hexec
  obtain ⟨hfaithful, hplain⟩ := admits_calls (show ∀ l ∈ asking, ownAccount l.2 by decide) fresh
  have hone : Run.Admits (step loopback) (OneClient 1) fresh asking := by decide +kernel
  exact ⟨s', h, hoffset, by decide +kernel, clocks_synchronised loopback carries secondsFormat 100 1 fresh s'
    asking onWay_start h hfaithful hplain hone paced_asking rfl⟩

end Managers

end CampelloNet
