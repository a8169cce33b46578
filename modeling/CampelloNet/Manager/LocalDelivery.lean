import CampelloNet.Lib.Ledger
import CampelloNet.Manager.ClientTable
import CampelloNet.Manager.Delivery

/-!
# What local clients are handed

A client without a transport is handed what is sent to it as it is: the bytes go to the queue of
`pop_message` and to the data callback, past the loop in which a remote client takes the system
messages out. As long as no system message is addressed to a local client, nothing is handed over but
what an application sends (`local_userData`).
-/

namespace CampelloNet

open Lib Transport
open List hiding lookup

/-- What the data callback is passed. -/
def AppCall.message : AppCall → Option NetworkManager.ReceivedMessage
  | .onData client data => some ⟨client, data⟩
  | _ => none

namespace NetworkManager

variable {σ : Type}

/-! ### Deliveries -/

/-- The messages that `pop_message` has still to return, those of the host's own queue last. -/
def awaiting (net : NetworkManager σ) : List ReceivedMessage :=
  net.messageQueue.drop net.messageReadIdx ++ net.hostLocalRecvQueue

/-- The messages that the data callback was passed. -/
def dataMessages (net : NetworkManager σ) : List ReceivedMessage :=
  net.calls.filterMap AppCall.message

/-- From `net` to `net'` no more than `ms` is delivered. -/
structure Delivers (ms : List ReceivedMessage) (net net' : NetworkManager σ) : Prop where
  awaiting : net'.awaiting <+~ net.awaiting ++ ms
  data : net'.dataMessages <+~ net.dataMessages ++ ms

theorem message_eq_none {c : AppCall} (h : c.kind ≠ .data) : c.message = none := by
  cases c with
  | onData client data => exact absurd rfl h
  | _ => rfl

namespace Delivers

variable {ms ms' : List ReceivedMessage} {net net₁ net₂ : NetworkManager σ}

/-- Only calls that are not of the data callback are made. -/
theorem of_eq (hqueue : net₁.messageQueue = net.messageQueue)
    (hidx : net₁.messageReadIdx = net.messageReadIdx)
    (hhost : net₁.hostLocalRecvQueue = net.hostLocalRecvQueue)
    (hcalls : ∃ calls, net₁.calls = net.calls ++ calls ∧ ∀ c ∈ calls, AppCall.kind c ≠ .data) :
    Delivers [] net net₁ := by
  obtain ⟨calls, heq, hall⟩ := hcalls
  have hnone : calls.filterMap AppCall.message = [] :=
    filterMap_eq_nil_iff.mpr fun c hc => message_eq_none (hall c hc)
  constructor
  · rw [NetworkManager.awaiting, NetworkManager.awaiting, hqueue, hidx, hhost, append_nil]
  · rw [dataMessages, dataMessages, heq, filterMap_append, hnone]

theorem of_silent (hqueue : net₁.messageQueue = net.messageQueue)
    (hidx : net₁.messageReadIdx = net.messageReadIdx)
    (hhost : net₁.hostLocalRecvQueue = net.hostLocalRecvQueue) (hcalls : net₁.calls = net.calls) :
    Delivers [] net net₁ :=
  of_eq hqueue hidx hhost ⟨[], by rw [hcalls, append_nil], fun _ hc => absurd hc not_mem_nil⟩

theorem refl (net : NetworkManager σ) : Delivers [] net net := of_silent rfl rfl rfl rfl

theorem trans (h₁ : Delivers ms net net₁) (h₂ : Delivers ms' net₁ net₂) :
    Delivers (ms ++ ms') net net₂ := by
  constructor
  · rw [← append_assoc]
    exact h₂.awaiting.trans (h₁.awaiting.append (Subperm.refl ms'))
  · rw [← append_assoc]
    exact h₂.data.trans (h₁.data.append (Subperm.refl ms'))

theorem called {calls : List AppCall} (h : ∀ c ∈ calls, c.kind ≠ .data) :
    Delivers [] net (net.called calls) := of_eq rfl rfl rfl ⟨calls, rfl, h⟩

theorem foldl {α : Type*} {f : α → NetworkManager σ → NetworkManager σ} {g : α → List ReceivedMessage}
    {I : NetworkManager σ → Prop} (hI : ∀ a net, I net → I (f a net))
    (hf : ∀ a net, I net → Delivers (g a) net (f a net)) (l : List α) (h : I net) :
    Delivers (l.flatMap g) net (l.foldl (fun net a => f a net) net) := by
  induction l generalizing net with
  | nil => exact refl net
  | cons a l ih => exact (hf a net h).trans (ih (hI a net h))

end Delivers

section
variable {T : ℕ → ITransport σ} (net : NetworkManager σ)

theorem delivers_pushMessage (client : ClientId) (data : Bytes) :
    Delivers [⟨client, data⟩] net ((net.pushMessage client data).flushToCallbacks client data) := by
  have hqueue : ∀ n : NetworkManager σ, n.messageQueue = net.messageQueue ++ [⟨client, data⟩] →
      n.messageReadIdx = net.messageReadIdx → n.hostLocalRecvQueue = net.hostLocalRecvQueue →
      n.awaiting <+~ net.awaiting ++ [⟨client, data⟩] := by
    intro n hq hidx hhost
    have hdrop : n.messageQueue.drop n.messageReadIdx <+
        net.messageQueue.drop net.messageReadIdx ++ [⟨client, data⟩] := by
      rw [hq, hidx, drop_append]
      exact (Sublist.refl _).append (drop_sublist _ _)
    unfold NetworkManager.awaiting
    rw [hhost, append_assoc]
    refine (hdrop.subperm.append (Subperm.refl _)).trans ?_
    rw [append_assoc]
    exact (Perm.append_left _ perm_append_comm).subperm
  unfold flushToCallbacks
  split_ifs
  · refine ⟨hqueue _ rfl rfl rfl, ?_⟩
    show ((net.calls ++ [AppCall.onData client data]).filterMap AppCall.message) <+~ _
    rw [filterMap_append]
    exact Subperm.refl _
  · exact ⟨hqueue _ rfl rfl rfl, (sublist_append_left _ _).subperm⟩

theorem delivers_hostLocal (client : ClientId) (data : Bytes) :
    Delivers [⟨client, data⟩] net (net.pushMessageToHostLocal client data) := by
  refine ⟨?_, (sublist_append_left _ _).subperm⟩
  unfold NetworkManager.awaiting pushMessageToHostLocal
  rw [append_assoc]

end

/-! ### Parcels -/

/-- To whom something is sent: one client, every client but one, or the server. -/
inductive Target
  | client (client : ClientId)
  | others (exclude : ClientId)
  | server

/-- What is passed to one of the functions that send. -/
structure Parcel where
  target : Target
  data : Bytes
  reliability : PacketReliability

def Parcel.post (T : ℕ → ITransport σ) (p : Parcel) (net : NetworkManager σ) : NetworkManager σ :=
  match p.target with
  | .client client => (net.sendToClient T client p.data p.reliability).1
  | .others exclude => net.broadcast T p.data p.reliability exclude
  | .server => (net.send T p.data p.reliability).1

def postAll (T : ℕ → ITransport σ) (parcels : List Parcel) (net : NetworkManager σ) :
    NetworkManager σ :=
  parcels.foldl (fun net p => p.post T net) net

namespace Session

/-- The manager is a host with a client of its own. -/
def hosting (s : Session) : Bool := s.mode = .host && s.localClientId ≠ 0

/-- The client is one that `broadcast` hands its messages to. -/
def handsTo (exclude : ClientId) (s : Session) (c : Connection) : Bool :=
  c.id ≠ exclude && c.approved && c.id ≠ s.localClientId && c.transport.isNone

/-- The local clients that are handed what is sent to the target. -/
def locals (s : Session) : Target → List ClientId
  | .client client =>
    if !s.serving then []
    else if s.mode = .host ∧ client = s.localClientId then [client]
    else if (lookup Connection.id client s.clients).any fun c => c.approved && c.transport.isNone then
      [client]
    else []
  | .others exclude =>
    if !s.serving then []
    else
      (if s.hosting ∧ s.localClientId ≠ exclude then [s.localClientId] else []) ++
        (s.clients.filter (s.handsTo exclude)).map Connection.id
  | .server => if s.hosting then [s.localClientId] else []

/-- What the parcel hands over, to whom. -/
def handed (s : Session) (p : Parcel) : List ReceivedMessage :=
  (s.locals p.target).map fun client => ⟨client, p.data⟩

end Session

section
variable {T : ℕ → ITransport σ} (net : NetworkManager σ)

theorem lookup_session (client : ClientId) : lookup Connection.id client net.session.clients =
    (net.findClientById client).map ClientEntry.toConnection := by
  unfold findClientById lookup session
  rw [find?_map]
  rfl

theorem delivers_sendToClient (client : ClientId) (data : Bytes) (r : PacketReliability) :
    Delivers (net.session.handed ⟨.client client, data, r⟩) net
      (net.sendToClient T client data r).1 := by
  unfold Session.handed Session.locals sendToClient
  dsimp only
  rw [lookup_session]
  change Delivers (List.map _ (if !net.serving then [] else
    if net.mode = .host ∧ client = net.localClientId then [client] else _)) _ _
  split_ifs with hserving hhost hlocal
  · exact .refl net
  · exact delivers_hostLocal net client data
  · rcases hfind : net.findClientById client with _ | entry
    · rw [hfind] at hlocal
      cases hlocal
    · obtain ⟨happroved, htransport⟩ : entry.approved = true ∧ entry.transport = none := by
        simpa [hfind, ClientEntry.toConnection] using hlocal
      rw [Option.filter_some, if_pos happroved]
      dsimp only
      rw [htransport]
      exact delivers_pushMessage net client data
  · rcases hfind : net.findClientById client with _ | entry
    · exact .refl net
    · rw [Option.filter_some]
      split_ifs with happroved
      · rcases htransport : entry.transport with _ | t
        · simp [hfind, ClientEntry.toConnection, happroved, htransport] at hlocal
        · dsimp only
          rw [htransport]
          dsimp only
          split_ifs
          · exact .of_silent rfl rfl rfl rfl
          · exact .of_silent rfl rfl rfl rfl
      · exact .refl net

theorem delivers_broadcastOne (data : Bytes) (r : PacketReliability) (exclude : ClientId)
    (c : ClientEntry) :
    Delivers (([c.toConnection].filter (net.session.handsTo exclude)).map fun c => ⟨c.id, data⟩) net
      (broadcastOne T data r exclude c net).1 := by
  have hhands : net.session.handsTo exclude c.toConnection =
      (c.id ≠ exclude && c.approved && c.id ≠ net.localClientId && c.transport.isNone) := rfl
  unfold broadcastOne
  split_ifs with hskip
  · rw [filter_cons_of_neg (by rw [hhands]; simp; tauto)]
    exact .refl net
  · rcases htransport : c.transport with _ | t
    · rw [filter_cons_of_pos (by rw [hhands, htransport]; simp; tauto)]
      exact delivers_pushMessage net c.id data
    · rw [filter_cons_of_neg (by rw [hhands, htransport]; simp)]
      exact .of_silent rfl rfl rfl rfl

theorem delivers_broadcastLoop (data : Bytes) (r : PacketReliability) (exclude : ClientId)
    (cs : List ClientEntry) :
    Delivers (((cs.map ClientEntry.toConnection).filter (net.session.handsTo exclude)).map
      fun c => ⟨c.id, data⟩) net (broadcastLoop T data r exclude cs net).1 := by
  induction cs generalizing net with
  | nil => exact .refl net
  | cons c cs ih =>
    obtain ⟨hsent, -⟩ := sent_broadcastOne (T := T) net data r exclude c
    have hrest := ih (broadcastOne T data r exclude c net).1
    rw [session_sent net hsent] at hrest
    have hboth := (delivers_broadcastOne (T := T) net data r exclude c).trans hrest
    rw [← map_append, ← filter_append] at hboth
    exact hboth

theorem delivers_broadcast (data : Bytes) (r : PacketReliability) (exclude : ClientId) :
    Delivers (net.session.handed ⟨.others exclude, data, r⟩) net (net.broadcast T data r exclude) := by
  have hloop : ∀ n : NetworkManager σ, n.session = net.session → n.clients = net.clients →
      Delivers ((net.session.clients.filter (net.session.handsTo exclude)).map fun c => ⟨c.id, data⟩)
        n { (broadcastLoop T data r exclude n.clients n).1 with
          clients := (broadcastLoop T data r exclude n.clients n).2 } := by
    intro n hsession hclients
    have h := delivers_broadcastLoop (T := T) n data r exclude n.clients
    rw [hsession, hclients] at h
    rw [hclients]
    exact ⟨h.awaiting, h.data⟩
  unfold Session.handed Session.locals broadcast
  dsimp only
  change Delivers (List.map _ (if !net.serving then [] else _)) _ _
  by_cases hserving : net.serving
  · have hgo : ¬(!net.serving) = true := by simp [hserving]
    rw [if_neg hgo, if_neg hgo, map_append, map_map]
    have hcond : (net.session.hosting ∧ net.session.localClientId ≠ exclude) ↔
        (net.mode = .host ∧ net.localClientId ≠ 0 ∧ net.localClientId ≠ exclude) := by
      unfold Session.hosting
      rw [Bool.and_eq_true, decide_eq_true_eq, decide_eq_true_eq, and_assoc]
      rfl
    by_cases hhost : net.mode = .host ∧ net.localClientId ≠ 0 ∧ net.localClientId ≠ exclude
    · rw [if_pos hhost, if_pos (hcond.mpr hhost)]
      exact (delivers_hostLocal net net.localClientId data).trans (hloop _ rfl rfl)
    · rw [if_neg hhost, if_neg fun h => hhost (hcond.mp h)]
      exact hloop net rfl rfl
  · rw [if_pos (by simp [hserving]), if_pos (by simp [hserving])]
    exact .refl net

theorem delivers_transmit (data : Bytes) (r : PacketReliability) :
    Delivers [] net (net.transmit T data r).1 := by
  unfold transmit
  split
  · exact .refl net
  · exact .of_silent rfl rfl rfl rfl

theorem delivers_send (data : Bytes) (r : PacketReliability) :
    Delivers (net.session.handed ⟨.server, data, r⟩) net (net.send T data r).1 := by
  have hhosting : net.session.hosting = (net.mode = .host && net.localClientId ≠ 0 : Bool) := rfl
  unfold Session.handed Session.locals send
  dsimp only
  rw [hhosting]
  by_cases hclient : net.mode = .client
  · rw [if_pos hclient, if_neg (by simp [hclient])]
    split_ifs
    · exact delivers_transmit net data r
    · exact .refl net
  · rw [if_neg hclient]
    simp only [Bool.and_eq_true, decide_eq_true_eq]
    split_ifs
    · exact delivers_pushMessage net net.localClientId data
    · exact .refl net

theorem delivers_post (p : Parcel) : Delivers (net.session.handed p) net (p.post T net) := by
  obtain ⟨target, data, r⟩ := p
  cases target with
  | client client => exact delivers_sendToClient net client data r
  | others exclude => exact delivers_broadcast net data r exclude
  | server => exact delivers_send net data r

theorem sent_post (p : Parcel) : Sent T net (p.post T net) := by
  obtain ⟨target, data, r⟩ := p
  cases target with
  | client client => exact sent_sendToClient net client data r
  | others exclude => exact sent_broadcast net data r exclude
  | server => exact sent_send net data r

theorem delivers_postAll (parcels : List Parcel) :
    Delivers (parcels.flatMap net.session.handed) net (net.postAll T parcels) := by
  refine Delivers.foldl (I := fun n => n.session = net.session) (fun p n hn => ?_)
    (fun p n hn => ?_) parcels rfl
  · exact (session_sent n (sent_post n p)).trans hn
  · rw [← hn]
    exact delivers_post n p

end

/-! ### What a call sends -/

/-- What an application passes to `send` or `broadcast`. -/
def userParcels : Call σ → List Parcel
  | .sendToClient client data r => [⟨.client client, data, r⟩]
  | .broadcast data r exclude => [⟨.others exclude, data, r⟩]
  | .send data r => [⟨.server, data, r⟩]
  | _ => []

/-- The parcel of an RPC to one client. -/
def rpcParcels (client : ClientId) (packet : Bytes) (net : NetworkManager σ) : List Parcel :=
  if packet = [] then []
  else if net.serving then [⟨.client client, packet, .reliableOrdered⟩]
  else if net.mode = .client then [⟨.server, packet, .reliableOrdered⟩]
  else []

/-- What the attached managers pass to `send` or `broadcast`. -/
def emitted (net : NetworkManager σ) : Call σ → List Parcel
  | .spawn prefabId initData handle announce =>
    match net.entityManager with
    | none => []
    | some em =>
      if announce && !em.full then
        [⟨.others 0, NetworkEntityManager.spawnMessage (em.spawn prefabId initData handle).2.2
          prefabId initData, .reliableOrdered⟩]
      else []
  | .destroy id announce =>
    match net.entityManager with
    | none => []
    | some em =>
      if announce && (em.find id).isSome then
        [⟨.others 0, NetworkEntityManager.destroyMessage id, .reliableOrdered⟩]
      else []
  | .sendFullState client =>
    match net.entityManager with
    | none => []
    | some em => em.fullStateMessages.map fun msg => ⟨.client client, msg, .reliableOrdered⟩
  | .serverTick deltaTime envs =>
    match net.replicationManager with
    | none => []
    | some rep =>
      if !net.serving then []
      else
        ((rep.serverTick deltaTime (envs.map net.tickEnv)).map fun out =>
          out.2.map fun msg => (⟨.client msg.1, msg.2, .unreliable⟩ : Parcel)).getD []
  | .clientTick deltaTime turns =>
    match net.replicationManager with
    | none => []
    | some rep =>
      if !net.joining then []
      else
        ((rep.clientTick deltaTime turns).map fun out =>
          out.2.map fun msg => (⟨.server, msg, .unreliable⟩ : Parcel)).getD []
  | .invokeRpc target rpcId args =>
    match net.rpcManager with
    | none => []
    | some rpc =>
      let packet := rpc.buildRpcPacket rpcId args
      let owner (entity : NetworkId) := (net.entityManager.map fun em => em.owner entity).getD 0
      if !rpc.hasNet then []
      else
        match target with
        | .client client => net.rpcParcels client packet
        | .server => net.rpcParcels 0 packet
        | .broadcast => [⟨.others 0, packet, .reliableOrdered⟩]
        | .owner entity =>
          if !rpc.hasEntityMgr || owner entity == 0 then [] else net.rpcParcels (owner entity) packet
        | .notOwner entity =>
          if !rpc.hasEntityMgr || packet.isEmpty then []
          else [⟨.others (owner entity), packet, .reliableOrdered⟩]
  | _ => []

/-- A call that is about no connection posts its parcels after no more than a change of the attached
managers. -/
def Posts (T : ℕ → ITransport σ) (parcels : List Parcel) (net net' : NetworkManager σ) : Prop :=
  ∃ n, n.session = net.session ∧ n.world = net.world ∧ Delivers [] net n ∧ net' = n.postAll T parcels

section
variable {T : ℕ → ITransport σ} {net net' : NetworkManager σ}

theorem Posts.of_eq {parcels : List Parcel} (h : net' = net.postAll T parcels) :
    Posts T parcels net net' := ⟨net, rfl, rfl, .refl net, h⟩

theorem Posts.delivers {parcels : List Parcel} (h : Posts T parcels net net') :
    Delivers (parcels.flatMap net.session.handed) net net' := by
  obtain ⟨n, hsession, -, hn, rfl⟩ := h
  have hposted := delivers_postAll (T := T) n parcels
  rw [hsession] at hposted
  exact hn.trans hposted

theorem sendRpc_eq (client : ClientId) (packet : Bytes) :
    net.sendRpc T client packet = net.postAll T (net.rpcParcels client packet) := by
  unfold sendRpc rpcParcels
  split_ifs <;> rfl

theorem invokeRpc_eq (target : RpcTarget) (rpcId : UInt16) (args : Bytes) :
    net.invokeRpc T target rpcId args =
      net.postAll T (net.emitted (.invokeRpc target rpcId args)) := by
  unfold emitted invokeRpc
  rcases net.rpcManager with _ | rpc
  · rfl
  · dsimp only
    by_cases hnet : (!rpc.hasNet) = true
    · rw [if_pos hnet, if_pos hnet]
      rfl
    · rw [if_neg hnet, if_neg hnet]
      cases target with
      | client client => exact sendRpc_eq _ _
      | server => exact sendRpc_eq _ _
      | broadcast => rfl
      | owner entity =>
        dsimp only
        split_ifs
        · rfl
        · exact sendRpc_eq _ _
      | notOwner entity =>
        dsimp only
        split_ifs <;> rfl

theorem posts_invokeRpc (target : RpcTarget) (rpcId : UInt16) (args : Bytes) :
    Posts T (net.emitted (.invokeRpc target rpcId args)) net (net.invokeRpc T target rpcId args) :=
  .of_eq (invokeRpc_eq target rpcId args)

theorem delivers_called_lifecycle {calls : List AppCall} (h : ∀ c ∈ calls, c.kind = .lifecycle) :
    Delivers [] net (net.called calls) :=
  .called fun c hc => by
    rw [h c hc]
    decide

theorem posts_spawnEntity (prefabId : PrefabId) (initData : Bytes) (handle : EntityHandle)
    (announce : Bool) : Posts T (net.emitted (.spawn prefabId initData handle announce)) net
      (net.spawnEntity T prefabId initData handle announce) := by
  unfold emitted spawnEntity
  rcases hem : net.entityManager with _ | em
  · exact .of_eq rfl
  · have hset : Delivers [] net { net with entityManager := some (em.spawn prefabId initData handle).1 } :=
      .of_silent rfl rfl rfl rfl
    have hcalled := hset.trans (delivers_called_lifecycle
      fun c (hc : c ∈ (em.spawn prefabId initData handle).2.1) => em.spawn_calls hc)
    refine ⟨_, ?_, ?_, hcalled, ?_⟩
    · rfl
    · rfl
    · dsimp only
      split_ifs <;> rfl

theorem posts_destroyEntity (id : NetworkId) (announce : Bool) :
    Posts T (net.emitted (.destroy id announce)) net (net.destroyEntity T id announce) := by
  unfold emitted destroyEntity tellEntities
  rcases hem : net.entityManager with _ | em
  · exact .of_eq rfl
  · have hset : Delivers [] net { net with entityManager := some (em.destroy id).1 } :=
      .of_silent rfl rfl rfl rfl
    have hcalled := hset.trans (delivers_called_lifecycle
      fun c (hc : c ∈ (em.destroy id).2) => em.destroy_calls hc)
    refine ⟨_, ?_, ?_, hcalled, ?_⟩
    · rfl
    · rfl
    · dsimp only
      split_ifs <;> rfl

theorem posts_sendFullStateToClient (client : ClientId) :
    Posts T (net.emitted (.sendFullState client)) net (net.sendFullStateToClient T client) := by
  apply Posts.of_eq
  unfold emitted sendFullStateToClient
  rcases net.entityManager with _ | em
  · rfl
  · dsimp only
    rw [postAll, foldl_map]
    rfl

theorem posts_serverTick {deltaTime : ℚ} {envs : List SnapshotEnv}
    (h : net.serverTick T deltaTime envs = some net') :
    Posts T (net.emitted (.serverTick deltaTime envs)) net net' := by
  unfold emitted
  unfold serverTick at h
  rcases hrep : net.replicationManager with _ | rep
  · rw [hrep] at h
    cases h
    exact .of_eq rfl
  · rw [hrep] at h
    dsimp only at h ⊢
    split_ifs at h ⊢
    · cases h
      exact .of_eq rfl
    · obtain ⟨out, hout, rfl⟩ := Option.map_eq_some_iff.mp h
      refine ⟨{ net with replicationManager := some out.1 }, rfl, rfl, .of_silent rfl rfl rfl rfl, ?_⟩
      rw [hout, Option.map_some, Option.getD_some, postAll, foldl_map]
      rfl

theorem posts_clientTick {deltaTime : ℚ} {turns : ℕ}
    (h : net.clientTick T deltaTime turns = some net') :
    Posts T (net.emitted (.clientTick deltaTime turns)) net net' := by
  unfold emitted
  unfold clientTick at h
  rcases hrep : net.replicationManager with _ | rep
  · rw [hrep] at h
    cases h
    exact .of_eq rfl
  · rw [hrep] at h
    dsimp only at h ⊢
    split_ifs at h ⊢
    · cases h
      exact .of_eq rfl
    · obtain ⟨out, hout, rfl⟩ := Option.map_eq_some_iff.mp h
      refine ⟨{ net with replicationManager := some out.1 }, rfl, rfl, .of_silent rfl rfl rfl rfl, ?_⟩
      rw [hout, Option.map_some, Option.getD_some, postAll, foldl_map]
      rfl

/-! ### Packets -/

/-- The packet is queued as a message, if it is not one of the system's. -/
def fromPeer (sender : Address) (buffer : Bytes) (net : NetworkManager σ) : List ReceivedMessage :=
  if buffer = [] ∨ isSystem buffer then []
  else ((net.attributed sender).map fun id => ⟨id, buffer⟩).toList

/-- What packets do not touch. -/
def held (net : NetworkManager σ) : ℕ × List ReceivedMessage :=
  (net.messageReadIdx, net.hostLocalRecvQueue)

@[simp] theorem held_callOnConnected (client : ClientId) :
    (net.callOnConnected client).held = net.held := by
  unfold callOnConnected
  split_ifs <;> rfl

@[simp] theorem held_callOnDisconnected (client : ClientId) :
    (net.callOnDisconnected client).held = net.held := by
  unfold callOnDisconnected
  split_ifs <;> rfl

@[simp] theorem held_flushToCallbacks (client : ClientId) (data : Bytes) :
    (net.flushToCallbacks client data).held = net.held := by
  unfold flushToCallbacks
  split_ifs <;> rfl

@[simp] theorem held_tellReplication (f : NetworkReplicationManager → NetworkReplicationManager) :
    (net.tellReplication f).held = net.held := rfl

@[simp] theorem held_tellEntities
    (f : NetworkEntityManager → NetworkEntityManager × List AppCall) :
    (net.tellEntities f).held = net.held := by
  unfold tellEntities
  split <;> rfl

@[simp] theorem held_disconnectTransport : (net.disconnectTransport T).held = net.held := by
  unfold disconnectTransport
  split <;> rfl

@[simp] theorem held_dropClient (id : ClientId) : (net.dropClient id).held = net.held := by
  unfold dropClient
  rw [held_tellReplication, held_callOnDisconnected]
  rfl

theorem held_onConnectRequest (env : PacketEnv) (sender : Address) (t : ℕ) (data : Bytes) :
    (net.onConnectRequest T env sender t data).held = net.held := by
  have happroval : (net.checkApproval env sender data).1.held = net.held := by
    obtain ⟨calls, hcalls⟩ := net.checkApproval_called env sender data
    rw [hcalls]
    rfl
  unfold onConnectRequest
  split_ifs
  · rfl
  · split
    · rfl
    · dsimp only
      split_ifs
      · exact happroval
      · exact happroval
      · unfold admitClient
        rw [held_tellReplication, held_callOnConnected]
        exact happroval

theorem held_onConnectAccept (data : Bytes) : (net.onConnectAccept data).held = net.held := by
  unfold onConnectAccept
  split_ifs
  · rfl
  · rfl
  · dsimp only
    rw [held_tellReplication, held_callOnConnected]
    rfl

theorem held_onDisconnectNotify (sender : Address) :
    (net.onDisconnectNotify T sender).held = net.held := by
  unfold onDisconnectNotify
  split_ifs
  · split
    · rfl
    · exact held_dropClient _
  · dsimp only
    rw [held_tellReplication, held_callOnDisconnected, held_disconnectTransport]
    rfl
  · rfl

theorem held_allowRpc (env : PacketEnv) (sender : Address) :
    (net.allowRpc env sender).1.held = net.held := by
  unfold allowRpc
  split_ifs
  · split <;> rfl
  · rfl

theorem held_onRpc (env : PacketEnv) (senderId : ClientId) (sender : Address) (data : Bytes) :
    (net.onRpc T env senderId sender data).held = net.held := by
  have hallow : (net.allowRpc env sender).1.held = net.held := held_allowRpc env sender
  unfold onRpc
  split
  · rfl
  · dsimp only
    split_ifs
    · exact hallow
    · exact hallow

theorem held_processSystemMessage (env : PacketEnv) (senderId : ClientId) (sender : Address)
    (t : ℕ) (type : UInt8) (data : Bytes) :
    (net.processSystemMessage T env senderId sender t type data).held = net.held := by
  apply processSystemMessage_cases (P := fun next => next.held = net.held)
  case connectRequest => exact fun _ => held_onConnectRequest env sender t data
  case connectAccept => exact fun _ => held_onConnectAccept data
  case connectReject =>
    intro _
    unfold onConnectReject
    split_ifs
    · rfl
    · exact held_disconnectTransport
  case disconnectNotify => exact fun _ => held_onDisconnectNotify sender
  case timeSyncRequest =>
    intro _
    unfold onTimeSyncRequest
    split_ifs <;> rfl
  case timeSyncResponse =>
    intro _
    unfold onTimeSyncResponse
    split_ifs <;> rfl
  case entitySpawn => exact fun _ => held_tellEntities _
  case entityDestroy => exact fun _ => held_tellEntities _
  case entitySetOwner => exact fun _ => held_tellEntities _
  case entityFullState => exact fun _ => held_tellEntities _
  case deltaState =>
    intro _
    unfold onDeltaState
    split <;> rfl
  case snapshotAck =>
    intro _
    unfold onSnapshotAck
    split_ifs <;> rfl
  case rpc => exact fun _ => held_onRpc env senderId sender data
  case unknown => rfl

theorem held_onSystem (env : PacketEnv) (t : ℕ) (buffer : Bytes) (sender : Address) :
    (net.onSystem T env t buffer sender).held = net.held := by
  unfold onSystem
  dsimp only
  by_cases hs : net.serving
  · rw [if_pos hs]
    split
    · exact held_processSystemMessage env _ sender t _ _
    · split_ifs
      · exact held_processSystemMessage env 0 sender t _ _
      · rfl
  · rw [if_neg hs]
    exact held_processSystemMessage env 0 sender t _ _

theorem held_onOversized (sender : Address) : (net.onOversized T sender).held = net.held := by
  unfold onOversized
  split_ifs
  · rfl
  · split
    · rfl
    · split
      · rfl
      · split_ifs
        · rfl
        · exact held_dropClient _

theorem held_onUser (env : PacketEnv) (buffer : Bytes) (sender : Address) :
    (net.onUser env buffer sender).held = net.held := by
  unfold onUser
  split_ifs
  · split
    · rfl
    · dsimp only
      split_ifs
      · exact held_flushToCallbacks _ _
      · rfl
  · exact held_flushToCallbacks _ _
  · rfl

theorem held_handlePacket (env : PacketEnv) (t : ℕ) (buffer : Bytes) (sender : Address) :
    (net.handlePacket T env t buffer sender).held = net.held := by
  unfold handlePacket
  split_ifs
  · rfl
  · exact held_onOversized sender
  · exact held_onSystem env t buffer sender
  · exact held_onUser env buffer sender

theorem dataMessages_eq : net.dataMessages = net.dataCalls.filterMap AppCall.message := by
  unfold dataMessages dataCalls
  rw [filterMap_filter]
  apply filterMap_congr
  intro c _
  cases c <;> rfl

theorem delivers_handlePacket (env : PacketEnv) (t : ℕ) (buffer : Bytes) (sender : Address) :
    Delivers (net.fromPeer sender buffer) net (net.handlePacket T env t buffer sender) := by
  have hheld : (net.handlePacket T env t buffer sender).held = net.held :=
    held_handlePacket env t buffer sender
  obtain ⟨hidx, hhost⟩ := Prod.mk.inj hheld
  by_cases hacc : net.Accepted env buffer sender
  · obtain ⟨client, hclient, heq⟩ := handlePacket_of_accepted (T := T) t hacc
    have hms : net.fromPeer sender buffer = [⟨client, buffer⟩] := by
      unfold fromPeer
      rw [if_neg (by simp [hacc.nonempty, hacc.user]), hclient]
      rfl
    have hflush : net.received env client buffer sender =
        { (net.pushMessage client buffer).flushToCallbacks client buffer with
          clients := net.charged env buffer.length sender } := by
      rw [flushToCallbacks_eq]
      rfl
    rw [hms, heq, hflush]
    have hpush := delivers_pushMessage net client buffer
    exact ⟨hpush.awaiting, hpush.data⟩
  · obtain ⟨hqueue, hcalls⟩ := undelivered_of_not_accepted (T := T) t hacc
    constructor
    · unfold awaiting
      rw [hqueue, hidx, hhost]
      exact (sublist_append_left _ _).subperm
    · rw [dataMessages_eq, dataMessages_eq, hcalls]
      exact (sublist_append_left _ _).subperm

/-- What a packet that is handled delivers. -/
def Handled.delivered (p : Handled σ) : List ReceivedMessage := p.net.fromPeer p.sender p.buffer

theorem delivers_after (p : Handled σ) : Delivers p.delivered p.net (p.after T) := by
  have h : Delivers ((p.before T).fromPeer p.sender p.buffer) (p.before T)
      ((p.before T).handlePacket T p.env p.transport p.buffer p.sender) :=
    delivers_handlePacket p.env p.transport p.buffer p.sender
  exact ⟨h.awaiting, h.data⟩

/-! ### Other calls -/

theorem delivers_callOnConnected (client : ClientId) :
    Delivers [] net (net.callOnConnected client) := by
  unfold callOnConnected
  split_ifs
  · refine .called fun c hc => ?_
    rw [mem_singleton.mp hc]
    exact fun h => by cases h
  · exact .refl net

theorem delivers_sendConnectRequest : Delivers [] net (net.sendConnectRequest T) := by
  unfold sendConnectRequest
  split_ifs
  · exact .refl net
  · have h := delivers_transmit (T := T) net (sysPacket SysType.connectRequest net.clientToken)
      .reliableOrdered
    exact ⟨h.awaiting, h.data⟩

theorem calls_stop : (net.stop T).calls = net.calls := by
  unfold stop
  dsimp only
  split_ifs
  · refine foldlRecOn (motive := fun n : NetworkManager σ => n.calls = net.calls) net.clients _ rfl ?_
    intro n hn c _
    split
    · exact hn
    · split_ifs <;> exact hn
  · unfold transmit
    split <;> rfl
  · rfl

/-- Nothing is left to return. -/
theorem delivers_stop : Delivers [] net (net.stop T) := by
  refine ⟨nil_subperm, ?_⟩
  unfold dataMessages
  rw [calls_stop, append_nil]

theorem delivers_disconnectClient (client : ClientId) :
    Delivers [] net (net.disconnectClient T client) := by
  have hdrop : ∀ n : NetworkManager σ, Delivers [] net n → Delivers [] net (n.dropClient client) := by
    intro n hn
    have hsame : Delivers [] n (n.dropClient client) := by
      obtain ⟨-, hqueue, calls, hcalls, hall⟩ := incidental_dropClient n client
      have hheld : (n.dropClient client).held = n.held := held_dropClient client
      obtain ⟨hidx, hhost⟩ := Prod.mk.inj hheld
      exact .of_eq hqueue hidx hhost ⟨calls, hcalls, fun c hc => by rw [hall c hc]; decide⟩
    exact hn.trans hsame
  unfold disconnectClient
  dsimp only
  split_ifs
  · exact .refl net
  · split
    · exact .refl net
    · exact hdrop _ (.of_silent rfl rfl rfl rfl)
  · split
    · exact .refl net
    · split
      · exact hdrop _ (.refl net)
      · exact hdrop _ (.of_silent rfl rfl rfl rfl)

theorem delivers_disconnect : Delivers [] net (net.disconnect T) := by
  unfold disconnect
  split_ifs
  · exact (delivers_transmit net _ _).trans delivers_stop
  · exact delivers_stop
  · exact delivers_disconnectClient _
  · exact .refl net

theorem delivers_start (config : Config) (udp : ℕ) : Delivers [] net (net.start T config udp).1 := by
  have hstop : Delivers [] net (if net.mode = .none then net else net.stop T) := by
    split_ifs
    · exact .refl net
    · exact delivers_stop
  have hlaunch : ∀ n : NetworkManager σ, Delivers [] net n → Delivers [] net (n.launch T) := by
    intro n hn
    unfold launch
    split_ifs
    · exact hn.trans delivers_sendConnectRequest
    · have henter : Delivers [] n { n with
          clients := n.clients ++ [localEntry n.generateClientId]
          localClientId := n.generateClientId, clientConnected := true } :=
        .of_silent rfl rfl rfl rfl
      exact hn.trans (henter.trans (delivers_callOnConnected _))
    · exact hn
  unfold start
  dsimp only
  generalize (if net.mode = .none then net else net.stop T) = stopped at hstop
  split_ifs
  · exact hlaunch _ ⟨hstop.awaiting, hstop.data⟩
  · exact ⟨hstop.awaiting, hstop.data⟩

theorem delivers_addLocalClient : Delivers [] net net.addLocalClient.1 := by
  unfold addLocalClient
  split_ifs
  · exact .refl net
  · dsimp only
    have henter : Delivers [] net
        { net with clients := net.clients ++ [localEntry net.generateClientId] } :=
      .of_silent rfl rfl rfl rfl
    have hcalled := henter.trans (delivers_callOnConnected net.generateClientId)
    exact ⟨hcalled.awaiting, hcalled.data⟩

theorem delivers_setTransport (t : Option ℕ) : Delivers [] net (net.setTransport T t) := by
  unfold setTransport
  split_ifs
  · exact .of_silent rfl rfl rfl rfl
  · have hstop : Delivers [] net (net.stop T) := delivers_stop
    exact ⟨hstop.awaiting, hstop.data⟩

/-! ### Polls -/

theorem delivers_handledFor {t : ℕ} {envs : List PacketEnv} {out : NetworkManager σ × List PacketEnv}
    (h : net.pollTransportReceivesFor T t envs = some out) :
    Delivers ((net.handledFor T t envs).flatMap Handled.delivered) net out.1 := by
  induction envs generalizing net with
  | nil =>
    unfold pollTransportReceivesFor at h
    split at h
    · cases h
      exact .of_silent rfl rfl rfl rfl
    · cases h
  | cons env envs ih =>
    unfold pollTransportReceivesFor at h
    unfold handledFor
    rcases hpop : (T t).popReceive BUF_SIZE net.world with ⟨world, _ | ⟨buffer, sender⟩⟩
    · rw [hpop] at h
      cases h
      exact .of_silent rfl rfl rfl rfl
    · rw [hpop] at h
      let p : Handled σ := ⟨net, env, t, buffer, sender⟩
      have hafter : p.after T = { net with world := world }.handlePacket T env t buffer sender := by
        show ({ net with world := ((T t).popReceive BUF_SIZE net.world).1 } :
          NetworkManager σ).handlePacket T env t buffer sender = _
        rw [hpop]
      have hrest := ih h
      rw [← hafter] at hrest
      exact (delivers_after p).trans hrest

theorem delivers_handledOf {ts : List ℕ} {envs : List PacketEnv}
    {out : NetworkManager σ × List PacketEnv} (h : pollTransportReceives T ts envs net = some out) :
    Delivers ((net.handledOf T ts envs).flatMap Handled.delivered) net out.1 := by
  induction ts generalizing envs net with
  | nil =>
    cases h
    exact .refl net
  | cons t ts ih =>
    obtain ⟨mid, hmid, h⟩ := Option.bind_eq_some_iff.mp h
    unfold handledOf
    rw [hmid, Option.map_some, Option.getD_some, flatMap_append]
    exact (delivers_handledFor hmid).trans (ih h)

theorem delivers_pollClientTimeSync (env : PollEnv) :
    Delivers [] net (net.pollClientTimeSync T env) := by
  unfold pollClientTimeSync
  dsimp only
  split_ifs
  · exact .refl net
  · exact .of_silent rfl rfl rfl rfl
  · exact .of_silent rfl rfl rfl rfl
  · have h := delivers_transmit (T := T) { net with lastTimeSync := env.now }
      (sysPacket SysType.timeSyncRequest (be64 (env.format.toBits env.now))) .reliableOrdered
    exact ⟨h.awaiting, h.data⟩
  · exact .refl net

theorem delivers_finishPoll (env : PollEnv) : Delivers [] net (net.finishPoll T env) := by
  have hstats : Delivers [] net { net.pollClientTimeSync T env with
      clients := (net.pollClientTimeSync T env).clients.map (updateStats env.now) } :=
    ⟨(delivers_pollClientTimeSync env).awaiting, (delivers_pollClientTimeSync env).data⟩
  -- a host moves its own queue to the end of the other
  have hmove : ∀ n : NetworkManager σ, Delivers [] net n → Delivers [] net
      { n with messageQueue := n.messageQueue ++ n.hostLocalRecvQueue, hostLocalRecvQueue := [] } := by
    intro n hn
    refine hn.trans ⟨?_, (sublist_append_left _ _).subperm⟩
    unfold awaiting
    dsimp only
    rw [drop_append, append_nil, append_nil]
    exact ((Sublist.refl _).append (drop_sublist _ _)).subperm
  have hrequest : ∀ n : NetworkManager σ, Delivers [] net n →
      Delivers [] net (n.sendConnectRequest T) := fun n hn => hn.trans delivers_sendConnectRequest
  unfold finishPoll
  dsimp only
  split_ifs
  · exact hmove _ (hrequest _ hstats)
  · exact hrequest _ hstats
  · exact hmove _ hstats
  · exact hstats

theorem delivers_poll {env : PollEnv} (h : net.poll T env = some net') :
    Delivers ((net.handled T (.poll env)).flatMap Handled.delivered) net net' := by
  unfold handled
  unfold poll at h
  split_ifs at h ⊢
  · cases h
    exact .refl net
  · obtain ⟨out, hout, rfl⟩ := Option.map_eq_some_iff.mp h
    have hpolled : Delivers [] net (net.pollTransports T) := .of_silent rfl rfl rfl rfl
    have hall := hpolled.trans ((delivers_handledOf hout).trans
      (delivers_finishPoll (T := T) env))
    rwa [nil_append, append_nil] at hall

end

/-! ### Runs -/

/-- The message that the application pops. -/
def popped (net : NetworkManager σ) : Call σ → List ReceivedMessage
  | .popMessage => net.popMessage.2.toList
  | _ => []

section
variable (T : ℕ → ITransport σ)

/-- The messages of the application and of the peers that a call delivers. -/
def userDelivered (net : NetworkManager σ) (call : Call σ) : List ReceivedMessage :=
  (userParcels call).flatMap net.session.handed ++ (net.handled T call).flatMap Handled.delivered

/-- All that a call delivers. -/
def delivered (net : NetworkManager σ) (call : Call σ) : List ReceivedMessage :=
  (net.emitted call).flatMap net.session.handed ++ net.userDelivered T call

/-- The messages that an application passes to `send` or `broadcast` in a run, as its local clients
are to be handed them, and those of its peers. -/
def userMessages (net : NetworkManager σ) (run : List (Call σ)) : List ReceivedMessage :=
  Run.gather (step T) (userDelivered T) net run

/-- The messages that `pop_message` returns in a run. -/
def yielded (net : NetworkManager σ) (run : List (Call σ)) : List ReceivedMessage :=
  Run.gather (step T) popped net run

end

/-- No system message is addressed to a local client. -/
def Spared (net : NetworkManager σ) (call : Call σ) : Prop :=
  ∀ p ∈ net.emitted call, net.session.locals p.target = []

instance (net : NetworkManager σ) (call : Call σ) : Decidable (net.Spared call) :=
  inferInstanceAs (Decidable (∀ p ∈ _, _))

section
variable {T : ℕ → ITransport σ} {net net' : NetworkManager σ}

/-- A call other than `pop_message` delivers no more than its parcels and packets. -/
theorem delivers_call {call : Call σ} (h : net.step T call = some net')
    (hpop : call ≠ .popMessage) : Delivers (net.delivered T call) net net' := by
  have hposts : ∀ {parcels : List Parcel}, Posts T parcels net net' →
      net.delivered T call = parcels.flatMap net.session.handed ++ [] →
      Delivers (net.delivered T call) net net' := by
    intro parcels hposts hdelivered
    rw [hdelivered, append_nil]
    exact hposts.delivers
  have huser : ∀ {p : Parcel}, net' = p.post T net →
      net.delivered T call = net.session.handed p ++ [] →
      Delivers (net.delivered T call) net net' := by
    intro p hp hdelivered
    rw [hdelivered, append_nil, hp]
    exact delivers_post net p
  cases call with
  | network world => cases h; exact .of_silent rfl rfl rfl rfl
  | setTransport t => cases h; exact delivers_setTransport t
  | addTransport t => cases h; exact .of_silent rfl rfl rfl rfl
  | start config udp => cases h; exact delivers_start config udp
  | stop => cases h; exact delivers_stop
  | poll env => exact delivers_poll h
  | addLocalClient => cases h; exact delivers_addLocalClient
  | disconnectClient client => cases h; exact delivers_disconnectClient client
  | disconnect => cases h; exact delivers_disconnect
  | sendToClient client data r =>
    cases h
    exact huser (p := ⟨.client client, data, r⟩) rfl (congrArg (· ++ []) (append_nil _))
  | broadcast data r exclude =>
    cases h
    exact huser (p := ⟨.others exclude, data, r⟩) rfl (congrArg (· ++ []) (append_nil _))
  | send data r =>
    cases h
    exact huser (p := ⟨.server, data, r⟩) rfl (congrArg (· ++ []) (append_nil _))
  | popMessage => exact absurd rfl hpop
  | setCallbacks callbacks => cases h; exact .of_silent rfl rfl rfl rfl
  | setConnectionToken token => cases h; exact .of_silent rfl rfl rfl rfl
  | setReplicationManager rep => cases h; exact .of_silent rfl rfl rfl rfl
  | setRpcManager rpc => cases h; exact .of_silent rfl rfl rfl rfl
  | spawn prefabId initData handle announce => cases h; exact hposts (posts_spawnEntity _ _ _ _) rfl
  | destroy id announce => cases h; exact hposts (posts_destroyEntity id announce) rfl
  | setOwner id owner =>
    cases h
    have hnone : Delivers [] net (net.setEntityOwner id owner) := by
      unfold setEntityOwner tellEntities
      split
      · exact .refl net
      · exact .of_silent rfl rfl rfl (append_nil _)
    exact hnone
  | sendFullState client => cases h; exact hposts (posts_sendFullStateToClient client) rfl
  | markDirty id => cases h; exact .of_silent rfl rfl rfl rfl
  | serverTick deltaTime envs => exact hposts (posts_serverTick h) rfl
  | clientTick deltaTime turns => exact hposts (posts_clientTick h) rfl
  | invokeRpc target rpcId args => cases h; exact hposts (posts_invokeRpc target rpcId args) rfl

/-- `pop_message` returns the first message that waits. -/
theorem popMessage_awaiting (net : NetworkManager σ) :
    net.popMessage.2.toList ++ net.popMessage.1.awaiting = net.awaiting := by
  unfold popMessage awaiting
  rcases hq : net.messageQueue.drop net.messageReadIdx with _ | ⟨msg, rest⟩
  · rfl
  · dsimp only
    rw [← drop_drop, hq]
    rfl

/-- What one call takes out of the queues and what it brings in. -/
theorem delivers_step {call : Call σ} (h : net.step T call = some net') :
    net.popped call ++ net'.awaiting <+~ net.awaiting ++ net.delivered T call ∧
      net'.dataMessages <+~ net.dataMessages ++ net.delivered T call := by
  by_cases hpop : call = .popMessage
  · subst hpop
    cases h
    have hcalls : net.popMessage.1.dataMessages = net.dataMessages := by
      unfold popMessage dataMessages
      split <;> rfl
    constructor
    · show net.popMessage.2.toList ++ net.popMessage.1.awaiting <+~ net.awaiting ++ _
      rw [popMessage_awaiting]
      exact (sublist_append_left _ _).subperm
    · rw [hcalls]
      exact (sublist_append_left _ _).subperm
  · have hnone : net.popped call = [] := by
      cases call with
      | popMessage => exact absurd rfl hpop
      | _ => rfl
    obtain ⟨hawaiting, hdata⟩ := delivers_call h hpop
    rw [hnone]
    exact ⟨hawaiting, hdata⟩

theorem delivered_of_spared {call : Call σ} (h : net.Spared call) :
    net.delivered T call = net.userDelivered T call := by
  have hnone : (net.emitted call).flatMap net.session.handed = [] := by
    refine flatMap_eq_nil_iff.mpr fun p hp => ?_
    rw [Session.handed, h p hp, map_nil]
  rw [delivered, hnone, nil_append]

end

/-- In every run in which no system message is addressed to a local client, the messages that
`pop_message` returns and those that the data callback is passed are, each for a message of its own,
what an application passed to `send` or `broadcast` or what came from a peer. -/
theorem local_userData (T : ℕ → ITransport σ) (net net' : NetworkManager σ) (run : List (Call σ))
    (h : Run.exec (step T) net run = some net') (hspared : Run.Admits (step T) Spared net run) :
    net.yielded T run ++ net'.awaiting <+~ net.awaiting ++ net.userMessages T run ∧
      net'.dataMessages <+~ net.dataMessages ++ net.userMessages T run := by
  have hall : Run.gather (step T) (delivered T) net run = net.userMessages T run :=
    Run.gather_congr (fun n call hn => delivered_of_spared hn) hspared
  rw [← hall]
  constructor
  · exact Run.gather_subperm _ (fun n call n' hstep => (delivers_step hstep).1) h
  · have hnone : Run.gather (step T) (fun (_ : NetworkManager σ) (_ : Call σ) =>
        ([] : List ReceivedMessage)) net run ++ net'.dataMessages <+~
          net.dataMessages ++ Run.gather (step T) (delivered T) net run :=
      Run.gather_subperm _ (fun n call n' hstep => (delivers_step hstep).2) h
    exact (sublist_append_right _ _).subperm.trans hnone

/-! ### A server with a local client -/

/-- A manager with an entity manager attached. -/
def spawner : NetworkManager LoopbackHub where
  world := {}
  entityManager := some { hasBridge := true }

def serverConfig : Config := { mode := .server, bindAddress := LoopbackHub.serverAddr }

/-- An entity is spawned, and a client that is added then is sent a message. -/
def spawnedBefore : List (Call LoopbackHub) :=
  [.start serverConfig 0, .spawn 7 [] 0 true, .addLocalClient, .sendToClient 1 [9] .reliableOrdered,
    .popMessage]

/-- An entity is spawned when there is a local client. -/
def spawnedAfter : List (Call LoopbackHub) :=
  [.start serverConfig 0, .setCallbacks { onData := true }, .addLocalClient, .spawn 7 [] 0 true,
    .popMessage]

theorem local_userData_spawnedBefore : ∃ net',
    Run.exec (step loopback) spawner spawnedBefore = some net' ∧
    spawner.yielded loopback spawnedBefore = [⟨1, [9]⟩] ∧
    spawner.yielded loopback spawnedBefore ++ net'.awaiting <+~
      spawner.awaiting ++ spawner.userMessages loopback spawnedBefore := by
  obtain ⟨net', h⟩ := Option.isSome_iff_exists.mp
    (show (Run.exec (step loopback) spawner spawnedBefore).isSome by decide +kernel)
  exact ⟨net', h, by decide +kernel,
    (local_userData loopback spawner net' spawnedBefore h (by decide +kernel)).1⟩

/-- The spawn message, header and all, is popped and passed to the data callback for the local client;
no application has sent anything. -/
theorem local_spawnMessage :
    spawner.yielded loopback spawnedAfter =
      [⟨1, [0xCA, 0xFE, 0x10, 0, 0, 0, 0, 0, 0, 0, 1, 0, 0, 0, 7, 0, 0]⟩] ∧
    spawner.awaiting = [] ∧ spawner.userMessages loopback spawnedAfter = [] ∧
    ((Run.exec (step loopback) spawner spawnedAfter).map dataMessages) =
      some [⟨1, [0xCA, 0xFE, 0x10, 0, 0, 0, 0, 0, 0, 0, 1, 0, 0, 0, 7, 0, 0]⟩] ∧
    ¬spawner.yielded loopback spawnedAfter <+~
      spawner.awaiting ++ spawner.userMessages loopback spawnedAfter := by
  decide +kernel

end NetworkManager

end CampelloNet
