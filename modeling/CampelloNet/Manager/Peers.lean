import CampelloNet.Manager.RpcAuthority

/-!
# Peers of different transports

A peer is an address on a transport, but the receive loop searches the client table by address only.
A packet concerns none but its own peer, and a peer whose request is approved has an id of its own, as
long as the entry found under a sender's address is of the transport that the packet came from
(`peers_apart`).
-/

namespace CampelloNet

open Lib Transport Replication

namespace AppCall

/-- The client that a call is about. -/
def client : AppCall → Option ClientId
  | onConnected client | onDisconnected client | onData client _ => some client
  | rpc _ params _ => some params.sender
  | onApproval _ _ | spawn _ _ _ | destroy _ | deserializeEntity _ _ | snapshotReceived _ _ => none

theorem client_eq_none {c : AppCall} (h : c.kind = .lifecycle ∨ c.kind = .state) :
    c.client = none := by
  cases c <;> simp [kind, client] at h ⊢

end AppCall

theorem RpcManager.onReceive_client {env : ReceiveEnv} {sender : ClientId} {data : Bytes}
    {rpc : RpcManager} {c : AppCall} (hc : c ∈ (rpc.onReceive env sender data).2) :
    c.client = some sender := by
  have hparams : (rpc.paramsOf env sender).sender = sender := by
    unfold paramsOf
    split_ifs <;> rfl
  by_cases h : rpc.Accepts env.now sender data
  · rw [onReceive_accepted h] at hc
    obtain rfl := List.mem_singleton.mp hc
    exact congrArg some hparams
  · rw [onReceive_rejected h] at hc
    cases hc

namespace NetworkManager

variable {σ : Type} {T : ℕ → ITransport σ}

/-- What replication knows of a client. -/
def replicationOf (client : ClientId) (net : NetworkManager σ) : Option ClientReplicationState :=
  net.replicationManager.bind fun rep => (lookup Prod.fst client rep.clientStates).map Prod.snd

/-- From `net` to `net'` a packet has concerned the clients `own` and the ids `mine` only. -/
structure Confined (own : ClientEntry → Prop) (mine : ClientId → Prop) (buffer : Bytes)
    (net net' : NetworkManager σ) : Prop where
  others : ∀ c, ¬own c → (c ∈ net'.clients ↔ c ∈ net.clients)
  messages : net'.messageQueue = net.messageQueue ∨
    ∃ id, mine id ∧ net'.messageQueue = net.messageQueue ++ [⟨id, buffer⟩]
  calls : ∃ calls, net'.calls = net.calls ++ calls ∧ ∀ call ∈ calls, ∀ id ∈ call.client, mine id
  replication : ∀ id, ¬mine id → net'.replicationOf id = net.replicationOf id

namespace Confined

variable {own : ClientEntry → Prop} {mine : ClientId → Prop} {buffer : Bytes}
  {net n : NetworkManager σ}

theorem refl (net : NetworkManager σ) : Confined own mine buffer net net :=
  ⟨fun _ _ => Iff.rfl, .inl rfl, ⟨[], (List.append_nil _).symm, fun _ hc => by cases hc⟩,
    fun _ _ => rfl⟩

theorem world (h : Confined own mine buffer net n) (world : σ) :
    Confined own mine buffer net { n with world := world } :=
  ⟨h.others, h.messages, h.calls, h.replication⟩

theorem called (h : Confined own mine buffer net n) {calls : List AppCall}
    (hcalls : ∀ call ∈ calls, ∀ id ∈ call.client, mine id) :
    Confined own mine buffer net (n.called calls) := by
  obtain ⟨before, heq, hbefore⟩ := h.calls
  refine ⟨h.others, h.messages, ⟨before ++ calls, ?_, fun call hcall => ?_⟩, h.replication⟩
  · rw [NetworkManager.called, heq, List.append_assoc]
  · rcases List.mem_append.mp hcall with hcall | hcall
    · exact hbefore call hcall
    · exact hcalls call hcall

theorem called_one (h : Confined own mine buffer net n) {call : AppCall}
    (hcall : ∀ id ∈ call.client, mine id) : Confined own mine buffer net (n.called [call]) :=
  h.called fun _ hc => by rwa [List.mem_singleton.mp hc]

theorem callOnConnected (h : Confined own mine buffer net n) {id : ClientId} (hid : mine id) :
    Confined own mine buffer net (n.callOnConnected id) := by
  unfold NetworkManager.callOnConnected
  split_ifs
  · exact h.called_one fun _ hc => by rwa [← Option.some.inj hc]
  · exact h

theorem callOnDisconnected (h : Confined own mine buffer net n) {id : ClientId} (hid : mine id) :
    Confined own mine buffer net (n.callOnDisconnected id) := by
  unfold NetworkManager.callOnDisconnected
  split_ifs
  · exact h.called_one fun _ hc => by rwa [← Option.some.inj hc]
  · exact h

theorem tell (h : Confined own mine buffer net n)
    {f : NetworkReplicationManager → NetworkReplicationManager}
    (hf : ∀ rep id, ¬mine id → lookup Prod.fst id (f rep).clientStates =
      lookup Prod.fst id rep.clientStates) :
    Confined own mine buffer net (n.tellReplication f) := by
  refine ⟨h.others, h.messages, h.calls, fun id hid => ?_⟩
  rw [← h.replication id hid]
  unfold replicationOf tellReplication
  rcases n.replicationManager with _ | rep
  · rfl
  · exact congrArg (Option.map Prod.snd) (hf rep id hid)

theorem clients (h : Confined own mine buffer net n) {clients : List ClientEntry}
    (hclients : ∀ c, ¬own c → (c ∈ clients ↔ c ∈ n.clients)) :
    Confined own mine buffer net { n with clients := clients } :=
  ⟨fun c hc => (hclients c hc).trans (h.others c hc), h.messages, h.calls, h.replication⟩

/-- The one message of a packet. -/
theorem push (h : Confined own mine buffer net n) (hqueue : n.messageQueue = net.messageQueue)
    {id : ClientId} (hid : mine id) : Confined own mine buffer net (n.pushMessage id buffer) :=
  ⟨h.others, .inr ⟨id, hid, by rw [pushMessage, hqueue]⟩, h.calls, h.replication⟩

theorem flush (h : Confined own mine buffer net n) {id : ClientId} (hid : mine id) (data : Bytes) :
    Confined own mine buffer net (n.flushToCallbacks id data) := by
  unfold flushToCallbacks
  split_ifs
  · exact h.called_one fun _ hc => by rwa [← Option.some.inj hc]
  · exact h

theorem tellEntities (h : Confined own mine buffer net n)
    {f : NetworkEntityManager → NetworkEntityManager × List AppCall}
    (hf : ∀ em, ∀ call ∈ (f em).2, AppCall.client call = none) :
    Confined own mine buffer net (n.tellEntities f) := by
  unfold NetworkManager.tellEntities
  split
  · exact h
  · rename_i em _
    have hset : Confined own mine buffer net { n with entityManager := some (f em).1 } :=
      ⟨h.others, h.messages, h.calls, h.replication⟩
    refine hset.called fun call hcall id hid => ?_
    rw [hf em call hcall] at hid
    cases hid

/-- A client that is dropped is one of `own`, and no other has its id. -/
theorem dropClient (h : Confined own mine buffer net n) {id : ClientId} (hid : mine id)
    (hown : ∀ c ∈ n.clients, c.id = id → own c) :
    Confined own mine buffer net (n.dropClient id) := by
  unfold NetworkManager.dropClient
  refine tell (callOnDisconnected ?_ hid) fun rep id' hid' => ?_
  · refine h.clients fun c hc => ?_
    rw [List.mem_filter]
    refine and_iff_left_of_imp fun hmem => decide_eq_true fun heq => hc (hown c hmem heq)
  · refine lookup_erased_ne (fun heq => hid' ?_) _
    rwa [heq]

/-- A client that is admitted is one of `own`. -/
theorem admitClient (h : Confined own mine buffer net n) {entry : ClientEntry} (t : ℕ)
    (hown : own entry) (hid : mine entry.id) :
    Confined own mine buffer net (n.admitClient T entry t) := by
  unfold NetworkManager.admitClient
  refine tell (callOnConnected (world (h.clients fun c hc => ?_) _) hid) fun rep id' hid' => ?_
  · rw [List.mem_append, List.mem_singleton]
    refine or_iff_left fun heq => hc ?_
    rwa [heq]
  · refine lookup_upsert_ne _ _ fun heq => hid' ?_
    rwa [← heq]

end Confined

/-! ### What a packet concerns at a server -/

section
variable {net : NetworkManager σ} {t : ℕ} {sender : Address} {buffer : Bytes}
  {own : ClientEntry → Prop} {mine : ClientId → Prop}

theorem confined_dropClient {n : NetworkManager σ} {entry : ClientEntry}
    (h : Confined own mine buffer net n) (hids : (n.clients.map ClientEntry.id).Nodup)
    (hmem : entry ∈ n.clients) (hown : own entry) (hmine : mine entry.id) :
    Confined own mine buffer net (n.dropClient entry.id) := by
  refine h.dropClient hmine fun c hc heq => ?_
  rwa [List.inj_on_of_nodup_map hids hc hmem heq]

theorem confined_onConnectRequest (env : PacketEnv) (data : Bytes)
    (hadmitted : ∀ n : NetworkManager σ,
      net.onConnectRequest T env sender t data = n.admitClient T (n.newEntry env t sender) t →
        own (n.newEntry env t sender) ∧ mine (n.newEntry env t sender).id) :
    Confined own mine buffer net (net.onConnectRequest T env sender t data) := by
  have hself : Confined own mine buffer net net := .refl net
  have happ : Confined own mine buffer net (net.checkApproval env sender data).1 := by
    unfold checkApproval
    dsimp only
    split_ifs
    · exact hself.called_one fun _ hid => by cases hid
    · exact hself
  by_cases hs : net.serving
  · unfold onConnectRequest at hadmitted ⊢
    rw [if_neg (by simp [hs])] at hadmitted ⊢
    rcases hfind : (net.findClientByAddress sender).filter ClientEntry.approved with _ | existing
    · rw [hfind] at hadmitted
      dsimp only at hadmitted ⊢
      split_ifs at hadmitted ⊢
      · exact (happ.world _).world _
      · exact (happ.world _).world _
      · obtain ⟨hown, hmine⟩ := hadmitted _ rfl
        exact happ.admitClient t hown hmine
    · exact hself.world _
  · unfold onConnectRequest
    rw [if_pos (by simp [hs])]
    exact hself

/-- Writing over the entry that was found. -/
theorem Confined.setClientByAddress {n : NetworkManager σ} (h : Confined own mine buffer net n)
    {entry old : ClientEntry} (hfind : n.findClientByAddress entry.address = some old)
    (hown : own entry) (hold : own old) :
    Confined own mine buffer net (n.setClientByAddress entry) := by
  refine h.clients fun c hc => mem_upsert_of_ne hfind ?_ ?_
  · rintro rfl
    exact hc hown
  · rintro rfl
    exact hc hold

theorem confined_allowRpc (env : PacketEnv)
    (hfound : ∀ entry, net.findClientByAddress sender = some entry →
      ∀ limiter, own { entry with rateLimiter := limiter }) :
    Confined own mine buffer net (net.allowRpc env sender).1 := by
  have hself : Confined own mine buffer net net := .refl net
  unfold allowRpc
  split_ifs
  · rcases hfind : net.findClientByAddress sender with _ | entry
    · exact hself
    · have haddr : entry.address = sender := lookup_key hfind
      have hold : own entry := hfound entry hfind entry.rateLimiter
      refine hself.setClientByAddress ?_ (hfound entry hfind _) hold
      rw [haddr]
      exact hfind
  · exact hself

theorem confined_onRpc (env : PacketEnv) {senderId : ClientId} (data : Bytes) (hid : mine senderId)
    (hfound : ∀ entry, net.findClientByAddress sender = some entry →
      ∀ limiter, own { entry with rateLimiter := limiter }) :
    Confined own mine buffer net (net.onRpc T env senderId sender data) := by
  have hallow : Confined own mine buffer net (net.allowRpc env sender).1 :=
    confined_allowRpc env hfound
  unfold onRpc
  split
  · exact .refl net
  · dsimp only
    split_ifs
    · have hset : ∀ rpc, Confined own mine buffer net
          { (net.allowRpc env sender).1 with rpcManager := some rpc } := fun rpc =>
        ⟨hallow.others, hallow.messages, hallow.calls, hallow.replication⟩
      refine (hset _).called fun call hcall id hcid => ?_
      rw [RpcManager.onReceive_client hcall] at hcid
      rwa [← Option.some.inj hcid]
    · exact hallow

/-- The handlers, where the sender has the id that they are given. -/
theorem confined_processSystemMessage (hmode : net.mode = .server) {env : PacketEnv}
    {senderId : ClientId} {type : UInt8} {data : Bytes}
    (hids : (net.clients.map ClientEntry.id).Nodup)
    (hfound : ∀ entry, net.findClientByAddress sender = some entry →
      (∀ limiter, own { entry with rateLimiter := limiter }) ∧ mine entry.id)
    (hsender : type ≠ SysType.connectRequest → mine senderId)
    (hadmitted : type = SysType.connectRequest → ∀ n : NetworkManager σ,
      net.onConnectRequest T env sender t data = n.admitClient T (n.newEntry env t sender) t →
        own (n.newEntry env t sender) ∧ mine (n.newEntry env t sender).id) :
    Confined own mine buffer net
      (net.processSystemMessage T env senderId sender t type data) := by
  have hself : Confined own mine buffer net net := .refl net
  have hjoining : net.joining = false := by simp [joining, hmode]
  apply processSystemMessage_cases (P := fun next => Confined own mine buffer net next)
  case connectRequest => exact fun h => confined_onConnectRequest env data (hadmitted h)
  case connectAccept =>
    intro _
    unfold onConnectAccept
    rw [hjoining]
    exact hself
  case connectReject =>
    intro _
    unfold onConnectReject
    rw [hjoining]
    exact hself
  case disconnectNotify =>
    intro _
    unfold onDisconnectNotify
    rw [if_pos (by simp [serving, hmode])]
    rcases hfind : net.findClientByAddress sender with _ | entry
    · exact hself
    · obtain ⟨hown, hmine⟩ := hfound entry hfind
      exact confined_dropClient hself hids (lookup_mem hfind) (hown entry.rateLimiter) hmine
  case timeSyncRequest =>
    intro _
    unfold onTimeSyncRequest
    split_ifs
    · exact hself
    · exact hself
    · exact hself.world _
  case timeSyncResponse =>
    intro _
    unfold onTimeSyncResponse
    rw [hjoining]
    exact hself
  case entitySpawn =>
    exact fun _ => hself.tellEntities fun em call hcall =>
      AppCall.client_eq_none (.inl (em.onReceiveSpawn_calls hcall))
  case entityDestroy =>
    exact fun _ => hself.tellEntities fun em call hcall =>
      AppCall.client_eq_none (.inl (em.onReceiveDestroy_calls hcall))
  case entitySetOwner => exact fun _ => hself.tellEntities fun em call hcall => by cases hcall
  case entityFullState => exact fun _ => hself.tellEntities fun em call hcall => by cases hcall
  case deltaState =>
    intro _
    unfold onDeltaState
    rcases hrep : net.replicationManager with _ | rep
    · exact hself
    · have hstates : (rep.onReceiveDelta data).1.clientStates = rep.clientStates := by
        unfold NetworkReplicationManager.onReceiveDelta NetworkReplicationManager.applyDelta
        split_ifs <;> rfl
      have hset : Confined own mine buffer net
          { net with replicationManager := some (rep.onReceiveDelta data).1 } := by
        refine ⟨hself.others, hself.messages, hself.calls, fun id _ => ?_⟩
        unfold replicationOf
        rw [hrep]
        exact congrArg (fun states => (lookup Prod.fst id states).map Prod.snd) hstates
      refine hset.called fun call hcall id hid => ?_
      rw [AppCall.client_eq_none (.inr (NetworkReplicationManager.onReceiveDelta_kind hcall))] at hid
      cases hid
  case snapshotAck =>
    intro h
    unfold onSnapshotAck
    split_ifs
    · refine hself.tell fun rep id hid => lookup_upsert_ne _ _ fun heq => hid ?_
      rw [← heq]
      exact hsender (by rw [h]; decide)
    · exact hself
  case rpc =>
    intro h
    exact confined_onRpc env data (hsender (by rw [h]; decide)) fun entry hfind =>
      (hfound entry hfind).1
  case unknown => exact hself

theorem confined_onUser (hmode : net.mode = .server) (env : PacketEnv)
    (hfound : ∀ entry, net.findClientByAddress sender = some entry →
      (∀ c : ClientEntry, c.transport = entry.transport → c.address = sender → own c) ∧
        mine entry.id) :
    Confined own mine buffer net (net.onUser env buffer sender) := by
  have hself : Confined own mine buffer net net := .refl net
  unfold onUser
  rw [if_pos (by simp [serving, hmode])]
  rcases hfind : net.findClientByAddress sender with _ | entry
  · exact hself
  · have haddr : entry.address = sender := lookup_key hfind
    obtain ⟨hown, hmine⟩ := hfound entry hfind
    have hset : ∀ c : ClientEntry, c.address = entry.address → c.transport = entry.transport →
        Confined own mine buffer net (net.setClientByAddress c) := by
      intro c hc ht
      refine hself.setClientByAddress ?_ (hown c ht (hc.trans haddr)) (hown entry rfl haddr)
      rw [hc, haddr]
      exact hfind
    dsimp only
    split_ifs
    · exact ((hset (countReceived _ _ entry) rfl rfl).push rfl hmine).flush hmine buffer
    · exact hset _ rfl rfl

theorem confined_onOversized (hids : (net.clients.map ClientEntry.id).Nodup)
    (hfound : ∀ entry, net.findClientByAddress sender = some entry → own entry ∧ mine entry.id) :
    Confined own mine buffer net (net.onOversized T sender) := by
  have hself : Confined own mine buffer net net := .refl net
  unfold onOversized
  split_ifs
  · exact hself
  · rcases hfind : net.findClientByAddress sender with _ | entry
    · exact hself
    · obtain ⟨hown, hmine⟩ := hfound entry hfind
      dsimp only
      split
      · exact hself
      · split_ifs
        · exact hself
        · exact confined_dropClient (hself.world _) hids (lookup_mem hfind) hown hmine

/-- A packet concerns the clients found under its sender's address, and one that it lets in. -/
theorem confined_handlePacket (hmode : net.mode = .server) (env : PacketEnv)
    (hids : (net.clients.map ClientEntry.id).Nodup)
    (hfound : ∀ entry, net.findClientByAddress sender = some entry →
      (∀ c : ClientEntry, c.transport = entry.transport → c.address = sender → own c) ∧
        mine entry.id)
    (hadmitted : ∀ n : NetworkManager σ,
      net.handlePacket T env t buffer sender = n.admitClient T (n.newEntry env t sender) t →
        own (n.newEntry env t sender) ∧ mine (n.newEntry env t sender).id) :
    Confined own mine buffer net (net.handlePacket T env t buffer sender) := by
  have hserving : net.serving = true := by simp [serving, hmode]
  have hlimits : ∀ entry, net.findClientByAddress sender = some entry →
      (∀ limiter, own { entry with rateLimiter := limiter }) ∧ mine entry.id := by
    intro entry hfind
    have haddr : entry.address = sender := lookup_key hfind
    exact ⟨fun _ => (hfound entry hfind).1 _ rfl haddr, (hfound entry hfind).2⟩
  unfold handlePacket at hadmitted ⊢
  split_ifs at hadmitted ⊢
  · exact .refl net
  · exact confined_onOversized hids fun entry hfind =>
      ⟨(hlimits entry hfind).1 entry.rateLimiter, (hlimits entry hfind).2⟩
  · unfold onSystem at hadmitted ⊢
    rw [if_pos hserving] at hadmitted ⊢
    rcases hfind : net.findClientByAddress sender with _ | entry
    · rw [hfind] at hadmitted
      dsimp only at hadmitted ⊢
      split_ifs at hadmitted ⊢ with htype
      · refine confined_processSystemMessage hmode hids hlimits (fun hne => absurd htype hne) ?_
        intro _ n hn
        refine hadmitted n ?_
        rw [← hn, htype]
        rfl
      · exact .refl net
    · rw [hfind] at hadmitted
      dsimp only at hadmitted ⊢
      refine confined_processSystemMessage hmode hids hlimits (fun _ => (hlimits entry hfind).2) ?_
      intro htype n hn
      refine hadmitted n ?_
      rw [← hn, htype]
      rfl
  · exact confined_onUser hmode env hfound

end

theorem clients_admitClient (n : NetworkManager σ) (entry : ClientEntry) (t : ℕ) :
    (n.admitClient T entry t).clients = n.clients ++ [entry] := by
  unfold admitClient callOnConnected
  dsimp only
  split_ifs <;> rfl

/-! ### The packets of a run -/

/-- The entry is one of the peer from whom the packet comes. -/
def Handled.Own (p : Handled σ) (c : ClientEntry) : Prop :=
  c.transport = some p.transport ∧ c.address = p.sender

/-- The id is one of the peer from whom the packet comes, before it or after it. -/
def Handled.OwnId (T : ℕ → ITransport σ) (p : Handled σ) (id : ClientId) : Prop :=
  ∃ c, p.Own c ∧ c.id = id ∧ (c ∈ p.net.clients ∨ c ∈ (p.after T).clients)

/-- The packet is a connect request that is approved: its peer is connected already, or the request
passes every check. -/
structure Handled.Approved (p : Handled σ) : Prop where
  serving : p.net.serving
  message : p.net.SystemMessage SysType.connectRequest p.buffer
  approved : (∃ c ∈ p.net.clients, p.Own c) ∨
    (p.net.checkToken p.env (p.buffer.drop 3)).1 ∧ (p.net.callbacks.onApproval → p.env.approve) ∧
      p.net.clientCount < p.net.config.maxClients

/-- What the packet does concerns its own peer only, and a peer whose request is approved has an entry
and is told its id. -/
structure Handled.Attributed (T : ℕ → ITransport σ) (p : Handled σ) : Prop where
  confined : Confined p.Own (p.OwnId T) p.buffer p.net (p.after T)
  accepted : p.Approved → ∃ c ∈ (p.after T).clients, p.Own c ∧ (p.after T).world =
    ((T p.transport).sendTo p.sender (sysPacket SysType.connectAccept (be64 c.id)) .reliableOrdered
      (p.before T).world).1

/-- The first entry with the sender's address, if there is one, is of the packet's transport. -/
def Handled.Clear (p : Handled σ) : Prop :=
  ∀ entry ∈ p.net.findClientByAddress p.sender, entry.transport = some p.transport

instance (p : Handled σ) : Decidable p.Clear := inferInstanceAs (Decidable (∀ entry ∈ _, _))

section
variable {p : Handled σ}

theorem nodup_ids {net : NetworkManager σ} (h : net.session.Sound) :
    (net.clients.map ClientEntry.id).Nodup := by
  have hids : net.session.clients.map Connection.id = net.clients.map ClientEntry.id := List.map_map
  exact hids ▸ h.distinct

theorem confined_of_clear (hsound : p.net.session.Sound) (hmode : p.net.mode = .server)
    (hclear : p.Clear) : Confined p.Own (p.OwnId T) p.buffer p.net (p.after T) := by
  have hids : ((p.before T).clients.map ClientEntry.id).Nodup := nodup_ids hsound
  have hown : ∀ entry, (p.before T).findClientByAddress p.sender = some entry →
      (∀ c : ClientEntry, c.transport = entry.transport → c.address = p.sender → p.Own c) ∧
        p.OwnId T entry.id := by
    intro entry hfind
    have ht := hclear entry hfind
    refine ⟨fun c hc haddr => ⟨hc.trans ht, haddr⟩, entry, ⟨ht, lookup_key hfind⟩, rfl, ?_⟩
    exact .inl (lookup_mem hfind)
  have hbefore : Confined p.Own (p.OwnId T) p.buffer (p.before T) (p.after T) := by
    have hserver : (p.before T).mode = .server := hmode
    refine confined_handlePacket hserver p.env hids hown fun n hn => ?_
    -- a client that is admitted is in the table afterwards
    refine ⟨⟨rfl, rfl⟩, _, ⟨rfl, rfl⟩, rfl, .inr ?_⟩
    change p.after T = _ at hn
    rw [hn, clients_admitClient]
    exact List.mem_append_right _ List.mem_cons_self
  exact ⟨hbefore.others, hbefore.messages, hbefore.calls, hbefore.replication⟩

/-- A client that is connected already is told its id again. -/
theorem handlePacket_of_connected {net : NetworkManager σ} {env : PacketEnv} {t : ℕ} {buffer : Bytes}
    {sender : Address} {entry : ClientEntry} (hserving : net.serving)
    (hmsg : net.SystemMessage SysType.connectRequest buffer)
    (hfind : net.findClientByAddress sender = some entry) (happroved : entry.approved) :
    net.handlePacket T env t buffer sender =
      net.sendSys T t sender SysType.connectAccept (be64 entry.id) := by
  obtain ⟨hfits, hsys, htype⟩ := hmsg
  have hne : buffer ≠ [] := by
    rintro rfl
    cases hsys
  have hrequest : net.onConnectRequest T env sender t (buffer.drop 3) =
      net.sendSys T t sender SysType.connectAccept (be64 entry.id) := by
    unfold onConnectRequest
    rw [if_neg (by simp [hserving]), hfind, Option.filter_some, if_pos happroved]
  unfold handlePacket onSystem
  dsimp only
  rw [if_neg hne, if_neg (not_lt.mpr hfits), if_pos hsys, if_pos hserving, htype, hfind]
  exact hrequest

theorem accepted_of_clear (hsound : p.net.session.Sound) (hclear : p.Clear) (h : p.Approved) :
    ∃ c ∈ (p.after T).clients, p.Own c ∧ (p.after T).world =
      ((T p.transport).sendTo p.sender (sysPacket SysType.connectAccept (be64 c.id)) .reliableOrdered
        (p.before T).world).1 := by
  have hserving : (p.before T).serving := h.serving
  have hmsg : (p.before T).SystemMessage SysType.connectRequest p.buffer := h.message
  rcases hfind : (p.before T).findClientByAddress p.sender with _ | entry
  · -- the request lets its sender in
    have hnew : ¬∃ c ∈ p.net.clients, p.Own c := by
      rintro ⟨c, hc, hown⟩
      exact List.find?_eq_none.mp hfind c hc (decide_eq_true hown.2)
    obtain ⟨htoken, happroval, hroom⟩ := h.approved.resolve_left hnew
    have hadmission : (p.before T).Admission p.env p.buffer p.sender :=
      ⟨hserving, hmsg.1, hmsg.2.1, hmsg.2.2, by rw [hfind]; rfl, htoken, happroval, hroom⟩
    have hafter : p.after T = _ := handlePacket_of_admission hadmission p.transport
    rw [hafter, clients_admitClient, world_admitClient]
    exact ⟨_, List.mem_append_right _ List.mem_cons_self, ⟨rfl, rfl⟩, rfl⟩
  · have hmem : entry ∈ p.net.clients := lookup_mem hfind
    have happroved : entry.approved := hsound.approved entry.toConnection (List.mem_map_of_mem hmem)
    have hafter : p.after T = _ := handlePacket_of_connected hserving hmsg hfind happroved
    rw [hafter]
    exact ⟨entry, hmem, ⟨hclear entry hfind, lookup_key hfind⟩, rfl⟩

end

/-- In every run in which the entry found under a sender's address is of the packet's transport, each
packet a server handles concerns its own peer only, a peer whose request is approved is told the id of
an entry of its own, and no two entries have one id. -/
theorem peers_apart (T : ℕ → ITransport σ) (net net' : NetworkManager σ) (run : List (Call σ))
    (hmode : net.mode = .none) (hclients : net.clients = [])
    (h : Run.exec (step T) net run = some net') (hfits : Run.Admits (step T) Fits net run)
    (hclear : ∀ p ∈ net.history T run, p.net.mode = .server → p.Clear) :
    (net'.clients.map ClientEntry.id).Nodup ∧
      ∀ p ∈ net.history T run, p.net.mode = .server → p.Attributed T := by
  obtain ⟨hsound, hlast, -⟩ := clientTable_run hmode hclients h hfits
  refine ⟨nodup_ids hlast, fun p hp hserver => ⟨?_, ?_⟩⟩
  · exact confined_of_clear (hsound p hp) hserver (hclear p hp hserver)
  · exact accepted_of_clear (hsound p hp) (hclear p hp hserver)

/-! ### Two hubs -/

/-- A transport over a part of the world. -/
def within {ω : Type} (get : ω → σ) (put : σ → ω → ω) (T : ITransport σ) : ITransport ω where
  bind address w := ((T.bind address (get w)).map (put · w) id)
  connect address w := ((T.connect address (get w)).map (put · w) id)
  disconnect w := put (T.disconnect (get w)) w
  isConnected w := T.isConnected (get w)
  send data r w := ((T.send data r (get w)).map (put · w) id)
  sendTo address data r w := ((T.sendTo address data r (get w)).map (put · w) id)
  poll w := put (T.poll (get w)) w
  popReceive n w := ((T.popReceive n (get w)).map (put · w) id)
  getConnectionRtt address w := T.getConnectionRtt address (get w)

/-- The servers of two loopback hubs: transport 0 is of the first. -/
def twoHubs (t : ℕ) : ITransport (LoopbackHub × LoopbackHub) :=
  if t = 0 then within Prod.fst (fun hub w => (hub, w.2)) (loopback 0)
  else within Prod.snd (fun hub w => (w.1, hub)) (loopback 0)

/-- A hub whose first port is given, with a server and a client whose packets are in its queue. -/
def hubAt (port : UInt16) (packets : List Bytes) : LoopbackHub :=
  let hub := (LoopbackTransport.connect 1 LoopbackHub.serverAddr
    (LoopbackTransport.bind 0 LoopbackHub.serverAddr { nextPort := port }).1).1
  hub.set 0 { hub.transports 0 with
    readyRecv := packets.map fun data => ⟨(hub.transports 1).localAddr, data, .reliableOrdered⟩ }

/-- A server on both hubs; the client of each connects, and the second sends a message. -/
def hubsRun (port : UInt16) : List (Call (LoopbackHub × LoopbackHub)) :=
  [.start { mode := .server, bindAddress := LoopbackHub.serverAddr } 0, .addTransport 1,
    .network (hubAt 50000 [sysPacket SysType.connectRequest []],
      hubAt port [sysPacket SysType.connectRequest [], [7]]),
    .poll { now := 0, format := zeroFormat, packets := List.replicate 3 packetEnv }]

def hubsServer : NetworkManager (LoopbackHub × LoopbackHub) := { world := ({}, {}) }

theorem peers_apart_hubs : ∃ net', Run.exec (step twoHubs) hubsServer (hubsRun 50001) = some net' ∧
    net'.messageQueue = [⟨2, [7]⟩] ∧ (net'.clients.map ClientEntry.id).Nodup ∧
    ∀ p ∈ hubsServer.history twoHubs (hubsRun 50001), p.net.mode = .server →
      p.Attributed twoHubs := by
  have hexec : (Run.exec (step twoHubs) hubsServer (hubsRun 50001)).map (fun net =>
      net.messageQueue) = some [⟨2, [7]⟩] := by
    decide +kernel
  obtain ⟨net', h, hqueue⟩ := Option.map_eq_some_iff.mp hexec
  have hclear : ∀ p ∈ hubsServer.history twoHubs (hubsRun 50001), p.net.mode = .server → p.Clear := by
    decide +kernel
  exact ⟨net', h, hqueue, peers_apart twoHubs hubsServer net' (hubsRun 50001) rfl rfl h
    (by decide +kernel) hclear⟩

/-- The clients of two hubs that begin with one port have one address: the second client's message is
taken for the first one's, and the second has no entry of its own. -/
theorem peers_confused : ∃ p ∈ hubsServer.history twoHubs (hubsRun 50000), p.net.mode = .server ∧
    p.transport = 1 ∧ (∀ c ∈ p.net.clients, c.transport = some 0) ∧
    (p.after twoHubs).messageQueue = [⟨1, [7]⟩] ∧ ¬p.Attributed twoHubs := by
  have hmem : ∃ p ∈ hubsServer.history twoHubs (hubsRun 50000), p.net.mode = .server ∧
      p.transport = 1 ∧ (∀ c ∈ p.net.clients, c.transport = some 0) ∧
      (p.after twoHubs).messageQueue = [⟨1, [7]⟩] ∧ p.net.messageQueue = [] ∧
      ∀ c ∈ (p.after twoHubs).clients, c.transport = some 0 := by
    decide +kernel
  obtain ⟨p, hp, hmode, ht, hclients, hqueue, hempty, hafter⟩ := hmem
  refine ⟨p, hp, hmode, ht, hclients, hqueue, fun hattributed => ?_⟩
  rcases hattributed.confined.messages with hsame | ⟨id, ⟨c, hown, -, hc⟩, -⟩
  · rw [hqueue, hempty] at hsame
    cases hsame
  · have htransport : c.transport = some 0 := hc.elim (hclients c) (hafter c)
    have := hown.1.symm.trans htransport
    rw [ht] at this
    cases this

end NetworkManager

end CampelloNet
