import CampelloNet.Manager.ClientTable

/-!
# To whom a message goes

A server hands a message over in three ways: to the queue of the host's own client, to the queue and
the data callback for a client without a transport, and to the transport of a remote client. Which
way is taken depends on `local_client_id`, `exclude` and the table, where 0 is nobody. In a table as
a run leaves it, `broadcast` hands one copy to each approved client but the excluded one, and
`invoke_owner` with `invoke_not_owner` one copy to each approved client.
-/

namespace CampelloNet

open Lib Transport
open List hiding lookup

/-! ### Transports that note what they are given -/

namespace Transport

/-- What a transport was told to send, and to whom; `none` for the server. -/
structure Post where
  transport : ℕ
  address : Option Address
  data : Bytes
  reliability : PacketReliability
  deriving DecidableEq

variable {σ : Type}

/-- The transport over a world with a list of what was given to send, whatever came of it. -/
def posting (T : ℕ → ITransport σ) (t : ℕ) : ITransport (σ × List Post) where
  bind address w := (((T t).bind address w.1).map (·, w.2) id)
  connect address w := (((T t).connect address w.1).map (·, w.2) id)
  disconnect w := ((T t).disconnect w.1, w.2)
  isConnected w := (T t).isConnected w.1
  send data r w := (((T t).send data r w.1).map (·, w.2 ++ [⟨t, none, data, r⟩]) id)
  sendTo address data r w :=
    (((T t).sendTo address data r w.1).map (·, w.2 ++ [⟨t, some address, data, r⟩]) id)
  poll w := ((T t).poll w.1, w.2)
  popReceive n w := (((T t).popReceive n w.1).map (·, w.2) id)
  getConnectionRtt address w := (T t).getConnectionRtt address w.1

end Transport

namespace NetworkManager

variable {σ : Type}

/-! ### Copies -/

/-- A message on its way to one client. -/
inductive Copy
  /-- in the queue of the host's own client -/
  | host (message : ReceivedMessage)
  /-- in the queue of `pop_message`, and passed to the data callback -/
  | direct (message : ReceivedMessage)
  | posted (post : Post)
  deriving DecidableEq

namespace Copy

def host? : Copy → Option ReceivedMessage
  | host message => some message
  | _ => none

def direct? : Copy → Option ReceivedMessage
  | direct message => some message
  | _ => none

def posted? : Copy → Option Post
  | posted post => some post
  | _ => none

end Copy

/-- What the data callback is passed of the messages, if there is one. -/
def handedCalls (callbacks : Callbacks) (messages : List ReceivedMessage) : List AppCall :=
  if callbacks.onData then messages.map fun m => .onData m.client m.payload else []

/-- From `net` to `net'` the copies are handed over and nothing else is. -/
structure Hands (copies : List Copy) (net net' : NetworkManager (σ × List Post)) : Prop where
  host : net'.hostLocalRecvQueue = net.hostLocalRecvQueue ++ copies.filterMap Copy.host?
  direct : net'.messageQueue = net.messageQueue ++ copies.filterMap Copy.direct?
  unread : net'.messageReadIdx = net.messageReadIdx
  calls : net'.calls = net.calls ++ handedCalls net.callbacks (copies.filterMap Copy.direct?)
  callbacks : net'.callbacks = net.callbacks
  posts : net'.world.2 = net.world.2 ++ copies.filterMap Copy.posted?

theorem handedCalls_nil (callbacks : Callbacks) : handedCalls callbacks [] = [] := by
  unfold handedCalls
  split_ifs <;> rfl

theorem handedCalls_append (callbacks : Callbacks) (ms ms' : List ReceivedMessage) :
    handedCalls callbacks (ms ++ ms') = handedCalls callbacks ms ++ handedCalls callbacks ms' := by
  unfold handedCalls
  split_ifs
  · exact map_append
  · rfl

namespace Hands

variable {copies copies' : List Copy} {net net₁ net₂ : NetworkManager (σ × List Post)}

theorem of_eq (hhost : net₁.hostLocalRecvQueue = net.hostLocalRecvQueue)
    (hqueue : net₁.messageQueue = net.messageQueue)
    (hunread : net₁.messageReadIdx = net.messageReadIdx) (hcalls : net₁.calls = net.calls)
    (hcallbacks : net₁.callbacks = net.callbacks) (hposts : net₁.world.2 = net.world.2) :
    Hands [] net net₁ where
  host := by rw [hhost, filterMap_nil, append_nil]
  direct := by rw [hqueue, filterMap_nil, append_nil]
  unread := hunread
  calls := by rw [hcalls, filterMap_nil, handedCalls_nil, append_nil]
  callbacks := hcallbacks
  posts := by rw [hposts, filterMap_nil, append_nil]

theorem refl (net : NetworkManager (σ × List Post)) : Hands [] net net :=
  of_eq rfl rfl rfl rfl rfl rfl

theorem trans (h₁ : Hands copies net net₁) (h₂ : Hands copies' net₁ net₂) :
    Hands (copies ++ copies') net net₂ where
  host := by rw [h₂.host, h₁.host, filterMap_append, append_assoc]
  direct := by rw [h₂.direct, h₁.direct, filterMap_append, append_assoc]
  unread := h₂.unread.trans h₁.unread
  calls := by
    rw [h₂.calls, h₁.calls, h₁.callbacks, filterMap_append, handedCalls_append, append_assoc]
  callbacks := h₂.callbacks.trans h₁.callbacks
  posts := by rw [h₂.posts, h₁.posts, filterMap_append, append_assoc]

/-- Writing the table hands nothing over. -/
theorem clients (h : Hands copies net net₁) (clients : List ClientEntry) :
    Hands copies net { net₁ with clients := clients } :=
  ⟨h.host, h.direct, h.unread, h.calls, h.callbacks, h.posts⟩

end Hands

section
variable {T : ℕ → ITransport σ} (net : NetworkManager (σ × List Post))

theorem hands_direct (client : ClientId) (data : Bytes) :
    Hands [.direct ⟨client, data⟩] net
      ((net.pushMessage client data).flushToCallbacks client data) := by
  unfold flushToCallbacks
  split_ifs with hdata
  · change net.callbacks.onData = true at hdata
    refine ⟨(append_nil _).symm, rfl, rfl, ?_, rfl, (append_nil _).symm⟩
    show net.calls ++ [AppCall.onData client data] = net.calls ++ handedCalls _ _
    unfold handedCalls
    rw [if_pos hdata]
    rfl
  · change ¬net.callbacks.onData = true at hdata
    refine ⟨(append_nil _).symm, rfl, rfl, ?_, rfl, (append_nil _).symm⟩
    show net.calls = net.calls ++ handedCalls _ _
    unfold handedCalls
    rw [if_neg hdata, append_nil]

theorem hands_host (client : ClientId) (data : Bytes) :
    Hands [.host ⟨client, data⟩] net (net.pushMessageToHostLocal client data) where
  host := rfl
  direct := (append_nil _).symm
  unread := rfl
  calls := by
    show net.calls = net.calls ++ handedCalls net.callbacks []
    rw [handedCalls_nil, append_nil]
  callbacks := rfl
  posts := (append_nil _).symm

theorem hands_posted (t : ℕ) (address : Address) (data : Bytes) (r : PacketReliability) :
    Hands [.posted ⟨t, some address, data, r⟩] net
      { net with world := ((posting T t).sendTo address data r net.world).1 } where
  host := (append_nil _).symm
  direct := (append_nil _).symm
  unread := rfl
  calls := by
    show net.calls = net.calls ++ handedCalls net.callbacks []
    rw [handedCalls_nil, append_nil]
  callbacks := rfl
  posts := rfl

end

/-! ### The copy of each client -/

namespace Session

/-- The way to a client of the table. -/
def copyFor (data : Bytes) (r : PacketReliability) (s : Session) (c : Connection) : Copy :=
  if s.mode = .host ∧ c.id = s.localClientId then .host ⟨c.id, data⟩
  else
    match c.transport with
    | none => .direct ⟨c.id, data⟩
    | some t => .posted ⟨t, some c.address, data, r⟩

/-- One copy for each approved client that the predicate picks. -/
def copies (data : Bytes) (r : PacketReliability) (p : Connection → Bool) (s : Session) :
    List Copy :=
  (s.clients.filter fun c => c.approved && p c).map (s.copyFor data r)

/-- Ids are distinct and not 0, and `local_client_id` is 0 or the id of the host's client. -/
structure Tabled (s : Session) : Prop where
  nonzero : ∀ c ∈ s.clients, c.id ≠ 0
  distinct : (s.clients.map Connection.id).Nodup
  own : s.localClientId = 0 ∨
    s.mode = .host ∧ ∃ c ∈ s.clients, c.id = s.localClientId ∧ c.approved

end Session

section
variable {T : ℕ → ITransport σ} (net : NetworkManager (σ × List Post)) (data : Bytes)
  (r : PacketReliability) (exclude : ClientId)

/-- The clients that the loop of `broadcast` does not skip. -/
def Session.looped (exclude : ClientId) (s : Session) (c : Connection) : Bool :=
  c.id ≠ exclude && c.id ≠ s.localClientId

theorem hands_broadcastOne (c : ClientEntry) :
    Hands ((([c.toConnection].filter fun c => c.approved && net.session.looped exclude c).map
      (net.session.copyFor data r))) net (broadcastOne (posting T) data r exclude c net).1 := by
  have hlooped : (c.toConnection.approved && net.session.looped exclude c.toConnection) =
      (c.approved && (c.id ≠ exclude && c.id ≠ net.localClientId)) := rfl
  unfold broadcastOne
  split_ifs with hskip
  · rw [filter_cons_of_neg (by rw [hlooped]; simp; tauto)]
    exact .refl net
  · obtain ⟨hexclude, happroved, hother⟩ : c.id ≠ exclude ∧ c.approved = true ∧
        c.id ≠ net.localClientId := by
      simpa [not_or] using hskip
    rw [filter_cons_of_pos (by rw [hlooped]; simp [hexclude, happroved, hother])]
    have hcopy : net.session.copyFor data r c.toConnection =
        match c.transport with
        | none => .direct ⟨c.id, data⟩
        | some t => .posted ⟨t, some c.address, data, r⟩ := if_neg fun h => hother h.2
    rw [filter_nil, map_cons, map_nil, hcopy]
    rcases c.transport with _ | t
    · exact hands_direct net c.id data
    · exact hands_posted net t c.address data r

theorem hands_broadcastLoop (cs : List ClientEntry) :
    Hands (((cs.map ClientEntry.toConnection).filter
      fun c => c.approved && net.session.looped exclude c).map (net.session.copyFor data r)) net
      (broadcastLoop (posting T) data r exclude cs net).1 := by
  induction cs generalizing net with
  | nil => exact .refl net
  | cons c cs ih =>
    obtain ⟨hsent, -⟩ := sent_broadcastOne (T := posting T) net data r exclude c
    have hrest := ih (broadcastOne (posting T) data r exclude c net).1
    rw [session_sent net hsent] at hrest
    have hboth := (hands_broadcastOne (T := T) net data r exclude c).trans hrest
    rw [← map_append, ← filter_append] at hboth
    exact hboth

/-- The copy that `broadcast` queues for the host's own client. -/
def Session.hostCopies (data : Bytes) (exclude : ClientId) (s : Session) : List Copy :=
  if s.mode = .host ∧ s.localClientId ≠ 0 ∧ s.localClientId ≠ exclude then
    [.host ⟨s.localClientId, data⟩]
  else []

theorem hands_broadcast (hserving : net.serving) :
    Hands (net.session.hostCopies data exclude ++
      net.session.copies data r (net.session.looped exclude)) net
      (net.broadcast (posting T) data r exclude) := by
  have hhost : (if net.mode = .host ∧ net.localClientId ≠ 0 ∧ net.localClientId ≠ exclude then
      net.pushMessageToHostLocal net.localClientId data else net).session = net.session := by
    split_ifs <;> rfl
  have hpush : Hands (net.session.hostCopies data exclude) net
      (if net.mode = .host ∧ net.localClientId ≠ 0 ∧ net.localClientId ≠ exclude then
        net.pushMessageToHostLocal net.localClientId data else net) := by
    unfold Session.hostCopies
    change Hands (if net.mode = .host ∧ net.localClientId ≠ 0 ∧ net.localClientId ≠ exclude then _
      else _) net _
    split_ifs
    · exact hands_host net net.localClientId data
    · exact .refl net
  unfold broadcast
  rw [if_neg (by simp [hserving])]
  dsimp only
  generalize (if net.mode = .host ∧ net.localClientId ≠ 0 ∧ net.localClientId ≠ exclude then
    net.pushMessageToHostLocal net.localClientId data else net) = pushed at hhost hpush
  have hclients : pushed.clients.map ClientEntry.toConnection = net.session.clients :=
    congrArg Session.clients hhost
  have hloop := hands_broadcastLoop (T := T) pushed data r exclude pushed.clients
  rw [hhost, hclients] at hloop
  exact (hpush.trans hloop).clients _

theorem hands_sendToClient (client : ClientId) (hserving : net.serving)
    (hown : net.mode = .host → client = net.localClientId →
      ∃ c ∈ lookup Connection.id client net.session.clients, c.approved) :
    Hands (((lookup Connection.id client net.session.clients).filter Connection.approved).toList.map
      (net.session.copyFor data r)) net (net.sendToClient (posting T) client data r).1 := by
  unfold sendToClient
  rw [if_neg (by simp [hserving])]
  split_ifs with hhost
  · obtain ⟨c, hc, happroved⟩ := hown hhost.1 hhost.2
    have hid : c.id = client := lookup_key hc
    have hcopy : net.session.copyFor data r c = .host ⟨client, data⟩ := by
      rw [← hid]
      apply if_pos
      exact ⟨hhost.1, hid.trans hhost.2⟩
    rw [Option.mem_def.mp hc, Option.filter_some, if_pos happroved, Option.toList_some, map_cons,
      map_nil, hcopy]
    exact hands_host net client data
  · have hfound : (lookup Connection.id client net.session.clients).filter Connection.approved =
        ((net.findClientById client).filter ClientEntry.approved).map ClientEntry.toConnection := by
      rw [show lookup Connection.id client net.session.clients =
        (net.findClientById client).map ClientEntry.toConnection from
          lookup_map (fun _ => rfl) client net.clients]
      rcases net.findClientById client with _ | entry
      · rfl
      · rw [Option.map_some, Option.filter_some, Option.filter_some]
        show (if entry.approved = true then _ else _) = _
        split_ifs <;> rfl
    rw [hfound]
    rcases hentry : (net.findClientById client).filter ClientEntry.approved with _ | entry
    · exact .refl net
    · have hid : entry.id = client := lookup_key (Option.filter_eq_some_iff.mp hentry).1
      have hcopy : net.session.copyFor data r entry.toConnection =
          match entry.transport with
          | none => .direct ⟨entry.id, data⟩
          | some t => .posted ⟨t, some entry.address, data, r⟩ :=
        if_neg fun h => hhost ⟨h.1, hid.symm.trans h.2⟩
      rw [Option.map_some, Option.toList_some, map_cons, map_nil, hcopy]
      dsimp only
      rcases entry.transport with _ | t
      · rw [hid]
        exact hands_direct net client data
      · have hposted := hands_posted (T := T) net t entry.address data r
        dsimp only
        split_ifs
        · exact hposted.clients _
        · exact hposted

end

/-! ### Every approved client once -/

namespace Session

variable {s : Session}

/-- The client under an id and those under others are all there are. -/
theorem perm_lookup (hdistinct : (s.clients.map Connection.id).Nodup) (id : ClientId) :
    ((lookup Connection.id id s.clients).filter Connection.approved).toList ++
      s.clients.filter (fun c => c.approved && c.id ≠ id) ~ s.clients.filter Connection.approved := by
  rcases hfind : lookup Connection.id id s.clients with _ | c
  · have hall : ∀ c ∈ s.clients, (c.approved && c.id ≠ id) = c.approved := by
      intro c hc
      have hne : c.id ≠ id := by simpa using List.find?_eq_none.mp hfind c hc
      simp [hne]
    rw [filter_congr hall]
    exact Perm.refl _
  · obtain rfl : c.id = id := lookup_key hfind
    have hperm := (perm_cons_filter hdistinct (lookup_mem hfind)).filter Connection.approved
    rw [filter_cons, filter_filter] at hperm
    rw [Option.filter_some]
    split_ifs at hperm ⊢
    · exact hperm
    · exact hperm

theorem Tabled.perm_broadcast (h : s.Tabled) (data : Bytes) (r : PacketReliability)
    (exclude : ClientId) :
    s.hostCopies data exclude ++ s.copies data r (s.looped exclude) ~
      s.copies data r fun c => c.id ≠ exclude := by
  unfold hostCopies copies
  rcases h.own with hzero | ⟨hmode, own, hown, hid, happroved⟩
  · -- nobody goes by the id 0
    have hall : ∀ c ∈ s.clients, (c.approved && s.looped exclude c) =
        (c.approved && c.id ≠ exclude) := by
      intro c hc
      have hne : c.id ≠ s.localClientId := hzero ▸ h.nonzero c hc
      simp [looped, hne]
    rw [if_neg fun hhost => hhost.2.1 hzero, filter_congr hall]
    exact Perm.refl _
  · by_cases hexclude : s.localClientId = exclude
    · have hall : ∀ c ∈ s.clients, (c.approved && s.looped exclude c) =
          (c.approved && c.id ≠ exclude) := by
        intro c _
        simp [looped, hexclude]
      rw [if_neg fun hhost => hhost.2.2 hexclude, filter_congr hall]
      exact Perm.refl _
    · have hcopy : s.copyFor data r own = .host ⟨s.localClientId, data⟩ := by
        rw [← hid]
        exact if_pos ⟨hmode, hid⟩
      have hmem : own ∈ s.clients.filter fun c => c.approved && c.id ≠ exclude := by
        rw [mem_filter]
        exact ⟨hown, by simp [happroved, hid, hexclude]⟩
      have hdistinct : ((s.clients.filter fun c => c.approved && c.id ≠ exclude).map
          Connection.id).Nodup := h.distinct.sublist (filter_sublist.map _)
      have hperm := perm_cons_filter hdistinct hmem
      rw [filter_filter, hid] at hperm
      have hall : ∀ c ∈ s.clients, (c.approved && s.looped exclude c) =
          (decide (c.id ≠ s.localClientId) && (c.approved && c.id ≠ exclude)) := by
        intro c _
        unfold looped
        rw [Bool.and_comm (decide (c.id ≠ exclude)), Bool.and_left_comm]
      rw [if_pos ⟨hmode, hid ▸ h.nonzero own hown, hexclude⟩, ← hcopy, filter_congr hall]
      exact hperm.map _

end Session

section
variable {T : ℕ → ITransport σ} {net : NetworkManager (σ × List Post)}

theorem broadcast_partition (h : net.session.Tabled) (hserving : net.serving) (data : Bytes)
    (r : PacketReliability) (exclude : ClientId) :
    ∃ copies, Hands copies net (net.broadcast (posting T) data r exclude) ∧
      copies ~ net.session.copies data r fun c => c.id ≠ exclude :=
  ⟨_, hands_broadcast net data r exclude hserving, h.perm_broadcast data r exclude⟩

/-- What is sent to one client and what is sent to the others. -/
theorem sendToClient_broadcast (h : net.session.Tabled) (hserving : net.serving) (data : Bytes)
    (r : PacketReliability) {client : ClientId} (hclient : client ≠ 0) :
    ∃ copies, Hands copies net
        ((net.sendToClient (posting T) client data r).1.broadcast (posting T) data r client) ∧
      copies ~ net.session.copies data r fun _ => true := by
  have hsent := sent_sendToClient (T := posting T) net client data r
  have hsession := session_sent net hsent
  have hown : net.mode = .host → client = net.localClientId →
      ∃ c ∈ lookup Connection.id client net.session.clients, c.approved := by
    intro _ heq
    rcases h.own with hzero | ⟨-, own, hmem, hid, happroved⟩
    · exact absurd (heq.trans hzero) hclient
    · obtain rfl : own.id = client := hid.trans heq.symm
      exact ⟨own, lookup_of_mem h.distinct hmem, happroved⟩
  have htabled : (net.sendToClient (posting T) client data r).1.session.Tabled := hsession ▸ h
  have hstill : (net.sendToClient (posting T) client data r).1.serving := by
    rw [serving, hsent.mode]
    exact hserving
  obtain ⟨others, hothers, hperm⟩ :=
    broadcast_partition (T := T) htabled hstill data r client
  rw [hsession] at hperm
  refine ⟨_, (hands_sendToClient net data r client hserving hown).trans hothers, ?_⟩
  refine (hperm.append_left _).trans ?_
  unfold Session.copies
  rw [← map_append]
  have hall : (net.session.clients.filter fun c => c.approved && true) =
      net.session.clients.filter Connection.approved := by simp
  rw [hall]
  exact (Session.perm_lookup h.distinct client).map _

/-- A call to the owner of an entity and one to the others. -/
theorem invokeOwner_invokeNotOwner (h : net.session.Tabled) (hserving : net.serving)
    {rpc : RpcManager} (hrpc : net.rpcManager = some rpc) (hnet : rpc.hasNet)
    (hentities : rpc.hasEntityMgr) (entity : NetworkId) (rpcId : UInt16) {args : Bytes}
    (hargs : rpc.maxPayloadSize > 0 → args.length ≤ rpc.maxPayloadSize) :
    ∃ copies, Hands copies net
        ((net.invokeRpc (posting T) (.owner entity) rpcId args).invokeRpc (posting T)
          (.notOwner entity) rpcId args) ∧
      copies ~ net.session.copies (rpc.buildRpcPacket rpcId args) .reliableOrdered
        fun _ => true := by
  have hpacket : rpc.buildRpcPacket rpcId args ≠ [] := by
    unfold RpcManager.buildRpcPacket
    rw [if_neg fun hlong => not_lt.mpr (hargs hlong.1) hlong.2]
    exact cons_ne_nil _ _
  have hnotOwner : ∀ n : NetworkManager (σ × List Post), n.rpcManager = net.rpcManager →
      n.entityManager = net.entityManager →
      n.invokeRpc (posting T) (.notOwner entity) rpcId args =
        n.broadcast (posting T) (rpc.buildRpcPacket rpcId args) .reliableOrdered
          ((net.entityManager.map fun em => em.owner entity).getD 0) := by
    intro n hr he
    unfold invokeRpc
    rw [hr, hrpc, he]
    simp [hnet, hentities, hpacket]
  have howner : net.invokeRpc (posting T) (.owner entity) rpcId args =
      if (net.entityManager.map fun em => em.owner entity).getD 0 = 0 then net
      else (net.sendToClient (posting T) ((net.entityManager.map fun em => em.owner entity).getD 0)
        (rpc.buildRpcPacket rpcId args) .reliableOrdered).1 := by
    unfold invokeRpc sendRpc
    rw [hrpc]
    simp [hnet, hentities, hpacket, hserving]
  generalize (net.entityManager.map fun em => em.owner entity).getD 0 = owner at hnotOwner howner
  have hsent := sent_invokeRpc (T := posting T) net (.owner entity) rpcId args
  rw [hnotOwner _ hsent.rpcManager hsent.entityManager, howner]
  split_ifs with hzero
  · -- 0 is the server, and no client's id
    obtain ⟨copies, hhands, hperm⟩ := broadcast_partition (T := T) h hserving
      (rpc.buildRpcPacket rpcId args) .reliableOrdered owner
    have hall : ∀ c ∈ net.session.clients, (c.approved && decide (c.id ≠ owner)) =
        (c.approved && true) := by
      intro c hc
      have hne : c.id ≠ owner := hzero ▸ h.nonzero c hc
      simp [hne]
    refine ⟨copies, hhands, ?_⟩
    unfold Session.copies at hperm ⊢
    rwa [filter_congr hall] at hperm
  · exact sendToClient_broadcast h hserving _ _ hzero

end

/-! ### The tables of a run -/

/-- Only a client and a host go by an id. -/
def Session.Named (s : Session) : Prop :=
  s.localClientId ≠ 0 → s.mode = .client ∨ s.mode = .host

theorem Session.Named.launch {s : Session} (h : s.Named) (config : Config) :
    (s.launch config).localClientId = 0 := by
  unfold Session.launch
  dsimp only
  split_ifs with hmode
  · by_contra hne
    have hnone : s.mode = .client ∨ s.mode = .host := h hne
    rw [hmode] at hnone
    rcases hnone with hnone | hnone
    · cases hnone
    · cases hnone
  · rfl

section
variable {τ : Type} {T : ℕ → ITransport τ} {net : NetworkManager τ} {s : Session}

theorem named_packetEffect {env : PacketEnv} {t : ℕ} {buffer : Bytes} {sender : Address}
    (h : net.session.Named) (he : net.PacketEffect env t buffer sender s) : s.Named := by
  cases he with
  | keep => exact h
  | enroll _ => exact h
  | drop _ _ _ => exact h
  | accept hjoining _ _ _ =>
    intro _
    show net.mode = .client ∨ net.mode = .host
    simpa [joining] using hjoining
  | leave _ _ => exact fun hne => absurd rfl hne

theorem named_callEffect {call : Call τ} (h : net.session.Named) (he : net.CallEffect call s) :
    s.Named := by
  cases he with
  | keep => exact h
  | close _ => exact fun hne => absurd rfl hne
  | fail =>
    rename_i config udp
    exact fun hne => absurd (h.launch config) hne
  | launch => exact fun hne => absurd (h.launch _) hne
  | host hmode _ => exact fun _ => .inr hmode
  | addLocal _ _ => exact h
  | leave _ => exact fun hne => absurd rfl hne
  | drop _ => exact h

theorem named_run {run : List (Call τ)} {net' : NetworkManager τ} (hlocal : net.localClientId = 0)
    (h : Run.exec (step T) net run = some net') : net'.session.Named := by
  have hstart : net.session.Named := fun hne => absurd hlocal hne
  have hall : Run.Admits (step T) (fun _ _ => True) net run :=
    .of_forall (fun _ _ _ => trivial) net
  refine (history_invariant (T := T) (I := fun n => n.session.Named) ?_ ?_ ?_ ?_ h hall ?_ hstart).2
  · exact fun n world hn => hn
  · exact fun n call n' hn _ hpoll hstep => named_callEffect hn (callEffect_step hstep hpoll)
  · exact fun n hn => hn
  · intro n env hn
    rwa [session_finishPoll]
  · intro p _ hn
    have hbefore : (p.before T).session.Named := hn
    exact named_packetEffect hbefore
      (packetEffect_handlePacket p.env p.transport p.buffer p.sender)

/-- The table of a server, and of a host whose id is 0 or the id of an entry. -/
theorem tabled_run {run : List (Call τ)} {net' : NetworkManager τ} (hmode : net.mode = .none)
    (hclients : net.clients = []) (hlocal : net.localClientId = 0)
    (h : Run.exec (step T) net run = some net') (hfits : Run.Admits (step T) Fits net run)
    (hserving : net'.serving)
    (hown : net'.localClientId = 0 ∨ ∃ c ∈ net'.clients, c.id = net'.localClientId) :
    net'.session.Tabled := by
  obtain ⟨-, hsound, -⟩ := clientTable_run hmode hclients h hfits
  refine ⟨hsound.nonzero, hsound.distinct, ?_⟩
  by_cases hzero : net'.localClientId = 0
  · exact .inl hzero
  · obtain ⟨c, hc, hid⟩ := hown.resolve_left hzero
    have hmem : c.toConnection ∈ net'.session.clients := mem_map_of_mem hc
    refine .inr ⟨?_, c.toConnection, hmem, hid, hsound.approved _ hmem⟩
    rcases named_run hlocal h hzero with hclient | hhost
    · have hmode' : net'.mode = .client := hclient
      simp [serving, hmode'] at hserving
    · exact hhost

end

/-- A broadcast goes to each approved client but the excluded one, and a call to the owner of an
entity with one to the others goes to each approved client: one copy each, and no other. -/
def Partitions (T : ℕ → ITransport σ) (net : NetworkManager (σ × List Post)) : Prop :=
  (∀ data r exclude, ∃ copies, Hands copies net (net.broadcast (posting T) data r exclude) ∧
    copies ~ net.session.copies data r fun c => c.id ≠ exclude) ∧
  ∀ rpc ∈ net.rpcManager, rpc.hasNet → rpc.hasEntityMgr → ∀ entity rpcId args,
    (rpc.maxPayloadSize > 0 → args.length ≤ rpc.maxPayloadSize) →
    ∃ copies, Hands copies net
        ((net.invokeRpc (posting T) (.owner entity) rpcId args).invokeRpc (posting T)
          (.notOwner entity) rpcId args) ∧
      copies ~ net.session.copies (rpc.buildRpcPacket rpcId args) .reliableOrdered fun _ => true

/-- The routes partition the clients of every table with distinct ids, and so of every table of a
run. -/
theorem routing_partition (T : ℕ → ITransport σ) :
    (∀ net : NetworkManager (σ × List Post), net.session.Tabled → net.serving →
      net.Partitions T) ∧
    ∀ (net net' : NetworkManager (σ × List Post)) (run : List (Call (σ × List Post))),
      net.mode = .none → net.clients = [] → net.localClientId = 0 →
      Run.exec (step (posting T)) net run = some net' →
      Run.Admits (step (posting T)) Fits net run → net'.serving →
      (net'.localClientId = 0 ∨ ∃ c ∈ net'.clients, c.id = net'.localClientId) →
      net'.Partitions T := by
  have hall : ∀ net : NetworkManager (σ × List Post), net.session.Tabled → net.serving →
      net.Partitions T := by
    intro net h hserving
    refine ⟨broadcast_partition h hserving, ?_⟩
    intro rpc hrpc hnet hentities entity rpcId args hargs
    exact invokeOwner_invokeNotOwner h hserving hrpc hnet hentities entity rpcId hargs
  refine ⟨hall, fun net net' run hmode hclients hlocal h hfits hserving hown => ?_⟩
  exact hall net' (tabled_run hmode hclients hlocal h hfits hserving hown) hserving

/-- A host that has a local client and lets in a remote one. -/
def gatherRun : List (Call (LoopbackHub × List Post)) :=
  [.start { mode := .host, bindAddress := LoopbackHub.serverAddr } 0, .addLocalClient,
    .network (LoopbackHub.arrived [sysPacket SysType.connectRequest []], []),
    .poll { now := 0, format := zeroFormat, packets := [packetEnv] }]

/-- The host's client is number 1; the local client is excluded. -/
theorem routing_partition_gather : ∃ net', Run.exec (step (posting loopback))
    { world := ({}, []) } gatherRun = some net' ∧
    ∃ copies, Hands copies net' (net'.broadcast (posting loopback) [7] .unreliable 2) ∧
      copies ~ [.host ⟨1, [7]⟩, .posted ⟨0, some LoopbackHub.clientAddr, [7], .unreliable⟩] := by
  have hexec : (Run.exec (step (posting loopback)) { world := ({}, []) } gatherRun).map
      (fun net => (net.mode, net.localClientId, net.session.clients)) =
        some (.host, 1, [.local 1, .local 2, ⟨3, LoopbackHub.clientAddr, some 0, true⟩]) := by
    decide +kernel
  obtain ⟨net', h, hsession⟩ := Option.map_eq_some_iff.mp hexec
  obtain ⟨hmode, hid, hclients⟩ : net'.mode = .host ∧ net'.localClientId = 1 ∧
      net'.session.clients = [.local 1, .local 2, ⟨3, LoopbackHub.clientAddr, some 0, true⟩] := by
    simpa using hsession
  have hfits : Run.Admits (step (posting loopback)) Fits { world := ({}, []) } gatherRun := by
    refine ⟨by decide, fun started hstarted => ⟨?_, fun _ _ => ⟨trivial, fun _ _ => ⟨trivial,
      fun _ _ => trivial⟩⟩⟩⟩
    obtain rfl := Option.some.inj hstarted
    decide +kernel
  have hserving : net'.serving := by simp [serving, hmode]
  have hown : ∃ c ∈ net'.clients, c.id = net'.localClientId := by
    have hmem : Connection.local 1 ∈ net'.session.clients := by simp [hclients]
    obtain ⟨c, hc, heq⟩ := mem_map.mp hmem
    exact ⟨c, hc, (congrArg Connection.id heq).trans hid.symm⟩
  obtain ⟨copies, hhands, hperm⟩ := ((routing_partition loopback).2 _ net' gatherRun rfl rfl rfl h
    hfits hserving (.inr hown)).1 [7] .unreliable 2
  refine ⟨net', h, copies, hhands, hperm.trans ?_⟩
  have hcopies : net'.session.copies [7] .unreliable (fun c => c.id ≠ 2) =
      [.host ⟨1, [7]⟩, .posted ⟨0, some LoopbackHub.clientAddr, [7], .unreliable⟩] := by
    unfold Session.copies Session.copyFor
    rw [hclients, show net'.session.mode = .host from hmode,
      show net'.session.localClientId = 1 from hid]
    decide
  rw [hcopies]

end NetworkManager

end CampelloNet
