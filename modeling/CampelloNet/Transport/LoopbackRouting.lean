import CampelloNet.Lib.Run
import CampelloNet.Transport.Loopback

/-!
# Routing of the loopback hub

The addresses of servers and of clients are one name space, in which clients are looked up first, and
nothing keeps a second transport from an address that is taken. As long as no call brings two
transports under one address, a client's messages reach its server and the server's answers the
client, whatever the other transports of the hub do.
-/

namespace CampelloNet.Transport

open Lib Lib.Run Loopback

namespace LoopbackHub

/-! ### Registrations -/

/-- The transport bound to an address. -/
def serverAt (hub : LoopbackHub) (addr : Address) : Option ℕ :=
  (lookup Prod.fst addr hub.servers).map Prod.snd

/-- The client with an address. -/
def clientAt (hub : LoopbackHub) (addr : Address) : Option ℕ :=
  (lookup Prod.fst addr hub.clients).map Prod.snd

/-- The address that the next client gets. -/
def nextClientAddr (hub : LoopbackHub) : Address :=
  .ofIPv4 127 0 0 1 (freePort hub.clients (2 ^ 16) hub.nextPort)

/-- A call of one of the transports on the hub. -/
inductive Call
  | bind (address : Address)
  | connect (address : Address)
  | disconnect
  | send (data : Bytes) (reliability : PacketReliability)
  | sendTo (address : Address) (data : Bytes) (reliability : PacketReliability)
  deriving DecidableEq

/-- Transport `call.1` makes a call. -/
def step (hub : LoopbackHub) (call : ℕ × Call) : Option LoopbackHub :=
  some <| match call.2 with
  | .bind address => (LoopbackTransport.bind call.1 address hub).1
  | .connect address => (LoopbackTransport.connect call.1 address hub).1
  | .disconnect => LoopbackTransport.disconnect call.1 hub
  | .send data r => (LoopbackTransport.send call.1 data r hub).1
  | .sendTo address data r => (LoopbackTransport.sendTo call.1 address data r hub).1

/-- No call brings two transports under one address: a transport that is not connected binds to an
address that nobody has, the address that a new client gets is nobody's, and a client that lost its
server closes before its address is given to another. -/
def Clear (hub : LoopbackHub) (call : ℕ × Call) : Prop :=
  match call.2 with
  | .bind address => (hub.transports call.1).bound = false →
      (hub.transports call.1).connected = false ∧ hub.clientAt address = none ∧
        hub.serverAt address = none
  | .connect address => (hub.transports call.1).bound = false →
      (hub.transports call.1).connected = false → hub.serverAt address ≠ none →
      hub.clientAt hub.nextClientAddr = none ∧ hub.serverAt hub.nextClientAddr = none
  | .disconnect => (hub.transports call.1).connected = true →
      ∀ client ∈ hub.clientAt (hub.transports call.1).localAddr, client = call.1
  | _ => True

/-- What the client at an address sends is enqueued at the server, with that address as the sender, and
what the server sends to the address is enqueued at the client. -/
structure Routes (hub : LoopbackHub) (client server : ℕ) (clientAddr : Address) : Prop where
  send : ∀ data r, (LoopbackTransport.send client data r hub).1 =
    hub.enqueuePending server ⟨clientAddr, data, r⟩
  sendTo : ∀ data r, (LoopbackTransport.sendTo server clientAddr data r hub).1 =
    hub.enqueuePending client ⟨(hub.transports server).localAddr, data, r⟩

/-! ### The invariant -/

/-- Each address belongs to one transport, and each registration to a transport that knows of it. -/
structure Wired (hub : LoopbackHub) : Prop where
  instant : ∀ id, (hub.transports id).latencySec = 0 ∧ (hub.transports id).packetLossRatio = 0
  bound : ∀ id, (hub.transports id).bound = true →
    hub.serverAt (hub.transports id).localAddr = some id ∧ (hub.transports id).connected = false
  server : ∀ addr id, hub.serverAt addr = some id →
    (hub.transports id).bound = true ∧ (hub.transports id).localAddr = addr
  client : ∀ addr id, hub.clientAt addr = some id →
    (hub.transports id).connected = true ∧ (hub.transports id).localAddr = addr
  apart : ∀ addr id, hub.serverAt addr = some id → hub.clientAt addr = none
  link : ∀ clientAddr serverAddr, (clientAddr, serverAddr) ∈ hub.clientToServer →
    ∃ id, hub.clientAt clientAddr = some id ∧ (hub.transports id).remoteAddr = serverAddr

/-- The client has its address, and the server is bound to the address it connected to. -/
structure Linked (hub : LoopbackHub) (client server : ℕ) (clientAddr : Address) : Prop where
  connected : (hub.transports client).connected = true
  address : (hub.transports client).localAddr = clientAddr
  registered : hub.clientAt clientAddr = some client
  bound : (hub.transports server).bound = true
  remote : (hub.transports client).remoteAddr = (hub.transports server).localAddr

theorem findTransport_eq (hub : LoopbackHub) (addr : Address) :
    hub.findTransport addr = (hub.clientAt addr).or (hub.serverAt addr) := by
  unfold findTransport clientAt serverAt
  cases lookup Prod.fst addr hub.clients <;> rfl

theorem Wired.not_bound {hub : LoopbackHub} (h : Wired hub) {id : ℕ}
    (hc : (hub.transports id).connected = true) : (hub.transports id).bound = false := by
  by_contra hb
  have := (h.bound id (by simpa using hb)).2
  rw [hc] at this
  cases this

theorem Wired.shouldDrop {hub : LoopbackHub} (h : Wired hub) (id : ℕ) :
    LoopbackTransport.shouldDrop id hub = (hub, false) := if_pos (h.instant id).2.le

theorem Wired.routes {hub : LoopbackHub} (h : Wired hub) {client server : ℕ} {clientAddr : Address}
    (hl : Linked hub client server clientAddr) : Routes hub client server clientAddr := by
  have hserver := (h.bound server hl.bound).1
  constructor
  · intro data r
    have hfind : hub.findTransport (hub.transports client).remoteAddr = some server := by
      rw [findTransport_eq, hl.remote, h.apart _ _ hserver, hserver]
      rfl
    unfold LoopbackTransport.send
    rw [h.shouldDrop]
    dsimp only
    rw [if_neg (by decide), if_neg (by rw [(h.instant client).1]; exact lt_irrefl 0),
      h.not_bound hl.connected, if_neg (by decide), if_pos hl.connected, hl.address]
    unfold deliver
    rw [hfind]
  · intro data r
    have hfind : hub.findTransport clientAddr = some client := by
      rw [findTransport_eq, hl.registered]
      rfl
    unfold LoopbackTransport.sendTo
    rw [if_neg (by rw [hl.bound]; decide), h.shouldDrop]
    dsimp only
    rw [if_neg (by decide), if_neg (by rw [(h.instant server).1]; exact lt_irrefl 0)]
    unfold deliver
    rw [hfind]

/-! ### Sending -/

/-- Two hubs that differ in what is enqueued only. -/
structure SameLinks (hub hub' : LoopbackHub) : Prop where
  servers : hub'.servers = hub.servers
  clients : hub'.clients = hub.clients
  clientToServer : hub'.clientToServer = hub.clientToServer
  bound : ∀ id, (hub'.transports id).bound = (hub.transports id).bound
  connected : ∀ id, (hub'.transports id).connected = (hub.transports id).connected
  localAddr : ∀ id, (hub'.transports id).localAddr = (hub.transports id).localAddr
  remoteAddr : ∀ id, (hub'.transports id).remoteAddr = (hub.transports id).remoteAddr
  latencySec : ∀ id, (hub'.transports id).latencySec = (hub.transports id).latencySec
  packetLossRatio : ∀ id, (hub'.transports id).packetLossRatio = (hub.transports id).packetLossRatio

namespace SameLinks

variable {hub hub' hub'' : LoopbackHub}

theorem refl (hub : LoopbackHub) : SameLinks hub hub :=
  ⟨rfl, rfl, rfl, fun _ => rfl, fun _ => rfl, fun _ => rfl, fun _ => rfl, fun _ => rfl, fun _ => rfl⟩

theorem trans (h : SameLinks hub hub') (h' : SameLinks hub' hub'') : SameLinks hub hub'' :=
  ⟨h'.servers.trans h.servers, h'.clients.trans h.clients, h'.clientToServer.trans h.clientToServer,
    fun id => (h'.bound id).trans (h.bound id), fun id => (h'.connected id).trans (h.connected id),
    fun id => (h'.localAddr id).trans (h.localAddr id),
    fun id => (h'.remoteAddr id).trans (h.remoteAddr id),
    fun id => (h'.latencySec id).trans (h.latencySec id),
    fun id => (h'.packetLossRatio id).trans (h.packetLossRatio id)⟩

theorem serverAt (h : SameLinks hub hub') (addr : Address) : hub'.serverAt addr = hub.serverAt addr := by
  unfold LoopbackHub.serverAt
  rw [h.servers]

theorem clientAt (h : SameLinks hub hub') (addr : Address) : hub'.clientAt addr = hub.clientAt addr := by
  unfold LoopbackHub.clientAt
  rw [h.clients]

theorem wired (h : SameLinks hub hub') (hw : Wired hub) : Wired hub' := by
  constructor
  · intro id
    rw [h.latencySec, h.packetLossRatio]
    exact hw.instant id
  · intro id
    rw [h.bound, h.localAddr, h.serverAt, h.connected]
    exact hw.bound id
  · intro addr id
    rw [h.serverAt, h.bound, h.localAddr]
    exact hw.server addr id
  · intro addr id
    rw [h.clientAt, h.connected, h.localAddr]
    exact hw.client addr id
  · intro addr id
    rw [h.serverAt, h.clientAt]
    exact hw.apart addr id
  · intro clientAddr serverAddr
    simp only [h.clientToServer, h.clientAt, h.remoteAddr]
    exact hw.link clientAddr serverAddr

theorem linked (h : SameLinks hub hub') {client server : ℕ} {clientAddr : Address}
    (hl : Linked hub client server clientAddr) : Linked hub' client server clientAddr :=
  ⟨(h.connected _).trans hl.connected, (h.localAddr _).trans hl.address,
    (h.clientAt _).trans hl.registered, (h.bound _).trans hl.bound,
    (h.remoteAddr _).trans (hl.remote.trans (h.localAddr _).symm)⟩

theorem enqueuePending (hub : LoopbackHub) (id : ℕ) (pkt : Packet) :
    SameLinks hub (hub.enqueuePending id pkt) := by
  unfold LoopbackHub.enqueuePending LoopbackHub.set
  refine ⟨rfl, rfl, rfl, ?_, ?_, ?_, ?_, ?_, ?_⟩ <;> intro other <;> dsimp only <;>
    by_cases heq : other = id
  all_goals first
    | rw [heq, Function.update_self]
    | rw [Function.update_of_ne heq]

theorem deliver (hub : LoopbackHub) (addr : Address) (pkt : Packet) :
    SameLinks hub (hub.deliver addr pkt) := by
  unfold LoopbackHub.deliver
  split
  · exact refl hub
  · exact enqueuePending hub _ pkt

theorem broadcast (hub : LoopbackHub) (serverAddr : Address) (pkt : Packet) :
    SameLinks hub (hub.broadcast serverAddr pkt) := by
  unfold LoopbackHub.broadcast
  generalize hub.clientToServer.filter _ = links
  induction links generalizing hub with
  | nil => exact refl hub
  | cons link links ih =>
    rw [List.foldl_cons]
    split
    · exact ih hub
    · exact (enqueuePending hub _ pkt).trans (ih _)

theorem send (hw : Wired hub) (id : ℕ) (data : Bytes) (r : PacketReliability) :
    SameLinks hub (LoopbackTransport.send id data r hub).1 := by
  unfold LoopbackTransport.send
  rw [hw.shouldDrop]
  dsimp only
  rw [if_neg (by decide), if_neg (by rw [(hw.instant id).1]; exact lt_irrefl 0)]
  split
  · exact broadcast hub _ _
  · split
    · exact deliver hub _ _
    · exact refl hub

theorem sendTo (hw : Wired hub) (id : ℕ) (address : Address) (data : Bytes) (r : PacketReliability) :
    SameLinks hub (LoopbackTransport.sendTo id address data r hub).1 := by
  unfold LoopbackTransport.sendTo
  split
  · exact refl hub
  · rw [hw.shouldDrop]
    dsimp only
    rw [if_neg (by decide), if_neg (by rw [(hw.instant id).1]; exact lt_irrefl 0)]
    exact deliver hub _ _

end SameLinks

/-! ### Binding, connecting and closing -/

variable {hub : LoopbackHub} {id : ℕ} {addr : Address}

@[simp] theorem serverAt_set (hub : LoopbackHub) (id : ℕ) (impl : Impl) :
    (hub.set id impl).serverAt = hub.serverAt := rfl

@[simp] theorem clientAt_set (hub : LoopbackHub) (id : ℕ) (impl : Impl) :
    (hub.set id impl).clientAt = hub.clientAt := rfl

theorem transports_set (hub : LoopbackHub) (id other : ℕ) (impl : Impl) :
    (hub.set id impl).transports other = if other = id then impl else hub.transports other := by
  unfold LoopbackHub.set
  exact Function.update_apply _ _ _ _

theorem transports_bindServer (hub : LoopbackHub) (addr : Address) (id : ℕ) :
    (hub.bindServer addr id).transports = hub.transports := rfl

theorem serverAt_bindServer (hub : LoopbackHub) (addr addr' : Address) (id : ℕ) :
    (hub.bindServer addr id).serverAt addr' = if addr' = addr then some id else hub.serverAt addr' := by
  unfold bindServer serverAt
  dsimp only
  split
  · next heq =>
    rw [heq]
    exact congrArg (Option.map Prod.snd) (lookup_upsert_self (addr, id) hub.servers)
  · next hne => exact congrArg (Option.map Prod.snd) (lookup_upsert_ne (addr, id) _ (Ne.symm hne))

theorem serverAt_unbindServer (hub : LoopbackHub) (addr addr' : Address) :
    (hub.unbindServer addr).serverAt addr' = if addr' = addr then none else hub.serverAt addr' := by
  unfold unbindServer serverAt
  dsimp only
  rw [lookup_filter_key (fun k => decide (k ≠ addr))]
  by_cases heq : addr' = addr <;> simp [heq]

theorem clientAt_unbindServer (hub : LoopbackHub) (addr addr' : Address) :
    (hub.unbindServer addr).clientAt addr' =
      if (addr', addr) ∈ hub.clientToServer then none else hub.clientAt addr' := by
  unfold unbindServer clientAt
  dsimp only
  rw [lookup_filter_key (fun k => decide ((k, addr) ∉ hub.clientToServer))]
  by_cases hmem : (addr', addr) ∈ hub.clientToServer <;> simp [hmem]

theorem clientAt_disconnectClient (hub : LoopbackHub) (addr addr' : Address) :
    (hub.disconnectClient addr).clientAt addr' = if addr' = addr then none else hub.clientAt addr' := by
  unfold disconnectClient clientAt
  dsimp only
  rw [lookup_filter_key (fun k => decide (k ≠ addr))]
  by_cases heq : addr' = addr <;> simp [heq]

theorem Wired.bind (hw : Wired hub) (hclear : Clear hub (id, .bind addr)) :
    Wired (LoopbackTransport.bind id addr hub).1 := by
  unfold LoopbackTransport.bind
  dsimp only
  split
  · exact hw
  · next hb =>
    rw [Bool.not_eq_true] at hb
    obtain ⟨hconn, hclient, hserver⟩ := hclear hb
    constructor
    · intro other
      rw [transports_set]
      split
      · exact hw.instant id
      · exact hw.instant other
    · intro other
      rw [transports_set, serverAt_set, serverAt_bindServer]
      split
      · next heq =>
        intro _
        exact ⟨by rw [if_pos rfl, heq], hconn⟩
      · intro hbound
        obtain ⟨hat, hnot⟩ := hw.bound other hbound
        refine ⟨(if_neg ?_).trans hat, hnot⟩
        intro heq
        have hnone : hub.serverAt (hub.transports other).localAddr = none := heq ▸ hserver
        rw [hat] at hnone
        cases hnone
    · intro addr' other
      rw [transports_set, serverAt_set, serverAt_bindServer]
      split
      · next heq =>
        intro hat
        cases hat
        rw [if_pos rfl, heq]
        exact ⟨rfl, rfl⟩
      · intro hat
        rw [if_neg]
        · exact hw.server addr' other hat
        · rintro rfl
          have := (hw.server addr' other hat).1
          rw [hb] at this
          cases this
    · intro addr' other hat
      rw [transports_set, if_neg]
      · exact hw.client addr' other hat
      · rintro rfl
        have := (hw.client addr' other hat).1
        rw [hconn] at this
        cases this
    · intro addr' other
      rw [serverAt_set, serverAt_bindServer, clientAt_set]
      split
      · next heq =>
        intro _
        rw [heq]
        exact hclient
      · exact hw.apart addr' other
    · intro clientAddr serverAddr hmem
      obtain ⟨client, hat, hremote⟩ := hw.link clientAddr serverAddr hmem
      refine ⟨client, hat, ?_⟩
      rw [transports_set]
      split
      · next heq => exact heq ▸ hremote
      · exact hremote

/-- The hub after a client has connected. -/
def connectedAs (hub : LoopbackHub) (serverAddr : Address) (id : ℕ) : LoopbackHub :=
  (hub.connectClient serverAddr id).1.set id { hub.transports id with
    localAddr := hub.nextClientAddr, remoteAddr := serverAddr, connected := true }

theorem connect_cases (hub : LoopbackHub) (id : ℕ) (addr : Address) :
    LoopbackTransport.connect id addr hub = (hub, false) ∨
      (hub.transports id).bound = false ∧ (hub.transports id).connected = false ∧
        hub.serverAt addr ≠ none ∧
        LoopbackTransport.connect id addr hub = (hub.connectedAs addr id, true) := by
  unfold LoopbackTransport.connect
  dsimp only
  split
  · exact .inl rfl
  · next hfree =>
    rw [not_or, Bool.not_eq_true, Bool.not_eq_true] at hfree
    unfold connectedAs connectClient serverAt
    rcases hserver : lookup Prod.fst addr hub.servers with _ | server
    · exact .inl rfl
    · exact .inr ⟨hfree.2, hfree.1, by simp, rfl⟩

theorem clientAt_connectClient {serverAddr : Address} (h : hub.serverAt serverAddr ≠ none) (id : ℕ)
    (addr' : Address) : (hub.connectClient serverAddr id).1.clientAt addr' =
      if addr' = hub.nextClientAddr then some id else hub.clientAt addr' := by
  have hserver : ¬(lookup Prod.fst serverAddr hub.servers).isNone := by
    intro hnone
    exact h (by unfold serverAt; rw [Option.isNone_iff_eq_none.mp hnone]; rfl)
  unfold connectClient clientAt
  rw [if_neg hserver]
  dsimp only
  split
  · next heq =>
    rw [heq]
    exact congrArg (Option.map Prod.snd) (lookup_upsert_self (hub.nextClientAddr, id) hub.clients)
  · next hne =>
    exact congrArg (Option.map Prod.snd) (lookup_upsert_ne (hub.nextClientAddr, id) _ (Ne.symm hne))

theorem connectClient_frame (hub : LoopbackHub) (serverAddr : Address) (id : ℕ) :
    (hub.connectClient serverAddr id).1.servers = hub.servers ∧
      (hub.connectClient serverAddr id).1.transports = hub.transports := by
  unfold connectClient
  split <;> exact ⟨rfl, rfl⟩

theorem mem_connectClient {serverAddr : Address} {link : Address × Address}
    (h : link ∈ (hub.connectClient serverAddr id).1.clientToServer) :
    link = (hub.nextClientAddr, serverAddr) ∨ link ∈ hub.clientToServer := by
  unfold connectClient at h
  split at h
  · exact .inr h
  · exact mem_upsert h

theorem serverAt_connectedAs (hub : LoopbackHub) (serverAddr : Address) (id : ℕ) :
    (hub.connectedAs serverAddr id).serverAt = hub.serverAt := by
  unfold connectedAs
  rw [serverAt_set]
  funext addr'
  unfold serverAt
  rw [(connectClient_frame hub serverAddr id).1]

theorem transports_connectedAs (hub : LoopbackHub) (serverAddr : Address) (id other : ℕ) :
    (hub.connectedAs serverAddr id).transports other =
      if other = id then { hub.transports id with
        localAddr := hub.nextClientAddr, remoteAddr := serverAddr, connected := true }
      else hub.transports other := by
  unfold connectedAs
  rw [transports_set, (connectClient_frame hub serverAddr id).2]

theorem Wired.connect (hw : Wired hub) (hclear : Clear hub (id, .connect addr)) :
    Wired (LoopbackTransport.connect id addr hub).1 := by
  rcases connect_cases hub id addr with hfail | ⟨hb, hconn, hserver, hok⟩
  · rw [hfail]
    exact hw
  · rw [hok]
    obtain ⟨hclientFree, hserverFree⟩ := hclear hb hconn hserver
    have hat : ∀ addr', (hub.connectedAs addr id).clientAt addr' =
        if addr' = hub.nextClientAddr then some id else hub.clientAt addr' :=
      clientAt_connectClient hserver id
    constructor
    · intro other
      rw [transports_connectedAs]
      split
      · exact hw.instant id
      · exact hw.instant other
    · intro other
      rw [transports_connectedAs, serverAt_connectedAs]
      split
      · intro hbound
        rw [hb] at hbound
        cases hbound
      · exact hw.bound other
    · intro addr' other hserverAt
      rw [serverAt_connectedAs] at hserverAt
      rw [transports_connectedAs, if_neg]
      · exact hw.server addr' other hserverAt
      · rintro rfl
        have := (hw.server addr' other hserverAt).1
        rw [hb] at this
        cases this
    · intro addr' other
      rw [hat, transports_connectedAs]
      split
      · next heq =>
        intro hid
        cases hid
        rw [if_pos rfl, heq]
        exact ⟨rfl, rfl⟩
      · intro hclient
        rw [if_neg]
        · exact hw.client addr' other hclient
        · rintro rfl
          have := (hw.client addr' other hclient).1
          rw [hconn] at this
          cases this
    · intro addr' other hserverAt
      rw [serverAt_connectedAs] at hserverAt
      rw [hat, if_neg]
      · exact hw.apart addr' other hserverAt
      · intro heq
        rw [heq, hserverFree] at hserverAt
        cases hserverAt
    · intro clientAddr serverAddr hmem
      rcases mem_connectClient hmem with heq | hmem
      · cases heq
        exact ⟨id, by rw [hat, if_pos rfl], by rw [transports_connectedAs, if_pos rfl]⟩
      · obtain ⟨client, hclient, hremote⟩ := hw.link clientAddr serverAddr hmem
        refine ⟨client, ?_, ?_⟩
        · rw [hat, if_neg]
          · exact hclient
          · intro heq
            rw [heq, hclientFree] at hclient
            cases hclient
        · rw [transports_connectedAs, if_neg]
          · exact hremote
          · rintro rfl
            have := (hw.client clientAddr client hclient).1
            rw [hconn] at this
            cases this

theorem transports_unbindServer (hub : LoopbackHub) (addr : Address) :
    (hub.unbindServer addr).transports = hub.transports := rfl

theorem transports_disconnectClient (hub : LoopbackHub) (addr : Address) :
    (hub.disconnectClient addr).transports = hub.transports := rfl

/-- A transport without a registration forgets that it had one; what the others know is in order. -/
theorem wired_reset (hinstant : ∀ id, (hub.transports id).latencySec = 0 ∧
      (hub.transports id).packetLossRatio = 0)
    (hbound : ∀ other ≠ id, (hub.transports other).bound = true →
      hub.serverAt (hub.transports other).localAddr = some other ∧
        (hub.transports other).connected = false)
    (hserver : ∀ addr other, hub.serverAt addr = some other → other ≠ id ∧
      (hub.transports other).bound = true ∧ (hub.transports other).localAddr = addr)
    (hclient : ∀ addr other, hub.clientAt addr = some other → other ≠ id ∧
      (hub.transports other).connected = true ∧ (hub.transports other).localAddr = addr)
    (hapart : ∀ addr other, hub.serverAt addr = some other → hub.clientAt addr = none)
    (hlink : ∀ clientAddr serverAddr, (clientAddr, serverAddr) ∈ hub.clientToServer →
      ∃ other, hub.clientAt clientAddr = some other ∧ (hub.transports other).remoteAddr = serverAddr)
    {impl : Impl} (himpl : impl.latencySec = 0 ∧ impl.packetLossRatio = 0 ∧ impl.bound = false) :
    Wired (hub.set id impl) := by
  constructor
  · intro other
    rw [transports_set]
    split
    · exact ⟨himpl.1, himpl.2.1⟩
    · exact hinstant other
  · intro other
    rw [transports_set, serverAt_set]
    split
    · intro h
      rw [himpl.2.2] at h
      cases h
    · next hne => exact hbound other hne
  · intro addr' other hat
    rw [transports_set, if_neg (hserver addr' other hat).1]
    exact (hserver addr' other hat).2
  · intro addr' other hat
    rw [transports_set, if_neg (hclient addr' other hat).1]
    exact (hclient addr' other hat).2
  · exact hapart
  · intro clientAddr serverAddr hmem
    obtain ⟨client, hat, hremote⟩ := hlink clientAddr serverAddr hmem
    refine ⟨client, hat, ?_⟩
    rw [transports_set, if_neg (hclient clientAddr client hat).1]
    exact hremote

/-- The state of a transport that has closed. -/
def closed (impl : Impl) : Impl :=
  { impl with
    bound := false, connected := false, localAddr := .invalid, remoteAddr := .invalid
    pendingRecv := [], readyRecv := [] }

theorem disconnect_bound (hw : Wired hub) (hb : (hub.transports id).bound = true) :
    LoopbackTransport.disconnect id hub =
      (hub.unbindServer (hub.transports id).localAddr).set id (closed (hub.transports id)) := by
  simp [LoopbackTransport.disconnect, closed, hb, (hw.bound id hb).2]

theorem disconnect_connected (hw : Wired hub) (hc : (hub.transports id).connected = true) :
    LoopbackTransport.disconnect id hub =
      (hub.disconnectClient (hub.transports id).localAddr).set id (closed (hub.transports id)) := by
  simp [LoopbackTransport.disconnect, closed, hw.not_bound hc, hc]

theorem disconnect_idle (hb : (hub.transports id).bound = false)
    (hc : (hub.transports id).connected = false) :
    LoopbackTransport.disconnect id hub = hub.set id (closed (hub.transports id)) := by
  simp [LoopbackTransport.disconnect, closed, hb, hc]

theorem Wired.disconnect (hw : Wired hub) (id : ℕ) : Wired (LoopbackTransport.disconnect id hub) := by
  have hclosed : (closed (hub.transports id)).latencySec = 0 ∧
      (closed (hub.transports id)).packetLossRatio = 0 ∧ (closed (hub.transports id)).bound = false :=
    ⟨(hw.instant id).1, (hw.instant id).2, rfl⟩
  rcases hb : (hub.transports id).bound with _ | _
  · have hserver : ∀ addr other, hub.serverAt addr = some other → other ≠ id := by
      rintro addr other hat rfl
      have := (hw.server addr other hat).1
      rw [hb] at this
      cases this
    rcases hc : (hub.transports id).connected with _ | _
    · rw [disconnect_idle hb hc]
      refine wired_reset hw.instant (fun other _ => hw.bound other)
        (fun addr other hat => ⟨hserver addr other hat, hw.server addr other hat⟩) ?_ hw.apart hw.link
        hclosed
      intro addr other hat
      refine ⟨?_, hw.client addr other hat⟩
      rintro rfl
      have := (hw.client addr other hat).1
      rw [hc] at this
      cases this
    · rw [disconnect_connected hw hc]
      refine @wired_reset (hub.disconnectClient _) id hw.instant (fun other _ => hw.bound other)
        (fun addr other hat => ⟨hserver addr other hat, hw.server addr other hat⟩) ?_ ?_ ?_ _
        hclosed
      · intro addr other hat
        rw [clientAt_disconnectClient] at hat
        split at hat
        · cases hat
        · next hne =>
          refine ⟨?_, hw.client addr other hat⟩
          rintro rfl
          exact hne (hw.client addr other hat).2.symm
      · intro addr other hat
        rw [clientAt_disconnectClient, hw.apart addr other hat, ite_self]
      · intro clientAddr serverAddr hmem
        obtain ⟨hmem, hne⟩ := List.mem_filter.mp hmem
        obtain ⟨client, hat, hremote⟩ := hw.link clientAddr serverAddr hmem
        refine ⟨client, ?_, hremote⟩
        rw [clientAt_disconnectClient, if_neg (by simpa using hne)]
        exact hat
  · rw [disconnect_bound hw hb]
    obtain ⟨hown, hc⟩ := hw.bound id hb
    have hclient : ∀ addr other, hub.clientAt addr = some other → other ≠ id := by
      rintro addr other hat rfl
      have := (hw.client addr other hat).1
      rw [hc] at this
      cases this
    refine @wired_reset (hub.unbindServer _) id hw.instant ?_ ?_ ?_ ?_ ?_ _ hclosed
    · intro other hne hbound
      obtain ⟨hat, hnot⟩ := hw.bound other hbound
      refine ⟨?_, hnot⟩
      rw [transports_unbindServer, serverAt_unbindServer, if_neg]
      · exact hat
      · intro heq
        rw [heq, hown] at hat
        exact hne (Option.some.inj hat).symm
    · intro addr other hat
      rw [serverAt_unbindServer] at hat
      split at hat
      · cases hat
      · next hne =>
        refine ⟨?_, hw.server addr other hat⟩
        rintro rfl
        exact hne (hw.server addr other hat).2.symm
    · intro addr other hat
      rw [clientAt_unbindServer] at hat
      split at hat
      · cases hat
      · exact ⟨hclient addr other hat, hw.client addr other hat⟩
    · intro addr other hat
      rw [serverAt_unbindServer] at hat
      split at hat
      · cases hat
      · rw [clientAt_unbindServer, hw.apart addr other hat, ite_self]
    · intro clientAddr serverAddr hmem
      obtain ⟨hmem, hne⟩ := List.mem_filter.mp hmem
      obtain ⟨client, hat, hremote⟩ := hw.link clientAddr serverAddr hmem
      refine ⟨client, ?_, hremote⟩
      rw [clientAt_unbindServer, if_neg]
      · exact hat
      · intro hother
        obtain ⟨client', hat', hremote'⟩ := hw.link _ _ hother
        rw [hat] at hat'
        cases hat'
        exact absurd (hremote.symm.trans hremote') (by simpa using hne)

/-! ### Runs -/

theorem Wired.step (hw : Wired hub) {call : ℕ × Call} (hclear : Clear hub call) {hub' : LoopbackHub}
    (h : step hub call = some hub') : Wired hub' := by
  cases h
  obtain ⟨id, call⟩ := call
  cases call with
  | bind address => exact hw.bind hclear
  | connect address => exact hw.connect hclear
  | disconnect => exact hw.disconnect id
  | send data r => exact (SameLinks.send hw id data r).wired hw
  | sendTo address data r => exact (SameLinks.sendTo hw id address data r).wired hw

theorem wired_empty : Wired {} := by
  refine ⟨fun _ => ⟨rfl, rfl⟩, ?_, ?_, ?_, ?_, ?_⟩
  · intro id h
    cases h
  · intro addr id h
    cases h
  · intro addr id h
    cases h
  · intro addr id h
    cases h
  · intro clientAddr serverAddr h
    cases h

section
variable {client server : ℕ} {clientAddr : Address}

/-- A transport that is neither of the two. -/
theorem Linked.ne (hl : Linked hub client server clientAddr)
    (hb : (hub.transports id).bound = false) (hc : (hub.transports id).connected = false) :
    client ≠ id ∧ server ≠ id := by
  constructor
  · rintro rfl
    have := hl.connected
    rw [hc] at this
    cases this
  · rintro rfl
    have := hl.bound
    rw [hb] at this
    cases this

/-- The state of another transport, and registrations that leave the client's alone. -/
theorem Linked.set (hl : Linked hub client server clientAddr) {hub' : LoopbackHub}
    (htransports : hub'.transports = hub.transports) (hat : hub'.clientAt clientAddr = some client)
    {impl : Impl} (hclient : client ≠ id) (hserver : server ≠ id) :
    Linked (hub'.set id impl) client server clientAddr := by
  have hkeep : ∀ other ≠ id, (hub'.set id impl).transports other = hub.transports other := by
    intro other hne
    rw [transports_set, if_neg hne, htransports]
  constructor
  · rw [hkeep client hclient]
    exact hl.connected
  · rw [hkeep client hclient]
    exact hl.address
  · rw [clientAt_set]
    exact hat
  · rw [hkeep server hserver]
    exact hl.bound
  · rw [hkeep client hclient, hkeep server hserver]
    exact hl.remote

theorem Linked.bind (hl : Linked hub client server clientAddr) (hclear : Clear hub (id, .bind addr)) :
    Linked (LoopbackTransport.bind id addr hub).1 client server clientAddr := by
  unfold LoopbackTransport.bind
  dsimp only
  split
  · exact hl
  · next hb =>
    rw [Bool.not_eq_true] at hb
    obtain ⟨hclient, hserver⟩ := hl.ne hb (hclear hb).1
    exact hl.set (transports_bindServer hub addr id) hl.registered hclient hserver

theorem Linked.connect (hl : Linked hub client server clientAddr)
    (hclear : Clear hub (id, .connect addr)) :
    Linked (LoopbackTransport.connect id addr hub).1 client server clientAddr := by
  rcases connect_cases hub id addr with hfail | ⟨hb, hconn, hserverAt, hok⟩
  · rw [hfail]
    exact hl
  · rw [hok]
    obtain ⟨hclient, hserver⟩ := hl.ne hb hconn
    refine hl.set (connectClient_frame hub addr id).2 ?_ hclient hserver
    rw [clientAt_connectClient hserverAt, if_neg]
    · exact hl.registered
    · intro heq
      have hfree := (hclear hb hconn hserverAt).1
      rw [← heq, hl.registered] at hfree
      cases hfree

theorem Linked.disconnect (hw : Wired hub) (hl : Linked hub client server clientAddr)
    (hclear : Clear hub (id, .disconnect)) (hclient : client ≠ id) (hserver : server ≠ id) :
    Linked (LoopbackTransport.disconnect id hub) client server clientAddr := by
  rcases hb : (hub.transports id).bound with _ | _
  · rcases hc : (hub.transports id).connected with _ | _
    · rw [disconnect_idle hb hc]
      exact hl.set rfl hl.registered hclient hserver
    · rw [disconnect_connected hw hc]
      refine hl.set (transports_disconnectClient _ _) ?_ hclient hserver
      rw [clientAt_disconnectClient, if_neg]
      · exact hl.registered
      · intro heq
        exact hclient (hclear hc client (heq ▸ hl.registered))
  · rw [disconnect_bound hw hb]
    refine hl.set (transports_unbindServer _ _) ?_ hclient hserver
    rw [clientAt_unbindServer, if_neg]
    · exact hl.registered
    · intro hmem
      obtain ⟨client', hat, hremote⟩ := hw.link _ _ hmem
      rw [hl.registered] at hat
      cases hat
      have hown := (hw.bound id hb).1
      rw [← hremote, hl.remote, (hw.bound server hl.bound).1] at hown
      exact hserver (Option.some.inj hown)

theorem Linked.step (hw : Wired hub) (hl : Linked hub client server clientAddr) {call : ℕ × Call}
    (hclear : Clear hub call) (hstay : call ≠ (client, .disconnect) ∧ call ≠ (server, .disconnect))
    {hub' : LoopbackHub} (h : step hub call = some hub') : Linked hub' client server clientAddr := by
  cases h
  obtain ⟨id, call⟩ := call
  cases call with
  | bind address => exact hl.bind hclear
  | connect address => exact hl.connect hclear
  | disconnect =>
    refine hl.disconnect hw hclear ?_ ?_
    · rintro rfl
      exact hstay.1 rfl
    · rintro rfl
      exact hstay.2 rfl
  | send data r => exact (SameLinks.send hw id data r).linked hl
  | sendTo address data r => exact (SameLinks.sendTo hw id address data r).linked hl

/-- A client that has just connected is linked to the server that has the address. -/
theorem Wired.linked (hw : Wired hub) (hconnect : (LoopbackTransport.connect client addr hub).2 = true)
    (hserver : hub.serverAt addr = some server) :
    Linked (LoopbackTransport.connect client addr hub).1 client server
      ((LoopbackTransport.connect client addr hub).1.transports client).localAddr := by
  rcases connect_cases hub client addr with hfail | ⟨hb, hconn, hserverAt, hok⟩
  · rw [hfail] at hconnect
    cases hconnect
  · obtain ⟨hbound, haddr⟩ := hw.server addr server hserver
    have hne : server ≠ client := by
      rintro rfl
      rw [hb] at hbound
      cases hbound
    rw [hok]
    dsimp only
    have hself : (hub.connectedAs addr client).transports client = { hub.transports client with
        localAddr := hub.nextClientAddr, remoteAddr := addr, connected := true } := by
      rw [transports_connectedAs, if_pos rfl]
    have hother : (hub.connectedAs addr client).transports server = hub.transports server := by
      rw [transports_connectedAs, if_neg hne]
    constructor
    · rw [hself]
    · rfl
    · rw [hself]
      exact (clientAt_connectClient hserverAt client _).trans (if_pos rfl)
    · rw [hother]
      exact hbound
    · rw [hself, hother]
      exact haddr.symm

/-- In a run in which no call brings two transports under one address, a client and the server it
connected to reach each other until one of them closes. -/
theorem routes_of_clear {pre post : List (ℕ × Call)} {before after : LoopbackHub}
    (hclear : Admits step Clear {} (pre ++ (client, .connect addr) :: post))
    (hpre : exec step {} pre = some before)
    (hconnect : (LoopbackTransport.connect client addr before).2 = true)
    (hserver : before.serverAt addr = some server)
    (hstay : ∀ call ∈ post, call ≠ (client, .disconnect) ∧ call ≠ (server, .disconnect))
    (hpost : exec step before ((client, .connect addr) :: post) = some after) :
    Routes after client server
      ((LoopbackTransport.connect client addr before).1.transports client).localAddr := by
  obtain ⟨hclearPre, hrest⟩ := hclear.append
  have hwired : Wired before := (of_exec pre hpre hclearPre).invariant wired_empty
    fun _ _ _ hw hok hs => hw.step hok hs
  obtain ⟨hclearConnect, hclearPost⟩ := hrest before hpre
  have hw : Wired (LoopbackTransport.connect client addr before).1 := hwired.step hclearConnect rfl
  have hl := hwired.linked hconnect hserver
  have hadm := admits_and.mpr ⟨hclearPost _ rfl, Admits.of_forall (fun call hmem _ => hstay call hmem) _⟩
  have hboth := (of_exec post hpost hadm).invariant
    (I := fun hub => Wired hub ∧ Linked hub client server _) ⟨hw, hl⟩ fun _ _ _ hboth hok hs =>
      ⟨hboth.1.step hok.1 hs, hboth.2.step hboth.1 hok.1 hok.2 hs⟩
  exact hboth.1.routes hboth.2

end

/-! ### A port that is taken -/

instance (hub : LoopbackHub) (call : ℕ × Call) : Decidable (Clear hub call) :=
  match call with
  | (_, .bind _) => inferInstanceAs (Decidable (_ → _ ∧ _ ∧ _))
  | (_, .connect _) => inferInstanceAs (Decidable (_ → _ → _ → _ ∧ _))
  | (_, .disconnect) => inferInstanceAs (Decidable (_ → _))
  | (_, .send _ _) | (_, .sendTo _ _ _) => inferInstanceAs (Decidable True)

/-- A second server and its client come and go. -/
theorem routes_beside_others : ∃ before after,
    exec step {} [(0, .bind serverAddr), (2, .bind (.ofIPv4 127 0 0 1 8000))] = some before ∧
      exec step before [(1, .connect serverAddr), (3, .connect (.ofIPv4 127 0 0 1 8000)),
        (3, .send [1] .unreliable), (2, .disconnect), (3, .disconnect)] = some after ∧
      Routes after 1 0 (.ofIPv4 127 0 0 1 50000) := by
  refine ⟨_, _, rfl, rfl, ?_⟩
  exact @routes_of_clear serverAddr 1 0
    [(0, .bind serverAddr), (2, .bind (.ofIPv4 127 0 0 1 8000))]
    [(3, .connect (.ofIPv4 127 0 0 1 8000)), (3, .send [1] .unreliable), (2, .disconnect),
      (3, .disconnect)] _ _ (by decide +kernel) rfl (by decide +kernel) (by decide +kernel) (by decide)
    rfl

/-- A server at 127.0.0.1:50000 has the address that the first client gets: the client's messages come
back to it. -/
theorem not_routes_port_taken : ∃ before after,
    exec step {} [(0, .bind (.ofIPv4 127 0 0 1 50000))] = some before ∧
      (LoopbackTransport.connect 1 (.ofIPv4 127 0 0 1 50000) before).2 = true ∧
      before.serverAt (.ofIPv4 127 0 0 1 50000) = some 0 ∧
      exec step before [(1, .connect (.ofIPv4 127 0 0 1 50000))] = some after ∧
      ¬Routes after 1 0
        ((LoopbackTransport.connect 1 (.ofIPv4 127 0 0 1 50000) before).1.transports 1).localAddr := by
  refine ⟨_, _, rfl, by decide +kernel, by decide +kernel, rfl, fun h => ?_⟩
  have hsent := congrArg (fun hub => (hub.transports 0).pendingRecv.length) (h.send [] .unreliable)
  exact absurd hsent (by decide +kernel)

end LoopbackHub

end CampelloNet.Transport
