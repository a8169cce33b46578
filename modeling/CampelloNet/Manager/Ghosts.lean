import CampelloNet.Lib.Attendance
import CampelloNet.Manager.Peers
import CampelloNet.Manager.Roster
import CampelloNet.Manager.World
import CampelloNet.Transport.Udp.Silence
import CampelloNet.Transport.Udp.World

/-!
# Clients whose connection is gone

A server and its UDP transports have a table each, and only the transports drop a peer that is silent,
that leaves, or that acknowledges nothing. `poll` does not tell the server of it: the client stays in the
server's table until a packet of its own puts it out.
-/

namespace CampelloNet

open Lib Transport

/-! ### The connections of a UDP transport -/

namespace Transport.UdpTransport

theorem peers_sendTo (address : Address) (data : Bytes) (r : PacketReliability) (host : UdpHost) :
    peers (sendTo address data r host).1 = peers host := by
  show ((Udp.sendTo host.env address data r host.impl).1.connections.map Udp.Connection.address) = _
  unfold Udp.sendTo Udp.sendWithPriority
  rcases hfind : Udp.findConnection host.impl address with _ | conn
  · rfl
  · have haddr := Udp.sendToConnection_address (host.impl.io host.env) conn data r 0
    have hself : Udp.findConnection host.impl
        (Udp.sendToConnection (host.impl.io host.env) conn data r 0).1.address = some conn := by
      rw [haddr, lookup_key hfind]
      exact hfind
    exact map_upsert_of_lookup hself haddr

theorem peers_send (data : Bytes) (r : PacketReliability) (host : UdpHost) :
    peers (send data r host).1 = peers host := by
  have haddr : ∀ c, (Udp.sendToConnection (host.impl.io host.env) c data r 0).1.address = c.address :=
    fun c => Udp.sendToConnection_address _ c data r 0
  show ((Udp.send host.env data r host.impl).1.connections.map Udp.Connection.address) =
    host.impl.connections.map Udp.Connection.address
  unfold Udp.send
  split
  · rename_i conn conns _ hconns
    rw [hconns, List.map_cons, List.map_cons, haddr]
  · show (Udp.sendEach _ data r host.impl.connections).1.map Udp.Connection.address = _
    rw [(Udp.sendEach_eq _ data r host.impl.connections).1, List.map_map]
    exact List.map_congr_left fun c _ => haddr c
  · rfl

theorem peers_popReceive (n : ℕ) (host : UdpHost) : peers (popReceive n host).1 = peers host :=
  congrArg (List.map Udp.Connection.address) (Udp.popReceive_connections n host.impl)

end Transport.UdpTransport

namespace NetworkManager

/-- UDP transports, each under its number. -/
def udpAt (t : ℕ) : ITransport (ℕ → UdpHost) :=
  within (fun world => world t) (fun host world => Function.update world t host)
    UdpTransport.iTransport

/-- The transports have connections with exactly these addresses. -/
def PeersAre (peers : ℕ → List Address) (world : ℕ → UdpHost) : Prop :=
  ∀ t, UdpTransport.peers (world t) = peers t

theorem PeersAre.update {peers : ℕ → List Address} {world : ℕ → UdpHost} (h : PeersAre peers world)
    {t : ℕ} {host : UdpHost} (hhost : UdpTransport.peers host = UdpTransport.peers (world t)) :
    PeersAre peers (Function.update world t host) := by
  intro u
  by_cases hu : u = t
  · subst hu
    rw [Function.update_self, hhost, h]
  · rw [Function.update_of_ne hu, h]

/-- Sending opens no connection and closes none. -/
theorem sendsAt_peersAre (peers : ℕ → List Address) :
    SendsAt udpAt (fun _ _ => True) (PeersAre peers) where
  send t data r world _ h := h.update (UdpTransport.peers_send data r (world t))
  sendTo t address data r world _ h := h.update (UdpTransport.peers_sendTo address data r (world t))

theorem peersAre_popReceive {peers : ℕ → List Address} (t n : ℕ) {world : ℕ → UdpHost}
    (h : PeersAre peers world) : PeersAre peers ((udpAt t).popReceive n world).1 :=
  h.update (UdpTransport.peers_popReceive n (world t))

/-- The transport of the client, if it has one, has a connection with its address. -/
def Connection.Reached (world : ℕ → UdpHost) (c : Connection) : Prop :=
  ∀ t ∈ c.transport, c.address ∈ UdpTransport.peers (world t)

instance (world : ℕ → UdpHost) : DecidablePred (Connection.Reached world) := fun c =>
  inferInstanceAs (Decidable (∀ t ∈ c.transport, _))

theorem reached_congr {peers : ℕ → List Address} {world world' : ℕ → UdpHost}
    (h : PeersAre peers world) (h' : PeersAre peers world') (c : Connection) :
    c.Reached world ↔ c.Reached world' := by
  unfold Connection.Reached
  refine forall₂_congr fun t _ => ?_
  rw [h t, h' t]

/-- The transports keep a connection with the client in the next poll, if it has one with them. Those that
the manager does not poll keep what they have. -/
def Keeps (net : NetworkManager (ℕ → UdpHost)) (c : Connection) : Prop :=
  ∀ t ∈ c.transport,
    if t ∈ net.transports then UdpTransport.Keeps (net.world t) c.address
    else c.address ∈ UdpTransport.peers (net.world t)

theorem mem_peers_foldl_poll (ts : List ℕ) (world : ℕ → UdpHost) (u : ℕ) (a : Address) :
    a ∈ UdpTransport.peers (ts.foldl (fun world t => (udpAt t).poll world) world u) ↔
      if u ∈ ts then UdpTransport.Keeps (world u) a else a ∈ UdpTransport.peers (world u) := by
  induction ts generalizing world with
  | nil => rw [List.foldl_nil, if_neg List.not_mem_nil]
  | cons t ts ih =>
    have hpolled : (udpAt t).poll world = Function.update world t (UdpTransport.poll (world t)) := rfl
    rw [List.foldl_cons, ih, hpolled]
    by_cases hu : u = t
    · subst hu
      rw [Function.update_self, if_pos List.mem_cons_self, UdpTransport.keeps_poll_iff,
        UdpTransport.mem_peers_poll_iff, ite_self]
    · simp only [Function.update_of_ne hu, List.mem_cons, hu, false_or]

theorem reached_pollTransports (net : NetworkManager (ℕ → UdpHost)) (c : Connection) :
    c.Reached (net.pollTransports udpAt).world ↔ net.Keeps c :=
  forall₂_congr fun t _ => mem_peers_foldl_poll net.transports net.world t c.address

/-! ### The packets of a server -/

section
variable {σ : Type} {T : ℕ → ITransport σ} {net : NetworkManager σ} {env : PacketEnv} {t : ℕ}
  {buffer : Bytes} {sender : Address} {c : Connection}

/-- The packet puts the client out: it is its disconnect message, or it is too long. -/
structure Dismisses (net : NetworkManager σ) (buffer : Bytes) (sender : Address) (c : Connection) :
    Prop where
  found : (net.findClientByAddress sender).map ClientEntry.toConnection = some c
  reason : net.SystemMessage SysType.disconnectNotify buffer ∨
    net.config.maxPacketSize < buffer.length ∧ c.Remote ∧ c.id ≠ net.localClientId

theorem SystemMessage.ne_nil {type : UInt8} (h : net.SystemMessage type buffer) : buffer ≠ [] := by
  rintro rfl
  cases h.2.1

theorem Dismisses.mem (h : net.Dismisses buffer sender c) : c ∈ net.session.clients := by
  obtain ⟨entry, hfind, rfl⟩ := Option.map_eq_some_iff.mp h.found
  exact List.mem_map_of_mem (lookup_mem hfind)

/-- A client that is put out is taken from the table, and everybody is told. -/
theorem roster_of_dismisses (hmode : net.mode = .server) (h : net.Dismisses buffer sender c) :
    (net.handlePacket T env t buffer sender).roster = net.roster.leave c.id := by
  have hserving : net.serving := by simp [serving, hmode]
  obtain ⟨entry, hfind, rfl⟩ := Option.map_eq_some_iff.mp h.found
  unfold handlePacket
  rcases h.reason with hmsg | ⟨hlong, hremote, hlocal⟩
  · have hnotify : net.onDisconnectNotify T sender = net.dropClient entry.id := by
      unfold onDisconnectNotify
      rw [if_pos hserving, hfind]
    rw [if_neg hmsg.ne_nil, if_neg (not_lt.mpr hmsg.1), if_pos hmsg.2.1]
    unfold onSystem
    rw [if_pos hserving, hfind, hmsg.2.2]
    show (net.onDisconnectNotify T sender).roster = _
    rw [hnotify, roster_dropClient]
    rfl
  · obtain ⟨u, hu⟩ := Option.isSome_iff_exists.mp (show entry.transport.isSome from hremote)
    have hlocal : entry.id ≠ net.localClientId := hlocal
    rw [if_neg (List.ne_nil_of_length_pos (by omega)), if_pos hlong]
    unfold onOversized
    rw [if_neg (by simp [hserving]), hfind]
    dsimp only
    rw [hu]
    dsimp only
    rw [if_neg hlocal, roster_dropClient]
    rfl

theorem clients_onConnectRequest (hmsg : net.SystemMessage SysType.connectRequest buffer)
    (hadm : ¬net.Admission env buffer sender) :
    (net.onConnectRequest T env sender t (buffer.drop 3)).session = net.session := by
  unfold onConnectRequest
  split_ifs with hserving
  · rfl
  · rcases hfind : (net.findClientByAddress sender).filter ClientEntry.approved with _ | existing
    · dsimp only
      obtain ⟨calls, hcalls⟩ := net.checkApproval_called env sender (buffer.drop 3)
      split_ifs with happroved hroom
      · rw [session_rejectClient, hcalls, session_called]
      · rw [session_rejectClient, hcalls, session_called]
      · obtain ⟨htoken, hasked⟩ := net.checkApproval_approved (by simpa using happroved)
        rw [hcalls] at hroom
        exact absurd ⟨by simpa using hserving, hmsg.1, hmsg.2.1, hmsg.2.2, hfind, htoken, hasked,
          not_le.mp hroom⟩ hadm
    · rfl

/-- The sender of a packet that is too long is put out unless it is no remote client. -/
theorem session_onOversized_of_stays (hserving : net.serving)
    (hlong : buffer.length > net.config.maxPacketSize)
    (hstays : ∀ c, ¬net.Dismisses buffer sender c) :
    (net.onOversized T sender).session = net.session := by
  unfold onOversized
  rw [if_neg (by simp [hserving])]
  rcases hfind : net.findClientByAddress sender with _ | entry
  · rfl
  · dsimp only
    rcases htransport : entry.transport with _ | u
    · rfl
    · dsimp only
      split_ifs with hlocal
      · rfl
      · refine absurd ⟨?_, .inr ⟨hlong, ?_, hlocal⟩⟩ (hstays entry.toConnection)
        · rw [hfind]
          rfl
        · show entry.transport.isSome
          rw [htransport]
          rfl

/-- A packet that lets nobody in and puts nobody out leaves the table as it is. -/
theorem clients_of_stays (hmode : net.mode = .server) (hadm : ¬net.Admission env buffer sender)
    (hstays : ∀ c, ¬net.Dismisses buffer sender c) :
    (net.handlePacket T env t buffer sender).session = net.session := by
  have hserving : net.serving := by simp [serving, hmode]
  have hjoining : ¬net.joining := by simp [joining, hmode]
  have hprocess : ∀ senderId, buffer.length ≤ net.config.maxPacketSize → isSystem buffer →
      (net.processSystemMessage T env senderId sender t (buffer.getD 2 0) (buffer.drop 3)).session =
        net.session := by
    intro senderId hfits hsys
    apply processSystemMessage_cases (P := fun next => next.session = net.session)
    case connectRequest => exact fun htype => clients_onConnectRequest ⟨hfits, hsys, htype⟩ hadm
    case connectAccept =>
      intro _
      unfold onConnectAccept
      rw [if_pos (by simpa using hjoining)]
    case connectReject => exact fun _ => session_onConnectReject
    case disconnectNotify =>
      intro htype
      unfold onDisconnectNotify
      rw [if_pos hserving]
      rcases hfind : net.findClientByAddress sender with _ | entry
      · rfl
      · refine absurd ⟨?_, .inl ⟨hfits, hsys, htype⟩⟩ (hstays entry.toConnection)
        rw [hfind]
        rfl
    case timeSyncRequest => exact fun _ => session_onTimeSyncRequest env sender t _
    case timeSyncResponse => exact fun _ => session_onTimeSyncResponse env _
    case entitySpawn => exact fun _ => session_tellEntities net _
    case entityDestroy => exact fun _ => session_tellEntities net _
    case entitySetOwner => exact fun _ => session_tellEntities net _
    case entityFullState => exact fun _ => session_tellEntities net _
    case deltaState => exact fun _ => session_onDeltaState _
    case snapshotAck => exact fun _ => session_onSnapshotAck senderId _
    case rpc => exact fun _ => session_onRpc env senderId sender _
    case unknown => rfl
  unfold handlePacket
  split_ifs with hne hlong hsys
  · rfl
  · exact session_onOversized_of_stays hserving hlong hstays
  · unfold onSystem
    rw [if_pos hserving]
    split
    · exact hprocess _ (not_lt.mp hlong) hsys
    · split_ifs
      · exact hprocess _ (not_lt.mp hlong) hsys
      · rfl
  · exact session_onUser env buffer sender

/-- Who is a client after a packet: whom it lets in, and those who were and are not put out by it. -/
theorem mem_clients_handlePacket (hmode : net.mode = .server) (hsound : net.session.Sound) :
    c ∈ (net.handlePacket T env t buffer sender).session.clients ↔
      (net.Admission env buffer sender ∧ c = net.openedBy t sender) ∨
        c ∈ net.session.clients ∧ ¬net.Dismisses buffer sender c := by
  by_cases hadm : net.Admission env buffer sender
  · have hstays : ∀ d, ¬net.Dismisses buffer sender d := by
      intro d hd
      obtain ⟨entry, hfind, rfl⟩ := Option.map_eq_some_iff.mp hd.found
      have hknown := address_unknown hsound hadm.unknown entry.toConnection hd.mem
      exact hknown (show entry.address = sender from lookup_key hfind)
    have hsession : (net.handlePacket T env t buffer sender).session =
        net.session.enroll (net.openedBy t sender) := by
      rw [handlePacket_of_admission hadm, session_admitClient]
      rfl
    have hclients : (net.session.enroll (net.openedBy t sender)).clients =
        net.session.clients ++ [net.openedBy t sender] := rfl
    rw [hsession, hclients, List.mem_append, List.mem_singleton, or_comm]
    simp [hadm, hstays]
  · by_cases hdismissed : ∃ d, net.Dismisses buffer sender d
    · obtain ⟨d, hd⟩ := hdismissed
      have hsession : (net.handlePacket T env t buffer sender).session = net.session.drop d.id :=
        congrArg Roster.session (roster_of_dismisses hmode hd)
      have hsame : c ∈ net.session.clients → (c.id ≠ d.id ↔ ¬net.Dismisses buffer sender c) := by
        intro hc
        constructor
        · intro hne hout
          exact hne (congrArg Connection.id (Option.some.inj (hout.found.symm.trans hd.found)))
        · intro hstays heq
          have hcd : c = d := List.inj_on_of_nodup_map hsound.distinct hc hd.mem heq
          exact hstays (hcd ▸ hd)
      rw [hsession]
      show c ∈ net.session.clients.filter _ ↔ _
      rw [List.mem_filter]
      constructor
      · rintro ⟨hc, hne⟩
        exact .inr ⟨hc, (hsame hc).mp (by simpa using hne)⟩
      · rintro (⟨hin, -⟩ | ⟨hc, hstays⟩)
        · exact absurd hin hadm
        · exact ⟨hc, by simpa using (hsame hc).mpr hstays⟩
    · have hstays := not_exists.mp hdismissed
      rw [clients_of_stays hmode hadm hstays]
      simp [hadm, hstays]

theorem handlePacket_connectReject (hmode : net.mode = .server)
    (hmsg : net.SystemMessage SysType.connectReject buffer) :
    net.handlePacket T env t buffer sender = net := by
  have hserving : net.serving := by simp [serving, hmode]
  have hreject : net.onConnectReject T = net := by
    unfold onConnectReject
    rw [if_pos (by simp [joining, hmode])]
  unfold handlePacket
  rw [if_neg hmsg.ne_nil, if_neg (not_lt.mpr hmsg.1), if_pos hmsg.2.1]
  unfold onSystem
  rw [if_pos hserving, hmsg.2.2]
  split
  · exact hreject
  · rw [if_neg (by decide)]

/-- What a packet of a server leaves of the callbacks, and of those that were called. -/
theorem visits_handlePacket (hmode : net.mode = .server) :
    (net.handlePacket T env t buffer sender).callbacks = net.callbacks ∧
      ∃ new, (net.handlePacket T env t buffer sender).visits = net.visits ++ new := by
  have hroster : net.PacketRoster env t buffer sender
      (net.handlePacket T env t buffer sender).roster := packetRoster_handlePacket env t buffer sender
  change (net.handlePacket T env t buffer sender).roster.callbacks = net.callbacks ∧
    ∃ new, (net.handlePacket T env t buffer sender).roster.visits = net.visits ++ new
  generalize (net.handlePacket T env t buffer sender).roster = after at hroster
  have hsame : ∃ new, net.visits = net.visits ++ new := ⟨[], (List.append_nil _).symm⟩
  cases hroster with
  | keep => exact ⟨rfl, hsame⟩
  | ack => exact ⟨rfl, hsame⟩
  | enroll =>
    refine ⟨rfl, ?_⟩
    show ∃ new, (if net.callbacks.onConnected then
      net.visits ++ [Visit.enter (net.openedBy t sender).id] else net.visits) = net.visits ++ new
    split_ifs
    · exact ⟨_, rfl⟩
    · exact hsame
  | @drop entry =>
    refine ⟨rfl, ?_⟩
    show ∃ new, (if net.callbacks.onDisconnected then net.visits ++ [Visit.leave entry.id]
      else net.visits) = net.visits ++ new
    split_ifs
    · exact ⟨_, rfl⟩
    · exact hsame
  | accept joining => simp [NetworkManager.joining, hmode] at joining
  | depart mode =>
    rw [hmode] at mode
    cases mode

end

/-- A server's packets open no connection and close none. -/
theorem peersAre_handlePacket {peers : ℕ → List Address} {net : NetworkManager (ℕ → UdpHost)}
    (hmode : net.mode = .server) (env : PacketEnv) (t : ℕ) (buffer : Bytes) (sender : Address)
    (h : PeersAre peers net.world) :
    PeersAre peers (net.handlePacket udpAt env t buffer sender).world := by
  by_cases hreject : net.SystemMessage SysType.connectReject buffer
  · rwa [handlePacket_connectReject hmode hreject]
  · refine world_handlePacket (sendsAt_peersAre peers) (fun _ _ _ => trivial) env t ?_ h
    rintro (hclient | ⟨hmsg, -⟩)
    · rw [hmode] at hclient
      cases hclient
    · exact absurd hmsg hreject

/-! ### A poll -/

section
variable {σ : Type} (T : ℕ → ITransport σ)

/-- The packet lets the client in. -/
def Handled.LetsIn (c : Connection) (p : Handled σ) : Prop :=
  (p.before T).Admission p.env p.buffer p.sender ∧ c = (p.before T).openedBy p.transport p.sender

def Handled.PutsOut (c : Connection) (p : Handled σ) : Prop :=
  (p.before T).Dismisses p.buffer p.sender c

end

/-- A server in the middle of a poll that has handled these packets. `net` is the server when its
transports have been polled. -/
structure Polling (net : NetworkManager (ℕ → UdpHost)) (past : List (Handled (ℕ → UdpHost)))
    (now : NetworkManager (ℕ → UdpHost)) : Prop where
  mode : now.mode = .server
  sound : now.session.Sound
  clients : ∀ c, c ∈ now.session.clients ↔
    Remains (c ∈ net.session.clients) (Handled.LetsIn udpAt c) (Handled.PutsOut udpAt c) past
  peers : PeersAre (fun t => UdpTransport.peers (net.world t)) now.world
  callbacks : now.callbacks = net.callbacks
  visits : ∃ new, now.visits = net.visits ++ new ∧
    (net.callbacks.onDisconnected → ∀ p ∈ past, ∀ c, p.PutsOut udpAt c → .leave c.id ∈ new)

section
variable {net now : NetworkManager (ℕ → UdpHost)} {past : List (Handled (ℕ → UdpHost))}

theorem polling_refl (hmode : net.mode = .server) (hsound : net.session.Sound) :
    Polling net [] net where
  mode := hmode
  sound := hsound
  clients _ := remains_nil.symm
  peers _ := rfl
  callbacks := rfl
  visits := ⟨[], (List.append_nil _).symm, fun _ _ hp => absurd hp List.not_mem_nil⟩

theorem Polling.taken (h : Polling net past now) (t : ℕ) : Polling net past (now.taken udpAt t) :=
  ⟨h.mode, h.sound, h.clients, peersAre_popReceive t BUF_SIZE h.peers, h.callbacks, h.visits⟩

theorem Polling.packet {p : Handled (ℕ → UdpHost)} (h : Polling net past p.net) :
    Polling net (past ++ [p]) (p.after udpAt) := by
  have hbefore := h.taken p.transport
  have hmode : (p.before udpAt).mode = .server := hbefore.mode
  have hsound : (p.before udpAt).session.Sound := hbefore.sound
  have heffect : (p.before udpAt).PacketEffect p.env p.transport p.buffer p.sender
      (p.after udpAt).session := packetEffect_handlePacket p.env p.transport p.buffer p.sender
  have hvisits : (p.after udpAt).callbacks = (p.before udpAt).callbacks ∧
      ∃ new, (p.after udpAt).visits = (p.before udpAt).visits ++ new := visits_handlePacket hmode
  obtain ⟨hcallbacks, new', hnew'⟩ := hvisits
  obtain ⟨new, hnew, hold⟩ := hbefore.visits
  refine ⟨?_, ?_, fun c => ?_, ?_, ?_, new ++ new', ?_, fun hasked q hq c hout => ?_⟩
  · change (p.after udpAt).session.mode = .server
    change (p.before udpAt).session.mode = .server at hmode
    generalize (p.after udpAt).session = s at heffect
    cases heffect <;> exact hmode
  · exact sound_packetEffect hsound heffect
  · rw [remains_concat]
    exact (mem_clients_handlePacket hmode hsound).trans
      (or_congr Iff.rfl (and_congr_left fun _ => hbefore.clients c))
  · exact peersAre_handlePacket hmode p.env p.transport p.buffer p.sender hbefore.peers
  · exact hcallbacks.trans hbefore.callbacks
  · rw [← List.append_assoc, ← hnew]
    exact hnew'
  · rcases List.mem_append.mp hq with hq | hq
    · exact List.mem_append_left _ (hold hasked q hq c hout)
    · rw [List.mem_singleton.mp hq] at hout
      have hroster : (p.after udpAt).visits = ((p.before udpAt).roster.leave c.id).visits :=
        congrArg Roster.visits (roster_of_dismisses hmode hout)
      have hleft : (p.after udpAt).visits = (p.before udpAt).visits ++ [.leave c.id] := by
        refine hroster.trans (if_pos ?_)
        rw [← hasked]
        exact congrArg Callbacks.onDisconnected hbefore.callbacks
      have hlast := List.append_cancel_left (hnew'.symm.trans hleft)
      rw [hlast]
      exact List.mem_append_right _ (List.mem_singleton_self _)

theorem Polling.finish (h : Polling net past now) (env : PollEnv) :
    Polling net past (now.finishPoll udpAt env) := by
  have hsession : (now.finishPoll udpAt env).session = now.session := session_finishPoll env
  have hroster : (now.finishPoll udpAt env).roster = now.roster := roster_finishPoll env
  have hpeers := world_finishPoll (sendsAt_peersAre _) (fun _ _ _ => trivial) env h.peers
  refine ⟨(congrArg Session.mode hsession).trans h.mode, hsession ▸ h.sound, fun c => ?_, hpeers,
    (congrArg Roster.callbacks hroster).trans h.callbacks, ?_⟩
  · rw [hsession]
    exact h.clients c
  · obtain ⟨new, hnew, hold⟩ := h.visits
    exact ⟨new, (congrArg Roster.visits hroster).trans hnew, hold⟩

/-- What a poll makes of a server. -/
theorem polling_poll {env : PollEnv} {net' : NetworkManager (ℕ → UdpHost)}
    (hmode : net.mode = .server) (hsound : net.session.Sound) (h : net.poll udpAt env = some net') :
    Polling (net.pollTransports udpAt) (net.handled udpAt (.poll env)) net' := by
  unfold handled
  unfold poll at h
  split_ifs at h ⊢ with hnone
  · obtain rfl := Option.some.inj h
    have hworld : net.pollTransports udpAt = net := by
      obtain ⟨htransport, -, hadditional⟩ := hnone
      have htransports : net.transports = [] := by
        unfold transports
        rw [Option.isNone_iff_eq_none.mp htransport, hadditional]
        rfl
      unfold pollTransports
      rw [htransports]
      rfl
    rw [hworld]
    exact polling_refl hmode hsound
  · obtain ⟨out, hout, rfl⟩ := Option.map_eq_some_iff.mp h
    have hstart : Polling (net.pollTransports udpAt) [] (net.pollTransports udpAt) :=
      polling_refl hmode hsound
    obtain ⟨-, hall⟩ := handledOf_past (T := udpAt) (J := Polling (net.pollTransports udpAt))
      (fun _ _ t hn => hn.taken t) [] (fun _ _ _ _ hp => hp.packet) hstart
    exact (hall out hout).finish env

end

/-! ### Runs of a server -/

/-- A poll leaves nobody in the table whose connection is gone: a client that has lost its own is out of
the table, was reported, and no longer counts. -/
structure NoGhosts (net net' : NetworkManager (ℕ → UdpHost)) : Prop where
  reached : ∀ c ∈ net'.session.clients, c.Reached net'.world
  removed : ∀ c ∈ net.session.clients, ¬c.Reached net'.world → c ∉ net'.session.clients ∧
    (net.callbacks.onDisconnected → ∃ new, net'.visits = net.visits ++ new ∧ .leave c.id ∈ new)
  counted : net'.clientCount = net'.session.clients.countP fun c => c.Reached net'.world

/-- The transports keep their connections with the clients that were, or that a packet of the poll lets
in, unless a later packet of the poll puts the client out. -/
def KeepsPeers (env : PollEnv) (net : NetworkManager (ℕ → UdpHost)) : Prop :=
  ∀ c, Remains (c ∈ net.session.clients) (Handled.LetsIn udpAt c) (Handled.PutsOut udpAt c)
    (net.handled udpAt (.poll env)) → net.Keeps c

theorem noGhosts_iff {net net' : NetworkManager (ℕ → UdpHost)} {env : PollEnv}
    (hmode : net.mode = .server) (hsound : net.session.Sound) (h : net.poll udpAt env = some net') :
    NoGhosts net net' ↔ net.KeepsPeers env := by
  have hpolled := polling_poll hmode hsound h
  have hclients : ∀ c, c ∈ net'.session.clients ↔ Remains (c ∈ net.session.clients)
      (Handled.LetsIn udpAt c) (Handled.PutsOut udpAt c) (net.handled udpAt (.poll env)) :=
    hpolled.clients
  have hreached : ∀ c : Connection, c.Reached net'.world ↔ net.Keeps c := fun c =>
    (reached_congr hpolled.peers (fun _ => rfl) c).trans (reached_pollTransports net c)
  constructor
  · intro hnone c hc
    exact (hreached c).mp (hnone.reached c ((hclients c).mpr hc))
  · intro hkeeps
    have hall : ∀ c ∈ net'.session.clients, c.Reached net'.world := fun c hc =>
      (hreached c).mpr (hkeeps c ((hclients c).mp hc))
    refine ⟨hall, fun c hc hlost => ?_, ?_⟩
    · have hout : c ∉ net'.session.clients := fun hin => hlost (hall c hin)
      refine ⟨hout, fun hasked => ?_⟩
      -- it was a client, so a packet of the poll has put it out
      have hdismissed : ∃ p ∈ net.handled udpAt (.poll env), p.PutsOut udpAt c := by
        by_contra hno
        exact hout ((hclients c).mpr (.inl ⟨hc, fun p hp hleft => hno ⟨p, hp, hleft⟩⟩))
      obtain ⟨p, hp, hleft⟩ := hdismissed
      obtain ⟨new, hnew, hreported⟩ := hpolled.visits
      exact ⟨new, hnew, hreported hasked p hp c hleft⟩
    · rw [clientCount_eq hpolled.sound, eq_comm, List.countP_eq_length]
      exact fun c hc => decide_eq_true (hall c hc)

/-- What is asked of the polls of a server. -/
def AtPolls (P : PollEnv → NetworkManager (ℕ → UdpHost) → NetworkManager (ℕ → UdpHost) → Prop)
    (net : NetworkManager (ℕ → UdpHost)) : Call (ℕ → UdpHost) → Prop
  | .poll env => net.mode = .server → ∀ net' ∈ net.poll udpAt env, P env net net'
  | _ => True

/-- A call keeps a session sound. -/
theorem sound_step {σ : Type} {T : ℕ → ITransport σ} {net net' : NetworkManager σ} {call : Call σ}
    (hsound : net.session.Sound) (hfits : net.Fits call) (h : net.step T call = some net') :
    net'.session.Sound := by
  have hexec : Run.exec (step T) net [call] = some net' := by
    show (net.step T call).bind some = some net'
    rw [h, Option.bind_some]
  refine (history_invariant (T := T) (I := fun n => n.session.Sound) (fun _ _ hn => hn)
    (fun n c n' hn hok hpoll hstep => sound_callEffect hn hok (callEffect_step hstep hpoll))
    (fun _ hn => hn) (fun n env hn => by rwa [session_finishPoll]) hexec ⟨hfits, fun _ _ => trivial⟩
    (fun p _ hn => ?_) hsound).2
  have hbefore : (p.before T).session.Sound := hn
  exact sound_packetEffect hbefore (packetEffect_handlePacket p.env p.transport p.buffer p.sender)

/-- In a run from the start the polls of a server leave no client without a connection exactly as long as
none is silent, takes its leave of the transport or leaves resent messages unanswered but those that a
packet of the same poll puts out. -/
theorem noGhosts_run (net : NetworkManager (ℕ → UdpHost)) (run : List (Call (ℕ → UdpHost)))
    (hmode : net.mode = .none) (hclients : net.clients = [])
    (hfits : Run.Admits (step udpAt) Fits net run) :
    Run.Admits (step udpAt) (AtPolls fun _ net net' => NoGhosts net net') net run ↔
      Run.Admits (step udpAt) (AtPolls fun env net _ => net.KeepsPeers env) net run := by
  have hstart : net.session.Sound := by
    apply Session.sound_vacant
    · show net.clients.map _ = []
      rw [hclients, List.map_nil]
    · intro hserving
      change (net.mode = .server || net.mode = .host : Bool) = true at hserving
      rw [hmode] at hserving
      cases hserving
  have hone : ∀ n : NetworkManager (ℕ → UdpHost), ∀ call ∈ run, n.session.Sound →
      (AtPolls (fun _ net net' => NoGhosts net net') n call ∧ n.Fits call ↔
        AtPolls (fun env net _ => net.KeepsPeers env) n call ∧ n.Fits call) := by
    intro n call _ hn
    refine and_congr_left fun _ => ?_
    cases call with
    | poll env =>
      exact forall_congr' fun hserver => forall₂_congr fun n' hn' => noGhosts_iff hserver hn hn'
    | _ => exact Iff.rfl
  have hnext : ∀ n : NetworkManager (ℕ → UdpHost), ∀ call ∈ run, ∀ n', n.session.Sound →
      AtPolls (fun _ net net' => NoGhosts net net') n call ∧ n.Fits call →
      step udpAt n call = some n' → n'.session.Sound :=
    fun n call _ n' hn hok hstep => sound_step hn hok.2 hstep
  have hboth := Run.admits_iff_of_keeps hone hnext hstart
  rw [Run.admits_and, Run.admits_and] at hboth
  simpa [hfits] using hboth

/-! ### A server and a client on one machine -/

open Udp.World (goodEnv localAddr maskedShift userArrival)

/-- The clock of transport 0 is set, and the datagrams are what its next poll finds. -/
def hear (now : ℚ) (incoming : List Udp.Arrival) (world : ℕ → UdpHost) : ℕ → UdpHost :=
  Function.update world 0 { world 0 with env := goodEnv now, incoming := incoming }

/-- Outside of the calls no more happens than that. -/
def OnlyHears (net : NetworkManager (ℕ → UdpHost)) : Call (ℕ → UdpHost) → Prop
  | .network world => ∃ now incoming, world = hear now incoming net.world
  | _ => True

/-- Polls at the given times, each with the datagrams that it finds. -/
def polls : List (ℚ × List Udp.Arrival) → NetworkManager (ℕ → UdpHost) → List (Call (ℕ → UdpHost))
  | [], _ => []
  | (now, incoming) :: rest, net =>
    let heard := { net with world := hear now incoming net.world }
    let env : PollEnv :=
      { now := now, format := zeroFormat, packets := [{ now := now, format := zeroFormat }] }
    .network heard.world :: .poll env :: polls rest ((heard.poll udpAt env).getD heard)

theorem onlyHears_polls (script : List (ℚ × List Udp.Arrival)) (net : NetworkManager (ℕ → UdpHost)) :
    Run.Admits (step udpAt) OnlyHears net (polls script net) := by
  induction script generalizing net with
  | nil => trivial
  | cons turn rest ih =>
    refine ⟨⟨turn.1, turn.2, rfl⟩, fun heard hheard => ⟨trivial, fun polled hpolled => ?_⟩⟩
    obtain rfl := Option.some.inj hheard
    change poll udpAt _ _ = some polled at hpolled
    dsimp only at hpolled
    rw [hpolled]
    exact ih polled

/-- A server over a UDP transport whose socket is still closed. -/
def udpServer : NetworkManager (ℕ → UdpHost) where
  world _ := { platform := maskedShift, env := goodEnv 0 }
  callbacks := { onConnected := true, onDisconnected := true }

/-- It starts, and polls at the given times. -/
def udpRun (script : List (ℚ × List Udp.Arrival)) : List (Call (ℕ → UdpHost)) :=
  let config : Config := { mode := .server, maxClients := 1 }
  .start config 0 :: polls script (udpServer.start udpAt config 0).1

/-- The client's transport greets the server's, and the client asks to be let in. -/
def clientJoins : List (ℚ × List Udp.Arrival) :=
  [(1, [⟨localAddr .right, (Udp.controlHeader .handshake 0 0).serialize, goodEnv 1⟩,
    userArrival .left PacketReliability.reliableOrdered.index {} 0
      (sysPacket SysType.connectRequest []) 1])]

/-- Whoever is in the table before a poll, or may be let in by it, has a connection when the transports
have been polled. -/
def everyoneReached (net : NetworkManager (ℕ → UdpHost)) : Call (ℕ → UdpHost) → Bool
  | .poll env =>
    let world := (net.pollTransports udpAt).world
    net.session.clients.all (fun c => c.Reached world) &&
      (net.handled udpAt (.poll env)).all fun p =>
        ((p.before udpAt).openedBy p.transport p.sender).Reached world
  | _ => true

theorem keepsPeers_of_everyone {net : NetworkManager (ℕ → UdpHost)} {env : PollEnv}
    (h : net.everyoneReached (.poll env)) : net.KeepsPeers env := by
  unfold everyoneReached at h
  simp only [Bool.and_eq_true, List.all_eq_true, decide_eq_true_eq] at h
  obtain ⟨hclients, hpackets⟩ := h
  rintro c hremains
  rw [← reached_pollTransports]
  obtain ⟨hc, -⟩ | ⟨before, p, after, heq, ⟨-, rfl⟩, -⟩ := hremains
  · exact hclients c hc
  · exact hpackets p (by rw [heq]; simp)

theorem noGhosts_run_joins : ∃ net', Run.exec (step udpAt) udpServer (udpRun clientJoins) = some net' ∧
    net'.session.clients = [⟨1, localAddr .right, some 0, true⟩] ∧
    Run.Admits (step udpAt) (AtPolls fun _ net net' => NoGhosts net net') udpServer
      (udpRun clientJoins) := by
  have hexec : (Run.exec (step udpAt) udpServer (udpRun clientJoins)).map (fun net =>
      net.session.clients) = some [⟨1, localAddr .right, some 0, true⟩] := by
    decide +kernel
  obtain ⟨net', h, hclients⟩ := Option.map_eq_some_iff.mp hexec
  refine ⟨net', h, hclients, (noGhosts_run udpServer _ rfl rfl (by decide +kernel)).mpr ?_⟩
  have heveryone : Run.Admits (step udpAt) (fun net call => net.everyoneReached call) udpServer
      (udpRun clientJoins) := by
    decide +kernel
  refine heveryone.mono fun net call hcall => ?_
  cases call with
  | poll env => exact fun _ _ _ => keepsPeers_of_everyone hcall
  | _ => trivial

/-- Whoever is in the table after a poll of a server has a connection. -/
def reachedAfter (net : NetworkManager (ℕ → UdpHost)) : Call (ℕ → UdpHost) → Bool
  | .poll env => !(net.mode = .server) || (net.poll udpAt env).all fun net' =>
      net'.session.clients.all fun c => c.Reached net'.world
  | _ => true

/-- A client that has said nothing for seven seconds is no peer of the transport any more, but it is
still a client. -/
theorem ghost_stays : ¬∀ (net : NetworkManager (ℕ → UdpHost)) (run : List (Call (ℕ → UdpHost))),
    net.mode = .none → net.clients = [] → Run.Admits (step udpAt) Fits net run →
    Run.Admits (step udpAt) OnlyHears net run →
    Run.Admits (step udpAt) (AtPolls fun _ net net' => NoGhosts net net') net run := by
  intro hall
  have hhears : Run.Admits (step udpAt) OnlyHears udpServer (udpRun (clientJoins ++ [(8, [])])) := by
    refine ⟨trivial, fun started hstarted => ?_⟩
    obtain rfl := Option.some.inj hstarted
    exact onlyHears_polls _ _
  have hrun := hall udpServer (udpRun (clientJoins ++ [(8, [])])) rfl rfl (by decide +kernel) hhears
  have hreached : Run.Admits (step udpAt) (fun net call => net.reachedAfter call) udpServer
      (udpRun (clientJoins ++ [(8, [])])) := by
    refine hrun.mono fun net call hcall => ?_
    cases call with
    | poll env =>
      unfold reachedAfter
      by_cases hmode : net.mode = .server
      · simp only [hmode, decide_true, Bool.not_true, Bool.false_or, Option.all_eq_true,
          List.all_eq_true, decide_eq_true_eq]
        exact fun net' hnet' => (hcall hmode net' hnet').reached
      · simp [hmode]
    | _ => rfl
  revert hreached
  decide +kernel

end NetworkManager

end CampelloNet
