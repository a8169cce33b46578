import CampelloNet.Manager.Session

/-!
# The client table

Clients enter the table by a connect request, by `add_local_client` and when a host starts, and leave
it by a disconnect message, an oversized packet and `disconnect_client`; `start` and `stop` empty it.
Whatever the order, ids stay distinct and non-zero, no two remote clients share an address, there are
at most `max_clients` of them, and each was let in by the token and the approval callback.
-/

namespace CampelloNet.NetworkManager

open Lib Transport Crypto

variable {σ : Type}

/-! ### Sound sessions -/

namespace Session

def serving (s : Session) : Bool := s.mode = .server || s.mode = .host

/-- The clients that are reached through a transport. -/
def remotes (s : Session) : List Connection := s.clients.filter Connection.Remote

structure Sound (s : Session) : Prop where
  vacant : s.serving = false → s.clients = []
  bounded : s.serving → s.config.maxClients < 2 ^ 64
  approved : ∀ c ∈ s.clients, c.approved
  nonzero : ∀ c ∈ s.clients, c.id ≠ 0
  distinct : (s.clients.map Connection.id).Nodup
  addresses : (s.remotes.map Connection.address).Nodup
  capacity : s.remotes.length ≤ s.config.maxClients

variable {s : Session}

theorem remotes_enroll (c : Connection) (s : Session) :
    (s.enroll c).remotes = if c.Remote then s.remotes ++ [c] else s.remotes := by
  show (s.clients ++ [c]).filter Connection.Remote = _
  rw [List.filter_append]
  split_ifs with hc
  · rw [List.filter_cons_of_pos (by simpa using hc)]
    rfl
  · rw [List.filter_cons_of_neg (by simpa using hc), List.filter_nil, List.append_nil]
    rfl

theorem sound_vacant (hclients : s.clients = []) (hbound : s.serving → s.config.maxClients < 2 ^ 64) :
    s.Sound where
  vacant _ := hclients
  bounded := hbound
  approved c hc := by simp [hclients] at hc
  nonzero c hc := by simp [hclients] at hc
  distinct := by simp [hclients]
  addresses := by simp [remotes, hclients]
  capacity := by simp [remotes, hclients]

theorem sound_enroll {c : Connection} (h : s.Sound) (hserving : s.serving) (happroved : c.approved)
    (hnonzero : c.id ≠ 0) (hfresh : ∀ d ∈ s.clients, d.id ≠ c.id)
    (hremote : c.Remote → (∀ d ∈ s.clients, d.address ≠ c.address) ∧
      s.clients.length < s.config.maxClients) : (s.enroll c).Sound where
  vacant hno := by
    change s.serving = false at hno
    rw [hserving] at hno
    cases hno
  bounded := h.bounded
  approved d hd := by
    rcases List.mem_append.mp hd with hd | hd
    · exact h.approved d hd
    · rwa [List.mem_singleton.mp hd]
  nonzero d hd := by
    rcases List.mem_append.mp hd with hd | hd
    · exact h.nonzero d hd
    · rwa [List.mem_singleton.mp hd]
  distinct := by
    show ((s.clients ++ [c]).map Connection.id).Nodup
    rw [List.map_append]
    apply h.distinct.append (List.nodup_singleton _)
    intro id hid hc
    obtain ⟨d, hd, rfl⟩ := List.mem_map.mp hid
    exact hfresh d hd (List.mem_singleton.mp hc)
  addresses := by
    rw [remotes_enroll]
    split_ifs with hc
    · rw [List.map_append]
      apply h.addresses.append (List.nodup_singleton _)
      intro address haddr hnew
      obtain ⟨d, hd, rfl⟩ := List.mem_map.mp haddr
      exact (hremote hc).1 d (List.mem_filter.mp hd).1 (List.mem_singleton.mp hnew)
    · exact h.addresses
  capacity := by
    rw [remotes_enroll]
    show _ ≤ s.config.maxClients
    split_ifs with hc
    · have hle : s.remotes.length ≤ s.clients.length := List.length_filter_le _ _
      have hlt := (hremote hc).2
      rw [List.length_append, List.length_singleton]
      omega
    · exact h.capacity

theorem sound_drop (id : ClientId) (h : s.Sound) : (s.drop id).Sound where
  vacant hno := by
    show s.clients.filter _ = []
    rw [h.vacant hno, List.filter_nil]
  bounded := h.bounded
  approved c hc := h.approved c (List.mem_filter.mp hc).1
  nonzero c hc := h.nonzero c (List.mem_filter.mp hc).1
  distinct := h.distinct.sublist (List.filter_sublist.map _)
  addresses := h.addresses.sublist ((List.filter_sublist.filter _).map _)
  capacity := (List.filter_sublist.filter _).length_le.trans h.capacity

theorem sound_name (id : ClientId) (h : s.Sound) : (s.name id).Sound :=
  ⟨h.vacant, h.bounded, h.approved, h.nonzero, h.distinct, h.addresses, h.capacity⟩

theorem clients_launch (h : s.Sound) (config : Config) : (s.launch config).clients = [] := by
  unfold launch
  dsimp only
  split_ifs with hmode
  · apply h.vacant
    simp [serving, hmode]
  · rfl

theorem Fresh.ne {id : ClientId} (h : s.Fresh id) (hlen : s.clients.length + 1 < 2 ^ 64) :
    id ≠ 0 ∧ ∀ c ∈ s.clients, c.id ≠ id := h hlen

theorem sound_local {id : ClientId} (h : s.Sound) (hserving : s.serving) (hfresh : s.Fresh id)
    (hlen : s.clients.length + 1 < 2 ^ 64) : (s.enroll (.local id)).Sound := by
  obtain ⟨hnonzero, hnew⟩ := hfresh.ne hlen
  apply sound_enroll h hserving rfl hnonzero hnew
  intro hremote
  cases hremote

end Session

/-! ### Steps -/

/-- What the code's types promise of the arguments: `max_clients` is a `std::size_t`, and a vector
has fewer elements than there are client ids. -/
def Fits (net : NetworkManager σ) : Call σ → Prop
  | .start config _ => config.maxClients < 2 ^ 64
  | .addLocalClient => net.clients.length + 1 < 2 ^ 64
  | _ => True

instance (net : NetworkManager σ) : ∀ call, Decidable (net.Fits call)
  | .start config _ => inferInstanceAs (Decidable (config.maxClients < 2 ^ 64))
  | .addLocalClient => inferInstanceAs (Decidable (net.clients.length + 1 < 2 ^ 64))
  | .network _ | .setTransport _ | .addTransport _ | .stop | .poll _ | .disconnectClient _
  | .disconnect | .sendToClient _ _ _ | .broadcast _ _ _ | .send _ _ | .popMessage
  | .setCallbacks _ | .setConnectionToken _ | .setReplicationManager _ | .setRpcManager _
  | .spawn _ _ _ _ | .destroy _ _ | .setOwner _ _ | .sendFullState _ | .markDirty _
  | .serverTick _ _ | .clientTick _ _ | .invokeRpc _ _ _ => isTrue trivial

section
variable {net : NetworkManager σ} {s : Session}

theorem length_session : net.session.clients.length = net.clients.length := List.length_map _

theorem clientCount_eq (h : net.session.Sound) : net.clientCount = net.session.clients.length := by
  have hall : ∀ c ∈ net.clients, c.approved := fun c hc =>
    h.approved c.toConnection (List.mem_map_of_mem hc)
  unfold clientCount
  rw [length_session, List.countP_eq_length]
  exact hall

/-- An address that no approved client has is in no entry of a sound table. -/
theorem address_unknown (h : net.session.Sound) {sender : Address}
    (hunknown : (net.findClientByAddress sender).filter ClientEntry.approved = none) :
    ∀ d ∈ net.session.clients, d.address ≠ sender := by
  intro d hd heq
  obtain ⟨entry, hentry, rfl⟩ := List.mem_map.mp hd
  have hnone : net.findClientByAddress sender = none := by
    rcases hfind : net.findClientByAddress sender with _ | found
    · rfl
    · have happroved : found.approved := h.approved found.toConnection
        (List.mem_map_of_mem (lookup_mem hfind))
      rw [hfind, Option.filter_some, if_pos happroved] at hunknown
      cases hunknown
  exact List.find?_eq_none.mp hnone entry hentry (decide_eq_true heq)

theorem sound_packetEffect {env : PacketEnv} {t : ℕ} {buffer : Bytes} {sender : Address}
    (h : net.session.Sound) (he : net.PacketEffect env t buffer sender s) : s.Sound := by
  cases he with
  | keep => exact h
  | enroll hadm =>
    have hroom := hadm.room
    have hbound := h.bounded hadm.serving
    change net.config.maxClients < 2 ^ 64 at hbound
    rw [clientCount_eq h] at hroom
    obtain ⟨hnonzero, hnew⟩ := net.fresh_generateClientId.ne (by omega)
    apply Session.sound_enroll h hadm.serving rfl hnonzero hnew
    intro _
    exact ⟨address_unknown h hadm.unknown, hroom⟩
  | drop _ _ _ => exact Session.sound_drop _ h
  | accept _ _ _ _ => exact Session.sound_name _ h
  | leave _ _ => exact Session.sound_name _ h

theorem sound_callEffect {call : Call σ} (h : net.session.Sound) (hfits : net.Fits call)
    (he : net.CallEffect call s) : s.Sound := by
  cases he with
  | keep => exact h
  | close _ => exact Session.sound_vacant rfl fun hs => by cases hs
  | fail =>
    rename_i config udp
    refine Session.sound_vacant ?_ fun hs => by cases hs
    exact Session.clients_launch h config
  | launch =>
    refine Session.sound_vacant ?_ fun _ => hfits
    exact Session.clients_launch h _
  | host hmode hfresh =>
    rename_i config udp id
    have hnil : ((net.session.launch config).name id).clients = [] :=
      Session.clients_launch h config
    have hserving : ((net.session.launch config).name id).serving := by
      show (config.mode = .server || config.mode = .host : Bool) = true
      rw [hmode]
      rfl
    refine Session.sound_local (Session.sound_vacant hnil fun _ => hfits) hserving hfresh ?_
    rw [hnil, List.length_nil]
    omega
  | addLocal hserving hfresh =>
    refine Session.sound_local h hserving hfresh ?_
    rw [length_session]
    exact hfits
  | leave _ => exact Session.sound_drop _ (Session.sound_name _ h)
  | drop _ => exact Session.sound_drop _ h

end

/-! ### Where the remote clients come from -/

/-- What of a connect request's payload is left for the approval callback. -/
def authData (payload : Bytes) (net : NetworkManager σ) : Bytes :=
  if net.config.requireConnectionToken then payload.drop ConnectionToken.SIZE else payload

/-- The packet is a connect request that passed every check and opened the connection. -/
structure Handled.Opens (T : ℕ → ITransport σ) (p : Handled σ) (c : Connection) : Prop where
  request : p.net.SystemMessage SysType.connectRequest p.buffer
  token : p.net.config.requireConnectionToken →
    ConnectionToken.SIZE ≤ (p.buffer.drop 3).length ∧
    ConnectionToken.validate hmacSha256 ((p.buffer.drop 3).take ConnectionToken.SIZE)
      p.net.config.connectionTokenSecret (UInt32.ofInt p.env.now.floor)
  approval : p.net.callbacks.onApproval → p.env.approve ∧ ∃ calls, (p.after T).calls =
    p.net.calls ++ .onApproval p.sender (p.net.authData (p.buffer.drop 3)) :: calls
  opened : (p.after T).session = (p.before T).session.enroll c

section
variable {T : ℕ → ITransport σ} {net : NetworkManager σ}

/-- Every remote client of the session was let in by a packet of the list, under the configuration of
the session. -/
def Vouched (T : ℕ → ITransport σ) (packets : List (Handled σ)) (s : Session) : Prop :=
  ∀ c ∈ s.clients, c.Remote → ∃ p ∈ packets, p.net.config = s.config ∧ p.Opens T c

theorem checkToken_valid {env : PacketEnv} {data : Bytes} (h : (net.checkToken env data).1)
    (hrequired : net.config.requireConnectionToken) :
    ConnectionToken.SIZE ≤ data.length ∧ ConnectionToken.validate hmacSha256
      (data.take ConnectionToken.SIZE) net.config.connectionTokenSecret
      (UInt32.ofInt env.now.floor) := by
  unfold checkToken at h
  rw [if_neg (by simp [hrequired])] at h
  split_ifs at h with hlen hvalid
  exact ⟨not_lt.mp hlen, hvalid⟩

theorem checkToken_passed {env : PacketEnv} {data : Bytes} (h : (net.checkToken env data).1) :
    net.checkToken env data = (true, net.authData data) := by
  unfold checkToken at h ⊢
  unfold authData
  by_cases hrequired : net.config.requireConnectionToken
  · rw [if_neg (by simp [hrequired])] at h ⊢
    rw [if_pos hrequired]
    split_ifs at h ⊢
    rfl
  · rw [if_pos (by simp [hrequired]), if_neg hrequired]

/-- The question that is put to the approval callback. -/
def question (sender : Address) (data : Bytes) (net : NetworkManager σ) : List AppCall :=
  if net.callbacks.onApproval then [.onApproval sender (net.authData data)] else []

theorem checkApproval_passed {env : PacketEnv} {sender : Address} {data : Bytes}
    (htoken : (net.checkToken env data).1) (happroval : net.callbacks.onApproval → env.approve) :
    net.checkApproval env sender data = (net.called (net.question sender data), true) := by
  unfold checkApproval question
  rw [checkToken_passed htoken]
  dsimp only
  by_cases hasked : net.callbacks.onApproval
  · rw [hasked, happroval hasked]
    rfl
  · rw [if_neg (by simp [hasked]), if_neg hasked]
    unfold called
    rw [List.append_nil]

/-- A request that passes every check is answered by admitting the client. -/
theorem handlePacket_of_admission {env : PacketEnv} {buffer : Bytes} {sender : Address}
    (h : net.Admission env buffer sender) (t : ℕ) :
    net.handlePacket T env t buffer sender =
      (net.called (net.question sender (buffer.drop 3))).admitClient T
        ((net.called (net.question sender (buffer.drop 3))).newEntry env t sender) t := by
  have hne : buffer ≠ [] := by
    intro hnil
    have hsys := h.system
    rw [hnil] at hsys
    cases hsys
  have hrequest : net.onConnectRequest T env sender t (buffer.drop 3) =
      (net.called (net.question sender (buffer.drop 3))).admitClient T
        ((net.called (net.question sender (buffer.drop 3))).newEntry env t sender) t := by
    unfold onConnectRequest
    rw [if_neg (by simp [h.serving]), h.unknown, checkApproval_passed h.token h.approval]
    exact if_neg (not_le.mpr h.room)
  unfold handlePacket onSystem
  dsimp only
  rw [if_neg hne, if_neg (not_lt.mpr h.fits), if_pos h.system, if_pos h.serving, h.request,
    ← hrequest]
  split
  · rfl
  · rfl

theorem calls_admitClient (entry : ClientEntry) (t : ℕ) :
    ∃ calls, (net.admitClient T entry t).calls = net.calls ++ calls := by
  unfold admitClient callOnConnected
  dsimp only
  split_ifs
  · exact ⟨[.onConnected entry.id], rfl⟩
  · exact ⟨[], (List.append_nil _).symm⟩

theorem opens_of_admission {p : Handled σ}
    (h : (p.before T).Admission p.env p.buffer p.sender) :
    p.Opens T ((p.before T).openedBy p.transport p.sender) := by
  have hafter : p.after T = _ := handlePacket_of_admission h p.transport
  refine ⟨⟨h.fits, h.system, h.request⟩, fun hrequired => ?_, fun hasked => ?_, ?_⟩
  · exact checkToken_valid h.token hrequired
  · refine ⟨h.approval hasked, ?_⟩
    obtain ⟨calls, hcalls⟩ := calls_admitClient (T := T)
      (((p.before T).called ((p.before T).question p.sender (p.buffer.drop 3))).newEntry
        p.env p.transport p.sender) p.transport
    refine ⟨calls, ?_⟩
    rw [hafter, hcalls]
    show (p.net.calls ++ p.net.question p.sender (p.buffer.drop 3)) ++ calls = _
    unfold question
    rw [if_pos hasked, List.append_assoc]
    rfl
  · rw [hafter, session_admitClient]
    rfl

theorem vouched_packet {packets : List (Handled σ)} {p : Handled σ} (hp : p ∈ packets)
    (h : Vouched T packets p.net.session) : Vouched T packets (p.after T).session := by
  have he : (p.before T).PacketEffect p.env p.transport p.buffer p.sender (p.after T).session :=
    packetEffect_handlePacket p.env p.transport p.buffer p.sender
  generalize (p.after T).session = s at he
  intro c hc hremote
  cases he with
  | keep => exact h c hc hremote
  | enroll hadm =>
    rcases List.mem_append.mp hc with hc | hc
    · exact h c hc hremote
    · rw [List.mem_singleton.mp hc]
      exact ⟨p, hp, rfl, opens_of_admission hadm⟩
  | drop _ _ _ => exact h c (List.mem_filter.mp hc).1 hremote
  | accept _ _ _ _ => exact h c hc hremote
  | leave _ _ => exact h c hc hremote

theorem vouched_callEffect {packets : List (Handled σ)} {call : Call σ} {s : Session}
    (h : Vouched T packets net.session) (hsound : net.session.Sound) (he : net.CallEffect call s) :
    Vouched T packets s := by
  have hvacant : ∀ config, ∀ c ∈ (net.session.launch config).clients, False := by
    intro config c hc
    rw [Session.clients_launch hsound] at hc
    cases hc
  intro c hc hremote
  cases he with
  | keep => exact h c hc hremote
  | close _ => cases hc
  | fail =>
    rename_i config udp
    exact (hvacant config c hc).elim
  | launch => exact (hvacant _ c hc).elim
  | host _ _ =>
    rename_i config udp id _ _
    rcases List.mem_append.mp hc with hc | hc
    · exact (hvacant config c hc).elim
    · rw [List.mem_singleton.mp hc] at hremote
      cases hremote
  | addLocal _ _ =>
    rcases List.mem_append.mp hc with hc | hc
    · exact h c hc hremote
    · rw [List.mem_singleton.mp hc] at hremote
      cases hremote
  | leave _ => exact h c (List.mem_filter.mp hc).1 hremote
  | drop _ => exact h c (List.mem_filter.mp hc).1 hremote

/-! ### Runs -/

/-- In a run that starts with a stopped manager the table is sound whenever a packet is handled and at
the end, and every remote client was let in by a packet of the run. -/
theorem clientTable_run {run : List (Call σ)} {net' : NetworkManager σ} (hmode : net.mode = .none)
    (hclients : net.clients = []) (h : Run.exec (step T) net run = some net')
    (hfits : Run.Admits (step T) Fits net run) :
    (∀ p ∈ net.history T run, p.net.session.Sound) ∧ net'.session.Sound ∧
      Vouched T (net.history T run) net'.session := by
  have hnil : net.session.clients = [] := by
    show net.clients.map _ = []
    rw [hclients, List.map_nil]
  have hstart : net.session.Sound := by
    apply Session.sound_vacant hnil
    intro hserving
    change (net.mode = .server || net.mode = .host : Bool) = true at hserving
    rw [hmode] at hserving
    cases hserving
  have hinv := history_invariant (T := T)
    (I := fun n => n.session.Sound ∧ Vouched T (net.history T run) n.session)
    (fun n world hn => hn)
    (fun n call n' hn hok hpoll hstep =>
      ⟨sound_callEffect hn.1 hok (callEffect_step hstep hpoll),
        vouched_callEffect hn.2 hn.1 (callEffect_step hstep hpoll)⟩)
    (fun n hn => hn)
    (fun n env hn => by rwa [session_finishPoll])
    h hfits
    (fun p hp hn => by
      have he : (p.before T).PacketEffect p.env p.transport p.buffer p.sender
          ((p.before T).handlePacket T p.env p.transport p.buffer p.sender).session :=
        packetEffect_handlePacket p.env p.transport p.buffer p.sender
      have hsound : (p.before T).session.Sound := hn.1
      exact ⟨sound_packetEffect hsound he, vouched_packet hp hn.2⟩)
    ⟨hstart, fun c hc => by rw [hnil] at hc; cases hc⟩
  exact ⟨fun p hp => (hinv.1 p hp).1, hinv.2⟩

end

/-- The invariants of the client table, in every state that a manager reaches from its start. -/
theorem clientTable_invariant (T : ℕ → ITransport σ) (net net' : NetworkManager σ)
    (run : List (Call σ)) (hmode : net.mode = .none) (hclients : net.clients = [])
    (h : Run.exec (step T) net run = some net') (hfits : Run.Admits (step T) Fits net run) :
    (∀ c ∈ net'.clients, c.id ≠ 0) ∧ (net'.clients.map ClientEntry.id).Nodup ∧
    ((net'.clients.filter fun c => c.transport.isSome).map ClientEntry.address).Nodup ∧
    (net'.clients.filter fun c => c.transport.isSome).length ≤ net'.config.maxClients ∧
    ∀ c ∈ net'.clients, c.transport.isSome → ∃ p ∈ net.history T run,
      p.net.config = net'.config ∧ p.Opens T c.toConnection := by
  obtain ⟨-, hsound, hvouched⟩ := clientTable_run hmode hclients h hfits
  have hremotes : net'.session.remotes =
      (net'.clients.filter fun c => c.transport.isSome).map ClientEntry.toConnection := by
    show (net'.clients.map ClientEntry.toConnection).filter _ = _
    rw [List.filter_map]
    congr 1
    apply List.filter_congr
    intro c _
    exact Bool.decide_coe c.transport.isSome
  have hids : net'.session.clients.map Connection.id = net'.clients.map ClientEntry.id :=
    List.map_map
  have haddresses := hsound.addresses
  have hcapacity := hsound.capacity
  rw [hremotes, List.map_map] at haddresses
  rw [hremotes, List.length_map] at hcapacity
  refine ⟨fun c hc => ?_, hids ▸ hsound.distinct, haddresses, hcapacity, fun c hc hremote => ?_⟩
  · exact hsound.nonzero c.toConnection (List.mem_map_of_mem hc)
  · exact hvouched c.toConnection (List.mem_map_of_mem hc) hremote

/-- What `generate` makes of the default secret, an expiry of 60 seconds and time 0. -/
def token : Bytes :=
  [0, 0, 0, 0, 60, 0, 0, 0, 0, 0, 0, 0, 0, 0, 0, 0, 0, 0, 60, 0, 0, 0, 0, 0, 0, 0, 152, 172, 179, 129,
    0, 0, 150, 96, 52, 229, 78, 92, 212, 88, 141, 175, 223, 66, 212, 26, 5, 142, 128, 135, 170, 75,
    74, 47, 126, 173, 111, 16, 174, 37, 24, 83, 119, 180]

def tokenServer : NetworkManager LoopbackHub := { world := {} }

/-- The server starts and adds a local client, and another client presents its token. -/
def tokenRun : List (Call LoopbackHub) :=
  [.start { mode := .server, bindAddress := LoopbackHub.serverAddr, requireConnectionToken := true } 0,
    .addLocalClient, .network (LoopbackHub.arrived [sysPacket SysType.connectRequest token]),
    pollCall 1]

/-- One client without a transport and one with a token. -/
theorem clientTable_invariant_token : ∃ net',
    Run.exec (step loopback) tokenServer tokenRun = some net' ∧
    net'.session.clients =
      [⟨1, .invalid, none, true⟩, ⟨2, LoopbackHub.clientAddr, some 0, true⟩] ∧
    (net'.clients.map ClientEntry.id).Nodup ∧
    ∀ c ∈ net'.clients, c.transport.isSome → ∃ p ∈ tokenServer.history loopback tokenRun,
      p.net.config = net'.config ∧ p.Opens loopback c.toConnection := by
  have hexec : (Run.exec (step loopback) tokenServer tokenRun).map
      (fun net => net.session.clients) =
        some [⟨1, .invalid, none, true⟩, ⟨2, LoopbackHub.clientAddr, some 0, true⟩] := by
    decide +kernel
  obtain ⟨net', h, hclients⟩ := Option.map_eq_some_iff.mp hexec
  have hfits : Run.Admits (step loopback) Fits tokenServer tokenRun := by
    refine ⟨by decide, fun started hstarted => ⟨?_, fun _ _ => ⟨trivial, fun _ _ => ⟨trivial,
      fun _ _ => trivial⟩⟩⟩⟩
    obtain rfl := Option.some.inj hstarted
    decide +kernel
  obtain ⟨-, hids, -, -, hopens⟩ :=
    clientTable_invariant loopback tokenServer net' tokenRun rfl rfl h hfits
  exact ⟨net', h, hclients, hids, hopens⟩

end CampelloNet.NetworkManager
