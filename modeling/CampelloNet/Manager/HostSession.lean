import CampelloNet.Manager.World

/-!
# The session of a host

A host is a server with a client of its own: `local_client_id` is an entry of its table and its
transport is bound. Host mode passes the guards of the client's messages as well as the server's, so
a client can rename the host with a connect accept and close its transport with a connect reject;
`Seizes` says when a packet does. In a run without such packets the host keeps both.
-/

namespace CampelloNet

open Lib Transport

/-! ### Transports that note their disconnects -/

namespace Transport

variable {σ : Type}

/-- The transport over a world with a list of the transports that were told to disconnect. -/
def logged (T : ℕ → ITransport σ) (t : ℕ) : ITransport (σ × List ℕ) where
  bind address w := (((T t).bind address w.1).map (·, w.2) id)
  connect address w := (((T t).connect address w.1).map (·, w.2) id)
  disconnect w := ((T t).disconnect w.1, w.2 ++ [t])
  isConnected w := (T t).isConnected w.1
  send data r w := (((T t).send data r w.1).map (·, w.2) id)
  sendTo address data r w := (((T t).sendTo address data r w.1).map (·, w.2) id)
  poll w := ((T t).poll w.1, w.2)
  popReceive n w := (((T t).popReceive n w.1).map (·, w.2) id)
  getConnectionRtt address w := (T t).getConnectionRtt address w.1

end Transport

namespace NetworkManager

section
variable {σ : Type} {T : ℕ → ITransport σ} {B : σ → Prop}

/-! ### What a host does to the world -/

section
variable {net net' : NetworkManager σ} (hB : SendsKeep T B) (h : B net.world)
include hB h

omit h in
theorem SendsKeep.sendsAt : SendsAt T (fun _ _ => True) B :=
  ⟨fun t data r w _ => hB.send t data r w, fun t address data r w _ => hB.sendTo t address data r w⟩

/-- At a host no packet but a connect reject reaches for the transport other than to send. -/
theorem world_hostPacket (env : PacketEnv) (t : ℕ) {buffer : Bytes} {sender : Address}
    (hhost : net.mode = .host)
    (hreject : net.SystemMessage SysType.connectReject buffer →
      (net.findClientByAddress sender).isSome → net.transport = none) :
    B (net.handlePacket T env t buffer sender).world := by
  have hserving : net.serving := by simp [serving, hhost]
  refine world_handlePacket hB.sendsAt (fun _ _ _ => trivial) env t (fun hclose u hu => ?_) h
  rcases hclose with hclient | ⟨hmsg, hknown⟩
  · rw [hhost] at hclient
    cases hclient
  · rw [hreject hmsg (hknown hserving)] at hu
    cases hu

/-- The calls of a host that goes on: it does not stop and does not disconnect its own client. -/
def GoesOn (net : NetworkManager σ) (call : Call σ) : Prop :=
  ¬call.Ends ∧ call ≠ .disconnectClient net.localClientId

omit hB h in
theorem world_hostCall {call : Call σ} (hB : SendsKeep T B) (h : B net.world) (hgo : net.GoesOn call)
    (hnetwork : ∀ world, call = .network world → B world) (hpoll : ∀ env, call ≠ .poll env)
    (hstep : net.step T call = some net') : B net'.world := by
  by_cases hplain : call.Plain
  · exact (quiet_step net hplain hstep).world B hB h
  · cases call with
    | poll env => exact absurd rfl (hpoll env)
    | network world =>
      cases hstep
      exact hnetwork world rfl
    | setTransport t => exact absurd trivial hgo.1
    | addTransport t => cases hstep; exact h
    | start config udp => exact absurd trivial hgo.1
    | stop => exact absurd trivial hgo.1
    | disconnect => exact absurd trivial hgo.1
    | addLocalClient =>
      cases hstep
      unfold addLocalClient callOnConnected
      dsimp only
      split_ifs <;> exact h
    | disconnectClient client =>
      cases hstep
      exact world_disconnectClient hB.sendsAt (fun _ _ _ => trivial) client h
    | _ => exact absurd trivial hplain

end

/-! ### Packets that seize the host -/

section
variable (net : NetworkManager σ)

/-- A packet of a client names the host anew, closes its transport, or is taken for the host's own
goodbye. -/
def Seizes (buffer : Bytes) (sender : Address) : Prop :=
  (net.SystemMessage SysType.connectAccept buffer ∧ (net.findClientByAddress sender).isSome ∧
    8 ≤ (buffer.drop 3).length ∧ readBe64 (buffer.drop 3) ≠ net.localClientId) ∨
  (net.SystemMessage SysType.connectReject buffer ∧ (net.findClientByAddress sender).isSome ∧
    net.transport.isSome) ∨
  (net.SystemMessage SysType.disconnectNotify buffer ∧
    ∃ entry ∈ net.findClientByAddress sender, entry.id = net.localClientId)

instance (type : UInt8) (buffer : Bytes) : Decidable (net.SystemMessage type buffer) :=
  inferInstanceAs (Decidable (_ ∧ _ ∧ _))

instance (buffer : Bytes) (sender : Address) : Decidable (net.Seizes buffer sender) :=
  inferInstanceAs (Decidable (_ ∨ _ ∨ _))

/-- The host runs, under the id of its own client. -/
def HostedAs (id : ClientId) : Prop :=
  net.mode = .host ∧ net.localClientId = id ∧ Connection.local id ∈ net.session.clients

variable {net} {id : ClientId}

/-- The own client is still there when another has been dropped. -/
theorem mem_drop {other : ClientId} (h : Connection.local id ∈ net.session.clients)
    (hne : other ≠ id) : Connection.local id ∈ (net.session.drop other).clients :=
  List.mem_filter.mpr ⟨h, decide_eq_true fun heq : id = other => hne heq.symm⟩

theorem hostedAs_handlePacket (h : net.HostedAs id) {env : PacketEnv} {t : ℕ} {buffer : Bytes}
    {sender : Address} (hseizes : ¬net.Seizes buffer sender) :
    (net.handlePacket T env t buffer sender).HostedAs id := by
  obtain ⟨hmode, hid, hown⟩ := h
  have he : net.PacketEffect env t buffer sender (net.handlePacket T env t buffer sender).session :=
    packetEffect_handlePacket env t buffer sender
  suffices hs : (net.handlePacket T env t buffer sender).session.mode = .host ∧
      (net.handlePacket T env t buffer sender).session.localClientId = id ∧
      Connection.local id ∈ (net.handlePacket T env t buffer sender).session.clients from hs
  generalize (net.handlePacket T env t buffer sender).session = s at he
  cases he with
  | keep => exact ⟨hmode, hid, hown⟩
  | enroll _ => exact ⟨hmode, hid, List.mem_append_left _ hown⟩
  | drop hserving hfound hreason =>
    rename_i entry
    refine ⟨hmode, hid, mem_drop hown ?_⟩
    rcases hreason with hnotify | hother
    · intro heq
      exact hseizes (.inr (.inr ⟨hnotify, entry, hfound, heq.trans hid.symm⟩))
    · rwa [hid] at hother
  | accept hjoining hmsg hlen hknown =>
    have hserving : net.serving := by simp [serving, hmode]
    have hsame : readBe64 (buffer.drop 3) = net.localClientId := by
      by_contra hne
      exact hseizes (.inl ⟨hmsg, hknown hserving, hlen, hne⟩)
    exact ⟨hmode, hsame.trans hid, hown⟩
  | leave hclient _ =>
    rw [hmode] at hclient
    cases hclient

theorem hostedAs_step (h : net.HostedAs id) {call : Call σ} (hgo : net.GoesOn call)
    (hpoll : ∀ env, call ≠ .poll env) {net' : NetworkManager σ}
    (hstep : net.step T call = some net') : net'.HostedAs id := by
  obtain ⟨hmode, hid, hown⟩ := h
  have he := callEffect_step hstep hpoll
  suffices hs : net'.session.mode = .host ∧ net'.session.localClientId = id ∧
      Connection.local id ∈ net'.session.clients from hs
  generalize net'.session = s at he
  cases he with
  | keep => exact ⟨hmode, hid, hown⟩
  | close hends => exact absurd hends hgo.1
  | fail => exact absurd trivial hgo.1
  | launch => exact absurd trivial hgo.1
  | host _ _ => exact absurd trivial hgo.1
  | addLocal _ _ => exact ⟨hmode, hid, List.mem_append_left _ hown⟩
  | leave hown' => exact absurd hown' (not_or.mpr hgo)
  | drop hother => exact ⟨hmode, hid, mem_drop hown (hid ▸ hother)⟩

theorem hostedAs_session {net' : NetworkManager σ} (h : net.HostedAs id)
    (hsame : net'.session = net.session) : net'.HostedAs id := by
  obtain ⟨hmode, hid, hown⟩ := h
  refine ⟨?_, ?_, ?_⟩
  · exact (congrArg Session.mode hsame).trans hmode
  · exact (congrArg Session.localClientId hsame).trans hid
  · rwa [hsame]

end

/-! ### Runs -/

theorem sendsKeep_logged (T : ℕ → ITransport σ) (log : List ℕ) :
    SendsKeep (logged T) fun w => w.2 = log :=
  ⟨fun _ _ _ _ h => h, fun _ _ _ _ _ h => h⟩

theorem logged_pollTransports (net : NetworkManager (σ × List ℕ)) :
    (net.pollTransports (logged T)).world.2 = net.world.2 := by
  show (net.transports.foldl (fun world t => ((T t).poll world.1, world.2)) net.world).2 = _
  generalize net.world = w
  induction net.transports generalizing w with
  | nil => rfl
  | cons t ts ih => rw [List.foldl_cons, ih]

/-- The call is one of a host that goes on, and nothing else disconnects its transports. -/
def HostCall (net : NetworkManager (σ × List ℕ)) (call : Call (σ × List ℕ)) : Prop :=
  net.GoesOn call ∧ ∀ world, call = .network world → world.2 = net.world.2

end

/-- In a run without packets that seize it, a host that neither stops nor disconnects its own client
keeps its id, with its entry in the table, and tells no transport to disconnect. -/
theorem hostSession_kept {σ : Type} (T : ℕ → ITransport σ) (net net' : NetworkManager (σ × List ℕ))
    (run : List (Call (σ × List ℕ))) (hhost : net.HostedAs net.localClientId)
    (h : Run.exec (step (logged T)) net run = some net')
    (hcalls : Run.Admits (step (logged T)) HostCall net run)
    (hpackets : ∀ p ∈ net.history (logged T) run, ¬p.net.Seizes p.buffer p.sender) :
    net'.HostedAs net.localClientId ∧ net'.world.2 = net.world.2 := by
  have hkeep := sendsKeep_logged T net.world.2
  refine (history_invariant (T := logged T)
    (I := fun n => n.HostedAs net.localClientId ∧ n.world.2 = net.world.2)
    ?_ ?_ ?_ ?_ h hcalls ?_ ⟨hhost, rfl⟩).2
  · intro n t hn
    exact hn
  · rintro n call n' ⟨hn, hlog⟩ ⟨hgo, hnetwork⟩ hpoll hstep
    refine ⟨hostedAs_step hn hgo hpoll hstep, ?_⟩
    exact world_hostCall hkeep hlog hgo (fun world hw => (hnetwork world hw).trans hlog) hpoll hstep
  · rintro n ⟨hn, hlog⟩
    exact ⟨hn, (logged_pollTransports n).trans hlog⟩
  · rintro n env ⟨hn, hlog⟩
    exact ⟨hostedAs_session hn (session_finishPoll env), world_finishPoll hkeep.sendsAt (fun _ _ _ => trivial) env hlog⟩
  · rintro p hp ⟨hn, hlog⟩
    have hseizes : ¬(p.before (logged T)).Seizes p.buffer p.sender := hpackets p hp
    have hbefore : (p.before (logged T)).HostedAs net.localClientId := hn
    have hlogged : (p.before (logged T)).world.2 = net.world.2 := hlog
    refine ⟨hostedAs_handlePacket hbefore hseizes, ?_⟩
    apply world_hostPacket hkeep hlogged p.env p.transport hbefore.1
    intro hreject hknown
    by_contra htransport
    exact hseizes (.inr (.inl ⟨hreject, hknown, Option.ne_none_iff_isSome.mp htransport⟩))

/-- A host as it has started. -/
def startedHost : NetworkManager (LoopbackHub × List ℕ) :=
  (start (logged loopback) { mode := .host, bindAddress := LoopbackHub.serverAddr } 0
    { world := ({}, []) }).1

/-- The packets arrive from one client and are polled. -/
def arrivals (packets : List Bytes) : List (Call (LoopbackHub × List ℕ)) :=
  [.network (LoopbackHub.arrived packets, []),
    .poll { now := 0, format := zeroFormat, packets := packets.map fun _ => packetEnv }]

/-- A client connects, sends a message and leaves. -/
def visit : List (Call (LoopbackHub × List ℕ)) :=
  arrivals [sysPacket SysType.connectRequest [], [1, 2], sysPacket SysType.disconnectNotify []]

theorem hostSession_kept_visit : ∃ net', Run.exec (step (logged loopback)) startedHost visit =
    some net' ∧ net'.HostedAs 1 ∧ net'.world.2 = [] := by
  obtain ⟨net', h⟩ : ∃ net', Run.exec (step (logged loopback)) startedHost visit = some net' :=
    Option.isSome_iff_exists.mp (by decide +kernel)
  have hhost : startedHost.HostedAs startedHost.localClientId := by
    refine ⟨?_, rfl, ?_⟩ <;> decide +kernel
  have hid : startedHost.localClientId = 1 := by decide +kernel
  have hlog : startedHost.world.2 = [] := by decide +kernel
  have hpackets : ∀ p ∈ startedHost.history (logged loopback) visit,
      ¬p.net.Seizes p.buffer p.sender := by
    decide +kernel
  have hcalls : Run.Admits (step (logged loopback)) HostCall startedHost visit := by
    refine ⟨⟨⟨id, fun h => by cases h⟩, fun world hw => ?_⟩, fun mid _ => ⟨⟨⟨id, fun h => by cases h⟩,
      fun world hw => by cases hw⟩, fun _ _ => trivial⟩⟩
    cases hw
    exact hlog.symm
  have hkept := hostSession_kept loopback startedHost net' visit hhost h hcalls hpackets
  rw [hid, hlog] at hkept
  exact ⟨net', h, hkept⟩

/-- A client connects, sends the host a connect accept with the id 99 and a connect reject: the host
goes by an id that is not in its table, and its transport has been told to disconnect. -/
theorem hostSession_seized : (Run.exec (step (logged loopback)) startedHost
    (arrivals [sysPacket SysType.connectRequest [], sysPacket SysType.connectAccept (be64 99),
      sysPacket SysType.connectReject []])).map
        (fun net => (net.mode, net.localClientId, net.clients.map ClientEntry.id, net.world.2)) =
    some (.host, 99, [1, 2], [0]) := by
  decide +kernel

end NetworkManager

end CampelloNet
