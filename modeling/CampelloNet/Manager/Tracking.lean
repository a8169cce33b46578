import CampelloNet.Manager.Roster

/-!
# The clients of the replication manager

An attached replication manager is told of the clients that enter and leave the table, but a host
does not tell it of its own client when it starts, and `stop` tells it of nobody. In runs without
these its clients are those of the table.
-/

namespace CampelloNet.NetworkManager

open Lib Transport
open NetworkReplicationManager (noteId mem_noteId)

variable {σ : Type}

/-- The clients of the replication manager, if one is attached, are the approved clients. -/
def TracksClients (net : NetworkManager σ) : Prop :=
  ∀ rep ∈ net.replicationManager, ∀ id,
    id ∈ rep.clientStates.map Prod.fst ↔ ∃ c ∈ net.clients, c.approved ∧ c.id = id

/-! ### What the replication manager is not told -/

/-- A call that stops the manager finds no clients, one that starts a host finds no replication
manager, and one that attaches a replication manager attaches one without other clients and finds
that the host's id is in the table. -/
def Tells (T : ℕ → ITransport σ) (net : NetworkManager σ) : Call σ → Prop
  | .stop | .setTransport _ => net.replicationManager.isSome → net.clients = []
  | .start config udp => net.replicationManager.isSome →
      net.clients = [] ∧ ¬(config.mode = .host ∧ net.opens T config udp)
  | .setReplicationManager rep => ∀ r ∈ rep,
      (∀ id ∈ r.trackedIds, ∃ c ∈ net.clients, c.id = id) ∧
      (net.mode = .host → net.localClientId ≠ 0 → ∃ c ∈ net.clients, c.id = net.localClientId)
  | _ => True

instance (T : ℕ → ITransport σ) (net : NetworkManager σ) : ∀ call, Decidable (net.Tells T call)
  | .stop | .setTransport _ =>
    inferInstanceAs (Decidable (net.replicationManager.isSome → net.clients = []))
  | .start config udp => inferInstanceAs (Decidable (net.replicationManager.isSome →
      net.clients = [] ∧ ¬(config.mode = .host ∧ net.opens T config udp)))
  | .setReplicationManager rep => inferInstanceAs (Decidable (∀ r ∈ rep,
      (∀ id ∈ r.trackedIds, ∃ c ∈ net.clients, c.id = id) ∧
      (net.mode = .host → net.localClientId ≠ 0 → ∃ c ∈ net.clients, c.id = net.localClientId)))
  | .network _ | .addTransport _ | .poll _ | .addLocalClient | .disconnectClient _ | .disconnect
  | .sendToClient _ _ _ | .broadcast _ _ _ | .send _ _ | .popMessage | .setCallbacks _
  | .setConnectionToken _ | .setRpcManager _ | .spawn _ _ _ _ | .destroy _ _ | .setOwner _ _
  | .sendFullState _ | .markDirty _ | .serverTick _ _ | .clientTick _ _ | .invokeRpc _ _ _ =>
    isTrue trivial

/-- The packet has a host take up a client that does not connect, or is an ack that is handled while
the manager is stopped. -/
def Misleads (net : NetworkManager σ) (buffer : Bytes) (sender : Address) : Prop :=
  net.replicationManager.isSome ∧
    ((net.Impersonates buffer sender ∧
        ¬∃ c ∈ net.clients, c.id = readBe64 (buffer.drop 3)) ∨
      (net.serving = false ∧ net.SystemMessage SysType.snapshotAck buffer ∧
        2 ≤ (buffer.drop 3).length))

instance (net : NetworkManager σ) (buffer : Bytes) (sender : Address) :
    Decidable (net.Misleads buffer sender) :=
  inferInstanceAs (Decidable (_ ∧ ((_ ∧ ¬∃ c ∈ net.clients, c.id = _) ∨ (_ ∧ (_ ∧ _ ∧ _) ∧ _))))

/-! ### Rosters -/

structure Roster.Tracks (r : Roster) : Prop where
  serving : r.session.mode ≠ .client
  tracked : ∀ ids ∈ r.tracked, ∀ id, id ∈ ids ↔ ∃ c ∈ r.session.clients, c.id = id

namespace Roster.Tracks

variable {r : Roster}

/-- The replication manager is told of a client that is there. -/
theorem note (h : r.Tracks) {id : ClientId}
    (hknown : r.tracked.isSome → ∃ c ∈ r.session.clients, c.id = id) : (r.note id).Tracks := by
  refine ⟨h.serving, fun ids' hids' i => ?_⟩
  obtain ⟨ids, hids, rfl⟩ := Option.map_eq_some_iff.mp hids'
  rw [mem_noteId, h.tracked ids hids i]
  constructor
  · rintro (hi | rfl)
    · exact hi
    · exact hknown (by rw [hids]; rfl)
  · exact .inl

theorem enter (h : r.Tracks) (c : Connection) : (r.enter c).Tracks := by
  refine ⟨h.serving, fun ids' hids' i => ?_⟩
  obtain ⟨ids, hids, rfl⟩ := Option.map_eq_some_iff.mp hids'
  rw [mem_noteId, h.tracked ids hids i]
  show _ ↔ ∃ d ∈ r.session.clients ++ [c], d.id = i
  constructor
  · rintro (⟨d, hd, hi⟩ | rfl)
    · exact ⟨d, List.mem_append_left _ hd, hi⟩
    · exact ⟨c, by simp, rfl⟩
  · rintro ⟨d, hd, hi⟩
    rcases List.mem_append.mp hd with hd | hd
    · exact .inl ⟨d, hd, hi⟩
    · rw [List.mem_singleton.mp hd] at hi
      exact .inr hi.symm

theorem leave (h : r.Tracks) (id : ClientId) : (r.leave id).Tracks := by
  refine ⟨h.serving, fun ids' hids' i => ?_⟩
  obtain ⟨ids, hids, rfl⟩ := Option.map_eq_some_iff.mp hids'
  rw [List.mem_filter, h.tracked ids hids i]
  show _ ↔ ∃ d ∈ r.session.clients.filter fun c => c.id ≠ id, d.id = i
  constructor
  · rintro ⟨⟨d, hd, rfl⟩, hne⟩
    exact ⟨d, List.mem_filter.mpr ⟨hd, hne⟩, rfl⟩
  · rintro ⟨d, hd, rfl⟩
    obtain ⟨hd, hne⟩ := List.mem_filter.mp hd
    exact ⟨⟨d, hd, rfl⟩, hne⟩

/-- A session without clients can be exchanged for another one. -/
theorem move {f : Session → Session} (h : r.Tracks)
    (hempty : r.tracked.isSome → r.session.clients = []) (hclients : (f r.session).clients = [])
    (hmode : (f r.session).mode ≠ .client) : (r.move f).Tracks := by
  refine ⟨hmode, fun ids hids i => ?_⟩
  have hsame := h.tracked ids hids i
  rw [hempty (by rw [show r.tracked = some ids from hids]; rfl)] at hsame
  show _ ↔ ∃ c ∈ (f r.session).clients, c.id = i
  rw [hclients]
  exact hsame

theorem tracksClients {net : NetworkManager σ} (h : net.roster.Tracks)
    (hsound : net.session.Sound) : net.TracksClients := by
  intro rep hrep id
  have hids : net.tracked = some rep.trackedIds := by
    unfold NetworkManager.tracked
    rw [hrep]
    rfl
  refine (h.tracked rep.trackedIds hids id).trans ?_
  show (∃ c ∈ net.clients.map ClientEntry.toConnection, c.id = id) ↔ _
  constructor
  · rintro ⟨c, hc, rfl⟩
    have happroved := hsound.approved c hc
    obtain ⟨entry, hentry, rfl⟩ := List.mem_map.mp hc
    exact ⟨entry, hentry, happroved, rfl⟩
  · rintro ⟨entry, hentry, -, rfl⟩
    exact ⟨entry.toConnection, List.mem_map_of_mem hentry, rfl⟩

end Roster.Tracks

theorem mem_foldl_noteId {l ids : List ClientId} {i : ClientId} :
    i ∈ l.foldl (fun ids id => noteId id ids) ids ↔ i ∈ ids ∨ i ∈ l := by
  induction l generalizing ids with
  | nil => simp
  | cons id l ih => rw [List.foldl_cons, ih, mem_noteId, List.mem_cons, or_assoc]

section
variable {T : ℕ → ITransport σ} {net : NetworkManager σ} {r : Roster}

theorem isSome_tracked : net.roster.tracked.isSome = net.replicationManager.isSome :=
  Option.isSome_map

theorem exists_session {p : ClientId → Prop} :
    (∃ c ∈ net.session.clients, p c.id) ↔ ∃ c ∈ net.clients, p c.id := by
  show (∃ c ∈ net.clients.map ClientEntry.toConnection, p c.id) ↔ _
  simp [ClientEntry.toConnection]

theorem tracks_packet {env : PacketEnv} {t : ℕ} {buffer : Bytes} {sender : Address}
    (h : net.roster.Tracks) (hno : ¬net.Misleads buffer sender)
    (he : net.PacketRoster env t buffer sender r) : r.Tracks := by
  cases he with
  | keep => exact h
  | ack hmsg hlen hknown =>
    apply h.note
    intro htracked
    rw [isSome_tracked] at htracked
    by_contra hout
    have hstopped : net.serving = false := by
      rcases hserving : net.serving with _ | _
      · rfl
      · exact absurd (hknown hserving) hout
    exact hno ⟨htracked, .inr ⟨hstopped, hmsg, hlen⟩⟩
  | enroll _ => exact h.enter _
  | drop _ _ => exact h.leave _
  | accept hjoining hmsg hlen hknown =>
    have hmode : net.mode = .host := by
      have hor : net.mode = .client ∨ net.mode = .host := by simpa [joining] using hjoining
      exact hor.resolve_left h.serving
    have hserving : net.serving := by simp [serving, hmode]
    have hnamed : ((net.roster.move (Session.name (readBe64 (buffer.drop 3)))).connected
        (readBe64 (buffer.drop 3))).Tracks := ⟨h.serving, h.tracked⟩
    apply hnamed.note
    intro htracked
    change net.roster.tracked.isSome at htracked
    rw [isSome_tracked] at htracked
    show ∃ c ∈ net.session.clients, c.id = _
    by_contra hout
    rw [exists_session (p := fun id => id = readBe64 (buffer.drop 3))] at hout
    exact hno ⟨htracked, .inl ⟨⟨hmode, hmsg, hknown hserving, hlen⟩, hout⟩⟩
  | depart hmode => exact absurd hmode h.serving

/-- An attached replication manager knows the clients that are there. -/
theorem tracks_attach (h : net.roster.Tracks) (hsound : net.session.Sound)
    {rep : Option NetworkReplicationManager} (htells : net.Tells T (.setReplicationManager rep)) :
    Roster.Tracks { net.roster with
      tracked := rep.map fun rep =>
        net.attachedIds.foldl (fun ids id => noteId id ids) rep.trackedIds } := by
  refine ⟨h.serving, fun ids' hids' i => ?_⟩
  obtain ⟨rep', rfl, rfl⟩ := Option.map_eq_some_iff.mp hids'
  obtain ⟨hothers, hown⟩ := htells rep' rfl
  rw [mem_foldl_noteId]
  show _ ↔ ∃ c ∈ net.session.clients, c.id = i
  rw [exists_session (p := fun id => id = i)]
  unfold attachedIds
  constructor
  · rintro (hi | hi)
    · exact hothers i hi
    · rcases List.mem_append.mp hi with hi | hi
      · obtain ⟨c, hc, rfl⟩ := List.mem_map.mp hi
        exact ⟨c, (List.mem_filter.mp hc).1, rfl⟩
      · split_ifs at hi with hhost
        · rw [List.mem_singleton.mp hi]
          exact hown hhost.1 hhost.2
        · cases hi
  · rintro ⟨c, hc, rfl⟩
    have happroved : c.approved := hsound.approved c.toConnection (List.mem_map_of_mem hc)
    right
    apply List.mem_append_left
    exact List.mem_map_of_mem (List.mem_filter.mpr ⟨hc, happroved⟩)

theorem tracks_call {call : Call σ} (h : net.roster.Tracks) (hsound : net.session.Sound)
    (hserves : call.Serves) (htells : net.Tells T call)
    (he : net.CallRoster T call r) : r.Tracks := by
  have hempty : (net.replicationManager.isSome → net.clients = []) →
      net.roster.tracked.isSome → net.roster.session.clients = [] := by
    intro hnil htracked
    rw [isSome_tracked] at htracked
    show net.clients.map _ = []
    rw [hnil htracked, List.map_nil]
  cases he with
  | keep => exact h
  | callbacks => exact ⟨h.serving, h.tracked⟩
  | attach => exact tracks_attach h hsound htells
  | close hends hclient =>
    have hnil : net.replicationManager.isSome → net.clients = [] := by
      cases call with
      | setTransport t => exact htells
      | start config udp => exact fun hrep => (htells hrep).1
      | stop => exact htells
      | disconnect => exact absurd (hclient rfl) h.serving
      | _ => cases hends
    exact h.move (hempty hnil) rfl fun hmode => by cases hmode
  | fail =>
    rename_i config udp
    exact h.move (hempty fun hrep => (htells hrep).1) (Session.clients_launch hsound config)
      (by simp)
  | launch =>
    exact h.move (hempty fun hrep => (htells hrep).1) (Session.clients_launch hsound _) hserves
  | host hmode hopens _ =>
    have hnone : net.roster.tracked = none := by
      rw [← Option.not_isSome_iff_eq_none, isSome_tracked]
      exact fun hrep => (htells hrep).2 ⟨hmode, hopens⟩
    refine ⟨?_, fun ids hids => ?_⟩
    · show Config.mode _ ≠ .client
      rw [hmode]
      decide
    · change ids ∈ net.roster.tracked at hids
      rw [hnone] at hids
      cases hids
  | addLocal _ _ => exact h.enter _
  | leave _ _ =>
    have hnamed : (net.roster.move (Session.name 0)).Tracks := ⟨h.serving, h.tracked⟩
    exact hnamed.leave _
  | drop _ _ => exact h.leave _

/-- After `stop` the clients of the replication manager are those of the empty table if there were
none before. -/
theorem tracks_stop_iff (h : net.roster.Tracks) :
    (net.stop T).TracksClients ↔ (net.replicationManager.isSome → net.clients = []) := by
  have hstopped : (net.stop T).session.Sound :=
    session_stop (T := T) ▸ Session.sound_vacant rfl fun hs => by cases hs
  constructor
  · intro htracks hrep
    obtain ⟨rep, hrep⟩ := Option.isSome_iff_exists.mp hrep
    have htracked : (net.stop T).tracked = some rep.trackedIds := by
      rw [show (net.stop T).tracked = net.tracked from congrArg Roster.tracked roster_stop]
      unfold tracked
      rw [hrep]
      rfl
    obtain ⟨rep', hrep', hids⟩ := Option.map_eq_some_iff.mp htracked
    rcases hclients : net.clients with _ | ⟨c, cs⟩
    · rfl
    · exfalso
      have hmem : c.id ∈ rep.trackedIds := by
        apply (h.tracked rep.trackedIds ?_ c.id).mpr
        · exact ⟨c.toConnection, List.mem_map_of_mem (by rw [hclients]; exact List.mem_cons_self), rfl⟩
        · show net.replicationManager.map _ = some _
          rw [hrep]
          rfl
      rw [← hids] at hmem
      obtain ⟨d, hd, -⟩ := (htracks rep' hrep' c.id).mp hmem
      cases hd
  · intro hnil
    have hmoved : (net.stop T).roster.Tracks := by
      rw [roster_stop]
      refine h.move (fun htracked => ?_) rfl fun hmode => by cases hmode
      rw [isSome_tracked] at htracked
      show net.clients.map _ = []
      rw [hnil htracked, List.map_nil]
    exact hmoved.tracksClients hstopped

end

/-! ### Runs -/

/-- In a run of servers and hosts in which the replication manager is told of everybody, its clients
are those of the table in every state. -/
theorem replication_tracks (T : ℕ → ITransport σ) (net net' : NetworkManager σ)
    (run : List (Call σ)) (hmode : net.mode = .none) (hclients : net.clients = [])
    (hrep : net.replicationManager = none) (h : Run.exec (step T) net run = some net')
    (hserves : Run.Admits (step T) (fun _ call => call.Serves) net run)
    (hfits : Run.Admits (step T) Fits net run)
    (htells : Run.Admits (step T) (Tells T) net run)
    (hpackets : ∀ p ∈ net.history T run, ¬p.net.Misleads p.buffer p.sender) :
    (∀ p ∈ net.history T run, p.net.TracksClients) ∧ net'.TracksClients := by
  have hsound : net.session.Sound := by
    apply Session.sound_vacant
    · show net.clients.map _ = []
      rw [hclients, List.map_nil]
    · intro hserving
      change (net.mode = .server || net.mode = .host : Bool) = true at hserving
      rw [hmode] at hserving
      cases hserving
  have htracks : net.roster.Tracks := by
    refine ⟨?_, fun ids hids => ?_⟩
    · show net.mode ≠ .client
      rw [hmode]
      decide
    · change ids ∈ net.replicationManager.map _ at hids
      rw [hrep] at hids
      cases hids
  have hall := Run.admits_and.mpr ⟨hserves, Run.admits_and.mpr ⟨hfits, htells⟩⟩
  obtain ⟨hin, hend⟩ := history_invariant (T := T)
    (I := fun n => n.session.Sound ∧ n.roster.Tracks)
    (fun n t hn => hn)
    (fun n call n' hn hok hpoll hstep =>
      ⟨sound_callEffect hn.1 hok.2.1 (callEffect_step hstep hpoll),
        tracks_call hn.2 hn.1 hok.1 hok.2.2 (callRoster_step hstep hpoll)⟩)
    (fun n hn => hn)
    (fun n env hn => by rwa [session_finishPoll, roster_finishPoll])
    h hall
    (fun p hp hn => by
      have hbefore : (p.before T).session.Sound ∧ (p.before T).roster.Tracks := hn
      have hno : ¬(p.before T).Misleads p.buffer p.sender := hpackets p hp
      exact ⟨sound_packetEffect hbefore.1
          (packetEffect_handlePacket p.env p.transport p.buffer p.sender),
        tracks_packet hbefore.2 hno
          (packetRoster_handlePacket p.env p.transport p.buffer p.sender)⟩)
    ⟨hsound, htracks⟩
  exact ⟨fun p hp => (hin p hp).2.tracksClients (hin p hp).1, hend.2.tracksClients hend.1⟩

def hostStart : Call LoopbackHub := .start { mode := .host, bindAddress := LoopbackHub.serverAddr } 0

def replication : Call LoopbackHub := .setReplicationManager (some { hasBridge := true })

/-- A replication manager is attached to a host with a local client; a remote client comes and the
local one goes. -/
def hostedRun : List (Call LoopbackHub) :=
  [hostStart, .addLocalClient, replication,
    .network (LoopbackHub.arrived [sysPacket SysType.connectRequest []]), pollCall 1,
    .disconnectClient 2]

theorem replication_tracks_hosted : ∃ net',
    Run.exec (step loopback) { world := {} } hostedRun = some net' ∧
    net'.tracked = some [1, 3] ∧ net'.TracksClients := by
  have hexec : (Run.exec (step loopback) { world := {} } hostedRun).map tracked =
      some (some [1, 3]) := by
    decide +kernel
  obtain ⟨net', h, htracked⟩ := Option.map_eq_some_iff.mp hexec
  have hserves : Run.Admits (step loopback) (fun _ call => call.Serves) { world := {} }
      hostedRun := by
    decide +kernel
  have hfits : Run.Admits (step loopback) Fits { world := {} } hostedRun := by
    decide +kernel
  have htells : Run.Admits (step loopback) (Tells loopback) { world := {} } hostedRun := by
    decide +kernel
  have hpackets : ∀ p ∈ NetworkManager.history loopback { world := {} } hostedRun,
      ¬p.net.Misleads p.buffer p.sender := by
    decide +kernel
  exact ⟨net', h, htracked, (replication_tracks loopback { world := {} } net' hostedRun rfl rfl rfl h
    hserves hfits htells hpackets).2⟩

/-- A host that starts with a replication manager does not tell it of its own client. -/
theorem replication_not_tracks : ∃ net',
    Run.exec (step loopback) { world := {} } [replication, hostStart] = some net' ∧
    net'.tracked = some [] ∧ ¬net'.TracksClients := by
  have hexec : (Run.exec (step loopback) { world := {} } [replication, hostStart]).map
      (fun net => (net.tracked, net.session.clients)) = some (some [], [.local 1]) := by
    decide +kernel
  obtain ⟨net', h, heq⟩ := Option.map_eq_some_iff.mp hexec
  obtain ⟨htracked, hclients⟩ := Prod.mk.inj heq
  refine ⟨net', h, htracked, fun htracks => ?_⟩
  obtain ⟨rep, hrep, hids⟩ := Option.map_eq_some_iff.mp htracked
  have hmem : Connection.local 1 ∈ net'.session.clients := by simp [hclients]
  obtain ⟨c, hc, hlocal⟩ := List.mem_map.mp hmem
  have hid : c.id = 1 := congrArg Connection.id hlocal
  have happroved : c.approved = true := congrArg Connection.approved hlocal
  have hin : (1 : ClientId) ∈ rep.trackedIds := (htracks rep hrep 1).mpr ⟨c, hc, happroved, hid⟩
  rw [hids] at hin
  cases hin

end CampelloNet.NetworkManager
