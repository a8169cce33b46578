import CampelloNet.Manager.Roster

/-!
# The connection callbacks of a server

A client that comes is reported by one callback and a client that leaves by the other, wherever it
enters and leaves the table, except that `stop` empties the table and reports nobody, and that a host
takes a connect accept for a client of its own. In runs without these the callbacks of each id
alternate.
-/

namespace CampelloNet.NetworkManager

open Lib Transport

variable {σ : Type}

/-- Both connection callbacks are set. -/
def Callbacks.Notifying (callbacks : Callbacks) : Prop :=
  callbacks.onConnected ∧ callbacks.onDisconnected

instance (callbacks : Callbacks) : Decidable callbacks.Notifying :=
  inferInstanceAs (Decidable (_ ∧ _))

/-- The callbacks of each id alternate, the first one reporting it connected, and the clients of a
stopped manager have been reported disconnected. -/
def CallbacksAlternate (net : NetworkManager σ) : Prop :=
  ∀ id, Alternating true (visitsOf id net.visits) ∧
    (net.mode = .none → (visitsOf id net.visits).getLast? ≠ some true)

/-! ### What breaks the pairs -/

/-- The application keeps both of its callbacks. -/
def Call.Notifies : Call σ → Prop
  | .setCallbacks callbacks => callbacks.Notifying
  | _ => True

/-- A call that stops the manager finds no clients. -/
def Departed (net : NetworkManager σ) : Call σ → Prop
  | .stop | .setTransport _ | .start _ _ => net.clients = []
  | _ => True

instance : ∀ call : Call σ, Decidable call.Notifies
  | .setCallbacks callbacks => inferInstanceAs (Decidable callbacks.Notifying)
  | .network _ | .setTransport _ | .addTransport _ | .start _ _ | .stop | .poll _ | .addLocalClient
  | .disconnectClient _ | .disconnect | .sendToClient _ _ _ | .broadcast _ _ _ | .send _ _
  | .popMessage | .setConnectionToken _ | .setReplicationManager _ | .setRpcManager _
  | .spawn _ _ _ _ | .destroy _ _ | .setOwner _ _ | .sendFullState _ | .markDirty _
  | .serverTick _ _ | .clientTick _ _ | .invokeRpc _ _ _ => isTrue trivial

instance (net : NetworkManager σ) : ∀ call, Decidable (net.Departed call)
  | .stop | .setTransport _ | .start _ _ => inferInstanceAs (Decidable (net.clients = []))
  | .network _ | .addTransport _ | .poll _ | .addLocalClient | .disconnectClient _ | .disconnect
  | .sendToClient _ _ _ | .broadcast _ _ _ | .send _ _ | .popMessage | .setCallbacks _
  | .setConnectionToken _ | .setReplicationManager _ | .setRpcManager _ | .spawn _ _ _ _
  | .destroy _ _ | .setOwner _ _ | .sendFullState _ | .markDirty _ | .serverTick _ _
  | .clientTick _ _ | .invokeRpc _ _ _ => isTrue trivial

/-! ### What the game knows -/

/-- Those whom the game takes for connected are the clients of the table. -/
structure Roster.Attended (r : Roster) : Prop where
  callbacks : r.callbacks.Notifying
  serving : r.session.mode ≠ .client
  present : Run.exec Visit.attend [] r.visits = some (r.session.clients.map Connection.id)

namespace Roster.Attended

variable {r : Roster}

theorem enter (h : r.Attended) {c : Connection} (hnew : ∀ d ∈ r.session.clients, d.id ≠ c.id) :
    (r.enter c).Attended := by
  refine ⟨h.callbacks, h.serving, ?_⟩
  have hout : c.id ∉ r.session.clients.map Connection.id := by
    intro hin
    obtain ⟨d, hd, hid⟩ := List.mem_map.mp hin
    exact hnew d hd hid
  show Run.exec Visit.attend [] (if r.callbacks.onConnected then r.visits ++ [.enter c.id]
    else r.visits) = some ((r.session.clients ++ [c]).map Connection.id)
  rw [if_pos h.callbacks.1, List.map_append]
  exact exec_attend_enter h.present hout

theorem leave (h : r.Attended) {id : ClientId} (hknown : ∃ c ∈ r.session.clients, c.id = id) :
    (r.leave id).Attended := by
  refine ⟨h.callbacks, h.serving, ?_⟩
  have hin : id ∈ r.session.clients.map Connection.id := List.mem_map.mpr hknown
  show Run.exec Visit.attend [] (if r.callbacks.onDisconnected then r.visits ++ [.leave id]
    else r.visits) = some ((r.session.clients.filter fun c => c.id ≠ id).map Connection.id)
  rw [if_pos h.callbacks.2, exec_attend_leave h.present hin, List.filter_map]
  rfl

/-- A session without clients can be exchanged for another one. -/
theorem move {f : Session → Session} (h : r.Attended) (hempty : r.session.clients = [])
    (hclients : (f r.session).clients = []) (hmode : (f r.session).mode ≠ .client) :
    (r.move f).Attended := by
  refine ⟨h.callbacks, hmode, ?_⟩
  show Run.exec Visit.attend [] r.visits = some ((f r.session).clients.map Connection.id)
  rw [h.present, hempty, hclients]

theorem alternate {net : NetworkManager σ} (h : net.roster.Attended) (hsound : net.session.Sound) :
    net.CallbacksAlternate := by
  have hpresent : Run.exec Visit.attend [] net.visits =
      some (net.session.clients.map Connection.id) := h.present
  intro id
  obtain ⟨halternating, hlast⟩ := alternating_of_attend hpresent id
  refine ⟨by simpa using halternating, fun hmode hreported => ?_⟩
  have hin : id ∈ net.session.clients.map Connection.id := hlast.mpr (by rw [hreported]; rfl)
  have hvacant : net.session.clients = [] := by
    apply hsound.vacant
    show (net.mode = .server || net.mode = .host : Bool) = false
    rw [hmode]
    rfl
  rw [hvacant] at hin
  cases hin

end Roster.Attended

section
variable {T : ℕ → ITransport σ} {net : NetworkManager σ} {r : Roster}

/-- A packet is reported. -/
theorem attended_packet {env : PacketEnv} {t : ℕ} {buffer : Bytes} {sender : Address}
    (h : net.roster.Attended) (hsound : net.session.Sound)
    (hno : ¬net.Impersonates buffer sender)
    (he : net.PacketRoster env t buffer sender r) : r.Attended := by
  cases he with
  | keep => exact h
  | ack _ _ _ => exact ⟨h.callbacks, h.serving, h.present⟩
  | enroll hadm =>
    apply h.enter
    have hroom := hadm.room
    have hbound : net.config.maxClients < 2 ^ 64 := hsound.bounded hadm.serving
    rw [clientCount_eq hsound] at hroom
    exact (net.fresh_generateClientId.ne (by omega)).2
  | drop _ hfound =>
    rename_i entry _
    exact h.leave ⟨entry.toConnection, List.mem_map_of_mem (lookup_mem hfound), rfl⟩
  | accept hjoining hmsg hlen hknown =>
    exfalso
    have hmode : net.mode = .host := by
      have hor : net.mode = .client ∨ net.mode = .host := by simpa [joining] using hjoining
      exact hor.resolve_left h.serving
    have hserving : net.serving := by simp [serving, hmode]
    exact hno ⟨hmode, hmsg, hknown hserving, hlen⟩
  | depart hmode => exact absurd hmode h.serving

/-- A call is reported. -/
theorem attended_call {call : Call σ} (h : net.roster.Attended) (hsound : net.session.Sound)
    (hserves : call.Serves) (hnotifies : call.Notifies) (hfits : net.Fits call)
    (hdeparted : net.Departed call) (he : net.CallRoster T call r) : r.Attended := by
  have hempty : net.clients = [] → net.roster.session.clients = [] := fun hnil => by
    show net.clients.map _ = []
    rw [hnil, List.map_nil]
  cases he with
  | keep => exact h
  | callbacks => exact ⟨hnotifies, h.serving, h.present⟩
  | attach => exact ⟨h.callbacks, h.serving, h.present⟩
  | close hends hclient =>
    have hnil : net.clients = [] := by
      cases call with
      | setTransport t => exact hdeparted
      | start config udp => exact hdeparted
      | stop => exact hdeparted
      | disconnect => exact absurd (hclient rfl) h.serving
      | _ => cases hends
    exact h.move (hempty hnil) rfl fun hclient => by cases hclient
  | fail =>
    rename_i config udp
    exact h.move (hempty hdeparted) (Session.clients_launch hsound config) (by simp)
  | launch => exact h.move (hempty hdeparted) (Session.clients_launch hsound _) hserves
  | host hmode hopens hfresh =>
    rename_i config udp id
    have hvacant : (net.session.launch config).clients = [] := Session.clients_launch hsound config
    have hlaunched : (net.roster.move fun s => (s.launch config).name id).Attended :=
      h.move (hempty hdeparted) hvacant (by show config.mode ≠ .client; rw [hmode]; decide)
    have hentered := hlaunched.enter (c := .local id) fun d hd => by
      change d ∈ (net.session.launch config).clients at hd
      rw [hvacant] at hd
      cases hd
    exact ⟨hentered.callbacks, hentered.serving, hentered.present⟩
  | addLocal hserving hfresh =>
    apply h.enter
    apply (hfresh ?_).2
    rw [length_session]
    exact hfits
  | leave _ hknown =>
    have hnamed : (net.roster.move (Session.name 0)).Attended :=
      ⟨h.callbacks, h.serving, h.present⟩
    exact hnamed.leave hknown
  | drop _ hknown => exact h.leave hknown

/-- `stop` is reported only where there is nobody to report. -/
theorem alternate_stop_iff (h : net.roster.Attended) :
    (net.stop T).CallbacksAlternate ↔ net.clients = [] := by
  have hvisits : (net.stop T).visits = net.visits := congrArg Roster.visits roster_stop
  have hpresent : Run.exec Visit.attend [] net.visits =
      some (net.session.clients.map Connection.id) := h.present
  constructor
  · intro halternate
    rcases hclients : net.clients with _ | ⟨c, cs⟩
    · rfl
    · exfalso
      obtain ⟨-, hlast⟩ := alternating_of_attend hpresent c.id
      have hin : c.id ∈ net.session.clients.map Connection.id := by
        show c.id ∈ (net.clients.map ClientEntry.toConnection).map Connection.id
        rw [hclients]
        exact List.mem_cons_self
      have htrue := hlast.mp hin
      apply (halternate c.id).2 rfl
      rw [hvisits]
      simpa [Option.getD_eq_iff] using htrue
  · intro hnil
    have hsession : (net.stop T).session.Sound :=
      session_stop (T := T) ▸ Session.sound_vacant rfl fun hs => by cases hs
    have hempty : net.roster.session.clients = [] := by
      show net.clients.map _ = []
      rw [hnil, List.map_nil]
    have hclosed : (net.stop T).roster.Attended :=
      roster_stop (T := T) ▸ h.move hempty rfl fun hclient => by cases hclient
    exact hclosed.alternate hsession

end

/-! ### Runs -/

/-- In a run of servers and hosts in which the manager is stopped without clients only, and no host
handles a connect accept, the callbacks alternate in every state. -/
theorem callbacks_alternate (T : ℕ → ITransport σ) (net net' : NetworkManager σ)
    (run : List (Call σ)) (hmode : net.mode = .none) (hclients : net.clients = [])
    (hcalls : net.calls = []) (hcallbacks : net.callbacks.Notifying)
    (h : Run.exec (step T) net run = some net')
    (hserves : Run.Admits (step T) (fun _ call => call.Serves) net run)
    (hnotifies : Run.Admits (step T) (fun _ call => call.Notifies) net run)
    (hfits : Run.Admits (step T) Fits net run)
    (hdeparted : Run.Admits (step T) Departed net run)
    (hpackets : ∀ p ∈ net.history T run, ¬p.net.Impersonates p.buffer p.sender) :
    (∀ p ∈ net.history T run, p.net.CallbacksAlternate) ∧ net'.CallbacksAlternate := by
  have hvacant : net.session.clients = [] := by
    show net.clients.map _ = []
    rw [hclients, List.map_nil]
  have hsound : net.session.Sound := by
    apply Session.sound_vacant hvacant
    intro hserving
    change (net.mode = .server || net.mode = .host : Bool) = true at hserving
    rw [hmode] at hserving
    cases hserving
  have hattended : net.roster.Attended := by
    refine ⟨hcallbacks, ?_, ?_⟩
    · show net.mode ≠ .client
      rw [hmode]
      decide
    · show Run.exec Visit.attend [] (net.calls.filterMap _) = some (net.session.clients.map _)
      rw [hcalls, hvacant]
      rfl
  have hall := Run.admits_and.mpr ⟨hserves, Run.admits_and.mpr ⟨hnotifies,
    Run.admits_and.mpr ⟨hfits, hdeparted⟩⟩⟩
  obtain ⟨hin, hend⟩ := history_invariant (T := T)
    (I := fun n => n.session.Sound ∧ n.roster.Attended)
    (fun n t hn => hn)
    (fun n call n' hn hok hpoll hstep =>
      ⟨sound_callEffect hn.1 hok.2.2.1 (callEffect_step hstep hpoll),
        attended_call hn.2 hn.1 hok.1 hok.2.1 hok.2.2.1 hok.2.2.2 (callRoster_step hstep hpoll)⟩)
    (fun n hn => hn)
    (fun n env hn => by rwa [session_finishPoll, roster_finishPoll])
    h hall
    (fun p hp hn => by
      have hbefore : (p.before T).session.Sound ∧ (p.before T).roster.Attended := hn
      have hno : ¬(p.before T).Impersonates p.buffer p.sender := hpackets p hp
      exact ⟨sound_packetEffect hbefore.1
          (packetEffect_handlePacket p.env p.transport p.buffer p.sender),
        attended_packet hbefore.2 hbefore.1 hno
          (packetRoster_handlePacket p.env p.transport p.buffer p.sender)⟩)
    ⟨hsound, hattended⟩
  exact ⟨fun p hp => (hin p hp).2.alternate (hin p hp).1, hend.2.alternate hend.1⟩

def notified : NetworkManager LoopbackHub where
  world := {}
  callbacks := { onConnected := true, onDisconnected := true }

def serverStart : Call LoopbackHub :=
  .start { mode := .server, bindAddress := LoopbackHub.serverAddr } 0

/-- A local and a remote client come and go before the server stops. -/
def comeAndGo : List (Call LoopbackHub) :=
  [serverStart, .addLocalClient,
    .network (LoopbackHub.arrived
      [sysPacket SysType.connectRequest [], sysPacket SysType.disconnectNotify []]),
    pollCall 2, .disconnectClient 1, .stop]

theorem callbacks_alternate_comeAndGo : ∃ net', Run.exec (step loopback) notified comeAndGo =
    some net' ∧ net'.visits = [.enter 1, .enter 2, .leave 2, .leave 1] ∧ net'.CallbacksAlternate := by
  have hexec : (Run.exec (step loopback) notified comeAndGo).map visits =
      some [.enter 1, .enter 2, .leave 2, .leave 1] := by
    decide +kernel
  obtain ⟨net', h, hvisits⟩ := Option.map_eq_some_iff.mp hexec
  have hserves : Run.Admits (step loopback) (fun _ call => call.Serves) notified comeAndGo := by
    decide +kernel
  have hnotifies : Run.Admits (step loopback) (fun _ call => call.Notifies) notified comeAndGo := by
    decide +kernel
  have hfits : Run.Admits (step loopback) Fits notified comeAndGo := by
    decide +kernel
  have hpackets : ∀ p ∈ notified.history loopback comeAndGo,
      ¬p.net.Impersonates p.buffer p.sender := by
    decide +kernel
  have hdeparted : Run.Admits (step loopback) Departed notified comeAndGo := by
    decide +kernel
  exact ⟨net', h, hvisits, (callbacks_alternate loopback notified net' comeAndGo rfl rfl rfl
    (by decide) h hserves hnotifies hfits hdeparted hpackets).2⟩

/-- A server stops with a client and starts again: id 1 is reported connected twice. -/
theorem callbacks_not_alternate : ∃ net', Run.exec (step loopback) notified
    [serverStart, .addLocalClient, .stop, serverStart, .addLocalClient] = some net' ∧
    net'.visits = [.enter 1, .enter 1] ∧ ¬net'.CallbacksAlternate := by
  have hexec : (Run.exec (step loopback) notified
      [serverStart, .addLocalClient, .stop, serverStart, .addLocalClient]).map visits =
        some [.enter 1, .enter 1] := by
    decide +kernel
  obtain ⟨net', h, hvisits⟩ := Option.map_eq_some_iff.mp hexec
  refine ⟨net', h, hvisits, fun halternate => ?_⟩
  have hone := (halternate 1).1
  rw [hvisits] at hone
  revert hone
  decide

end CampelloNet.NetworkManager
