import CampelloNet.Lib.Run
import CampelloNet.Replication.Arrival
import CampelloNet.Replication.Messages
import CampelloNet.Replication.Server

/-!
# A server, a client and the messages between them

The replication managers of a server and of one of its clients, with what has passed between them. A
step is a turn of the loop of `server_tick` or `client_tick`, or the arrival of a message; every message
that was sent may arrive at any time, any number of times or never. The clients other than the one that
is followed come, go and ack as they like.
-/

namespace CampelloNet.Replication

open Lib NetworkReplicationManager

/-- A tick of the server as it was made. -/
structure Tick where
  env : TickEnv
  id : UInt16
  /-- the server has an entity manager -/
  managed : Bool
  /-- the entities visible to the client before the tick -/
  visible : Finset NetworkId
  /-- the message to the client -/
  message : Option Bytes

namespace Tick

/-- The bytes of a live entity. -/
def value (t : Tick) (e : NetworkId) : Option Bytes :=
  if t.managed ∧ e ∉ t.env.entities then none else t.env.serialize e

/-- What the client reads of the message. -/
def contents (t : Tick) : List EntitySnapshot :=
  match t.message with
  | none => []
  | some message => deltaEntities (message.drop 3)

end Tick

/-- An ack: the tick whose snapshot it acks, and how many snapshot messages had arrived before. -/
structure Ack where
  message : Bytes
  tick : ℕ
  upTo : ℕ

def Ack.id (a : Ack) : UInt16 := readBe16 (a.message.drop 3)

structure System where
  server : NetworkReplicationManager
  client : NetworkReplicationManager
  ticks : List Tick := []
  /-- the ticks whose messages have arrived, with the calls that they caused -/
  arrived : List (ℕ × List AppCall) := []
  /-- the tick of the last message that was the newest when it arrived -/
  newest : ℕ := 0
  acks : List Ack := []
  /-- the acks that `on_snapshot_ack` has recorded -/
  recorded : List Ack := []

namespace System

/-- The value of an entity at a tick. -/
def value (ticks : List Tick) (e : NetworkId) (n : ℕ) : Option Bytes :=
  ticks[n]?.bind fun t => t.value e

def contents (ticks : List Tick) (n : ℕ) : List EntitySnapshot :=
  (ticks[n]?.map Tick.contents).getD []

/-- The value of an entity at the last tick. -/
def lastValue (s : System) (e : NetworkId) : Option Bytes := value s.ticks e (s.ticks.length - 1)

def state (client : ClientId) (s : System) : ClientReplicationState := s.server.clientState client

inductive Call
  | markDirty (netId : NetworkId)
  | tick (env : TickEnv)
  | arrive (n : ℕ)
  | sendAck
  | ackArrives (i : ℕ)
  | otherConnects (other : ClientId)
  | otherDisconnects (other : ClientId)
  | otherAcks (other : ClientId) (id : UInt16)

/-- The manager as it is when `server_tick` builds a snapshot. -/
def ticking (rep : NetworkReplicationManager) : NetworkReplicationManager :=
  { rep with snapshotId := rep.snapshotId + 1 }

def step (client : ClientId) (s : System) : Call → Option System
  | .markDirty netId => some { s with server := s.server.markDirty netId }
  | .tick env =>
    let out := (ticking s.server).buildAndSendSnapshot env
    some { s with
      server := out.1
      ticks := s.ticks ++ [⟨env, s.server.snapshotId + 1, s.server.hasEntityMgr,
        (s.state client).visibleEntities, (lookup Prod.fst client out.2).map Prod.snd⟩] }
  | .arrive n =>
    (s.ticks[n]?.bind Tick.message).map fun message =>
      let out := s.client.onReceiveDelta (message.drop 3)
      { s with
        client := out.1
        arrived := s.arrived ++ [(n, out.2)]
        newest := if newer (readBe16 (message.drop 3)) s.client.lastReceivedSnapshot then n
          else s.newest }
  | .sendAck =>
    some (if s.client.lastReceivedSnapshot ≠ 0 then { s with
      acks := s.acks ++
        [⟨ackMessage s.client.lastReceivedSnapshot, s.newest, s.arrived.length⟩] } else s)
  | .ackArrives i =>
    s.acks[i]?.map fun a => { s with
      server := s.server.onSnapshotAck client a.id
      recorded := if ¬(s.state client).hasAck ∨ newer a.id (s.state client).lastAckedSnapshot then
        s.recorded ++ [a] else s.recorded }
  | .otherConnects other =>
    if other = client then none else some { s with server := s.server.onClientConnected other }
  | .otherDisconnects other =>
    if other = client then none else some { s with server := s.server.onClientDisconnected other }
  | .otherAcks other id =>
    if other = client then none else some { s with server := s.server.onSnapshotAck other id }

/-- The client has just connected, and nothing has been sent to it. -/
structure Start (client : ClientId) (s : System) : Prop where
  known : lookup Prod.fst client s.server.clientStates = some (client, {})
  distinct : (s.server.clientStates.map Prod.fst).Nodup
  atOnce : AppliesAtOnce s.client
  unacked : s.client.lastReceivedSnapshot = 0
  ticks : s.ticks = []
  arrived : s.arrived = []
  acks : s.acks = []
  recorded : s.recorded = []

/-! ### The loops of the two ticks -/

/-- The ticks of a call of `server_tick`. -/
def turns : List TickEnv → NetworkReplicationManager →
    NetworkReplicationManager × List (ClientId × Bytes)
  | [], rep => (rep, [])
  | env :: envs, rep =>
    let (rep, sent) := (ticking rep).buildAndSendSnapshot env
    let (rep, sent') := turns envs rep
    (rep, sent ++ sent')

theorem buildAndSendSnapshot_accumulator (env : TickEnv) (rep : NetworkReplicationManager) (a : FloatValue) :
    ({ rep with accumulator := a } : NetworkReplicationManager).buildAndSendSnapshot env =
      ({ (rep.buildAndSendSnapshot env).1 with accumulator := a }, (rep.buildAndSendSnapshot env).2) := by
  unfold buildAndSendSnapshot
  by_cases hempty : rep.clientStates.isEmpty
  · rw [if_pos hempty, if_pos hempty]
  · rw [if_neg hempty, if_neg hempty]
    rfl

theorem turns_accumulator (envs : List TickEnv) (rep : NetworkReplicationManager) (a : FloatValue) :
    turns envs { rep with accumulator := a } =
      ({ (turns envs rep).1 with accumulator := a }, (turns envs rep).2) := by
  induction envs generalizing rep with
  | nil => rfl
  | cons env envs ih =>
    have hone : (ticking { rep with accumulator := a }).buildAndSendSnapshot env =
        ({ ((ticking rep).buildAndSendSnapshot env).1 with accumulator := a },
          ((ticking rep).buildAndSendSnapshot env).2) :=
      buildAndSendSnapshot_accumulator env (ticking rep) a
    rw [turns, turns]
    dsimp only
    rw [hone, ih]

/-- A call of `server_tick` is a number of ticks. -/
theorem serverTickLoop_eq {envs : List TickEnv} {rep : NetworkReplicationManager}
    {out : NetworkReplicationManager × List (ClientId × Bytes)}
    (h : serverTickLoop envs rep = some out) : ∃ used, used <+: envs ∧
      out = ({ (turns used rep).1 with accumulator := out.1.accumulator }, (turns used rep).2) := by
  induction envs generalizing rep out with
  | nil =>
    unfold serverTickLoop at h
    split_ifs at h
    cases h
    exact ⟨[], List.prefix_rfl, rfl⟩
  | cons env envs ih =>
    unfold serverTickLoop at h
    split_ifs at h with hdue
    · have hone : ({ rep with
          accumulator := binary32.sub rep.accumulator (targetDt rep.tickRate)
          snapshotId := rep.snapshotId + 1 } : NetworkReplicationManager).buildAndSendSnapshot env =
          ({ ((ticking rep).buildAndSendSnapshot env).1 with
            accumulator := binary32.sub rep.accumulator (targetDt rep.tickRate) },
            ((ticking rep).buildAndSendSnapshot env).2) :=
        buildAndSendSnapshot_accumulator env (ticking rep) _
      dsimp only at h
      rw [hone] at h
      obtain ⟨rest, hrest, rfl⟩ := Option.map_eq_some_iff.mp h
      obtain ⟨used, hused, hout⟩ := ih hrest
      rw [turns_accumulator] at hout
      refine ⟨env :: used, (List.prefix_cons_inj env).mpr hused, ?_⟩
      rw [hout]
      rfl
    · cases h
      exact ⟨[], List.nil_prefix, rfl⟩

/-! ### What holds in every run -/

section
variable {client : ClientId} {s s' : System}

theorem value_append {ticks : List Tick} {e : NetworkId} {n : ℕ} (t : Tick) (h : n < ticks.length) :
    value (ticks ++ [t]) e n = value ticks e n := by
  unfold value
  rw [List.getElem?_append_left h]

theorem contents_append {ticks : List Tick} {n : ℕ} (t : Tick) (h : n < ticks.length) :
    contents (ticks ++ [t]) n = contents ticks n := by
  unfold contents
  rw [List.getElem?_append_left h]

theorem value_last (ticks : List Tick) (t : Tick) (e : NetworkId) :
    value (ticks ++ [t]) e ticks.length = t.value e := by
  unfold value
  rw [List.getElem?_concat_length]
  rfl

theorem contents_last (ticks : List Tick) (t : Tick) :
    contents (ticks ++ [t]) ticks.length = t.contents := by
  unfold contents
  rw [List.getElem?_concat_length]
  rfl

theorem id_append {ticks : List Tick} {n : ℕ} {id : UInt16} (t : Tick)
    (h : ticks[n]?.map Tick.id = some id) : (ticks ++ [t])[n]?.map Tick.id = some id := by
  obtain ⟨u, hu, -⟩ := Option.map_eq_some_iff.mp h
  obtain ⟨hn, -⟩ := List.getElem?_eq_some_iff.mp hu
  rwa [List.getElem?_append_left hn]

/-- What ties the two ends and the log together. -/
structure Linked (client : ClientId) (s : System) : Prop where
  distinct : (s.server.clientStates.map Prod.fst).Nodup
  known : lookup Prod.fst client s.server.clientStates = some (client, s.state client)
  atOnce : AppliesAtOnce s.client
  untold : s.ticks = [] → s.client.lastReceivedSnapshot = 0 ∧ s.acks = [] ∧ s.state client = {}
  messages : ∀ t ∈ s.ticks, ∀ message ∈ t.message,
    ∃ entities, message = snapshotMessage t.id entities
  arrived : ∀ p ∈ s.arrived, p.1 < s.ticks.length ∧ deserialized p.2 = contents s.ticks p.1
  newest : s.client.lastReceivedSnapshot ≠ 0 →
    s.ticks[s.newest]?.map Tick.id = some s.client.lastReceivedSnapshot
  acks : ∀ a ∈ s.acks, s.ticks[a.tick]?.map Tick.id = some a.id ∧ a.upTo ≤ s.arrived.length
  recorded : ∀ a ∈ s.recorded, a ∈ s.acks

theorem Start.linked (h : Start client s) : Linked client s where
  distinct := h.distinct
  known := by
    rw [h.known, state, clientState, h.known]
    rfl
  atOnce := h.atOnce
  untold := fun _ => ⟨h.unacked, h.acks, by rw [state, clientState, h.known]; rfl⟩
  messages := by simp [h.ticks]
  arrived := by simp [h.arrived]
  newest := fun hne => absurd h.unacked hne
  acks := by simp [h.acks]
  recorded := by simp [h.recorded]

theorem known_of_lookup {rep : NetworkReplicationManager} {state : ClientReplicationState}
    (h : lookup Prod.fst client rep.clientStates = some (client, state)) :
    rep.clientState client = state := by
  rw [clientState, h]
  rfl

/-- The entities that a tick sends to the client. -/
def sentAt (client : ClientId) (env : TickEnv) (s : System) : List EntitySnapshot :=
  ((ticking s.server).turnFor env client (s.state client)).2

/-- What a tick adds to the log. -/
def tickAt (client : ClientId) (env : TickEnv) (s : System) : Tick where
  env := env
  id := s.server.snapshotId + 1
  managed := s.server.hasEntityMgr
  visible := (s.state client).visibleEntities
  message := if s.sentAt client env = [] then none
    else some (snapshotMessage (s.server.snapshotId + 1) (s.sentAt client env))

theorem step_tick {env : TickEnv} (h : Linked client s) (hconn : env.connected client = true) :
    step client s (.tick env) = some { s with
      server := ((ticking s.server).buildAndSendSnapshot env).1
      ticks := s.ticks ++ [s.tickAt client env] } := by
  obtain ⟨-, hmessage⟩ := buildAndSendSnapshot_client (ticking s.server) h.distinct h.known
    hconn
  unfold step
  dsimp only
  rw [hmessage]
  rfl

theorem fits_sentAt {env : TickEnv} (hfits : Fits ((ticking s.server).scratchSnap env)) :
    Fits (s.sentAt client env) := by
  have hsub : (s.sentAt client env).Sublist ((ticking s.server).scratchSnap env) :=
    turnFor_sublist env client (s.state client) (ticking s.server)
  exact ⟨lt_of_le_of_lt hsub.length_le hfits.count, fun ent hent => hfits.data ent (hsub.subset hent)⟩

theorem contents_tickAt {env : TickEnv} (hfits : Fits (s.sentAt client env)) :
    (s.tickAt client env).contents = s.sentAt client env := by
  unfold Tick.contents tickAt
  by_cases hnil : s.sentAt client env = []
  · rw [if_pos hnil, hnil]
  · rw [if_neg hnil]
    exact deltaEntities_snapshotMessage hfits _

/-- The client is connected while the server ticks. -/
def Connected (client : ClientId) : Call → Prop
  | .tick env => env.connected client = true
  | _ => True

/-- The other calls leave the client's entry and the settings of the manager as they are. -/
structure Aside (client : ClientId) (rep rep' : NetworkReplicationManager) : Prop where
  known : lookup Prod.fst client rep'.clientStates = lookup Prod.fst client rep.clientStates
  distinct : (rep.clientStates.map Prod.fst).Nodup → (rep'.clientStates.map Prod.fst).Nodup
  filter : rep'.hasInterestFilter = rep.hasInterestFilter
  managed : rep'.hasEntityMgr = rep.hasEntityMgr

theorem Aside.setClientState {rep : NetworkReplicationManager} {other : ClientId}
    (hne : other ≠ client) (state : ClientReplicationState) :
    Aside client rep (rep.setClientState other state) where
  known := lookup_upsert_ne (other, state) rep.clientStates hne
  distinct := nodup_map_key_upsert (other, state)
  filter := rfl
  managed := rfl

/-- What a call does. -/
inductive Effect (client : ClientId) (s : System) : Call → System → Prop
  | server {call : Call} {rep : NetworkReplicationManager} (h : Aside client s.server rep) :
    Effect client s call { s with server := rep }
  | tick {env : TickEnv} {s' : System} (h : step client s (.tick env) = some s') :
    Effect client s (.tick env) s'
  | arrive {n : ℕ} {t : Tick} {message : Bytes} (ht : s.ticks[n]? = some t)
      (hmessage : t.message = some message) : Effect client s (.arrive n) { s with
        client := (s.client.onReceiveDelta (message.drop 3)).1
        arrived := s.arrived ++ [(n, (s.client.onReceiveDelta (message.drop 3)).2)]
        newest := if newer (readBe16 (message.drop 3)) s.client.lastReceivedSnapshot then n
          else s.newest }
  | sendAck (h : s.client.lastReceivedSnapshot ≠ 0) : Effect client s .sendAck { s with
      acks := s.acks ++ [⟨ackMessage s.client.lastReceivedSnapshot, s.newest, s.arrived.length⟩] }
  | noAck : Effect client s .sendAck s
  | ackArrives {i : ℕ} {a : Ack} {recorded : List Ack} (ha : a ∈ s.acks)
      (hrecorded : recorded = s.recorded ∨ recorded = s.recorded ++ [a]) :
    Effect client s (.ackArrives i) { s with
      server := s.server.onSnapshotAck client a.id
      recorded := recorded }

theorem step_effect {call : Call} (h : step client s call = some s') : Effect client s call s' := by
  cases call with
  | markDirty netId =>
    cases h
    exact .server ⟨rfl, id, rfl, rfl⟩
  | tick env => exact .tick h
  | arrive n =>
    obtain ⟨message, hmessage, rfl⟩ := Option.map_eq_some_iff.mp h
    obtain ⟨t, ht, hmessage⟩ := Option.bind_eq_some_iff.mp hmessage
    exact .arrive ht hmessage
  | sendAck =>
    rw [step] at h
    by_cases hne : s.client.lastReceivedSnapshot ≠ 0
    · rw [if_pos hne] at h
      cases h
      exact .sendAck hne
    · rw [if_neg hne] at h
      cases h
      exact .noAck
  | ackArrives i =>
    obtain ⟨a, ha, rfl⟩ := Option.map_eq_some_iff.mp h
    refine .ackArrives (List.mem_of_getElem? ha) ?_
    split_ifs
    · exact .inr rfl
    · exact .inl rfl
  | otherConnects other =>
    rw [step] at h
    by_cases hne : other = client
    · rw [if_pos hne] at h
      cases h
    · rw [if_neg hne] at h
      cases h
      exact .server (.setClientState hne _)
  | otherDisconnects other =>
    rw [step] at h
    by_cases hne : other = client
    · rw [if_pos hne] at h
      cases h
    · rw [if_neg hne] at h
      cases h
      refine .server ⟨lookup_erased_ne (Ne.symm hne) _, fun hn => ?_, rfl, rfl⟩
      exact hn.sublist (List.filter_sublist.map Prod.fst)
  | otherAcks other id =>
    rw [step] at h
    by_cases hne : other = client
    · rw [if_pos hne] at h
      cases h
    · rw [if_neg hne] at h
      cases h
      exact .server (.setClientState hne _)

theorem clientState_congr {rep rep' : NetworkReplicationManager}
    (h : lookup Prod.fst client rep'.clientStates = lookup Prod.fst client rep.clientStates) :
    rep'.clientState client = rep.clientState client := by
  rw [clientState, clientState, h]

/-- The snapshot that the client takes for the newest after a message. -/
theorem lastReceived_onReceiveDelta (rep : NetworkReplicationManager) {data : Bytes}
    (hlen : 4 ≤ data.length) : (rep.onReceiveDelta data).1.lastReceivedSnapshot =
      if newer (readBe16 data) rep.lastReceivedSnapshot then readBe16 data
      else rep.lastReceivedSnapshot := by
  have happly : ∀ (id : UInt16) (entities : List EntitySnapshot) (rep : NetworkReplicationManager),
      (applyDelta id entities rep).1.lastReceivedSnapshot = rep.lastReceivedSnapshot := by
    intro id entities rep
    unfold applyDelta
    split_ifs <;> rfl
  unfold onReceiveDelta
  rw [if_neg (not_lt.mpr hlen), happly]
  rfl

theorem step_linked {call : Call} (h : Linked client s) (hconn : Connected client call)
    (hstep : step client s call = some s') : Linked client s' := by
  cases step_effect hstep with
  | server haside =>
    have hstate := clientState_congr haside.known
    refine ⟨haside.distinct h.distinct, ?_, h.atOnce, ?_, h.messages, h.arrived, h.newest, h.acks,
      h.recorded⟩
    · show lookup Prod.fst client _ = some (client, _)
      rw [haside.known, h.known]
      exact congrArg (fun st => some (client, st)) hstate.symm
    · intro hnil
      obtain ⟨hlast, hacks, hfresh⟩ := h.untold hnil
      exact ⟨hlast, hacks, hstate.trans hfresh⟩
  | @tick env =>
    obtain ⟨hstate, -⟩ := buildAndSendSnapshot_client (ticking s.server) h.distinct h.known
      hconn
    rw [step_tick h hconn] at hstep
    cases hstep
    refine ⟨?_, ?_, h.atOnce, fun hnil => ?_, ?_, ?_, ?_, ?_, h.recorded⟩
    · rw [map_fst_buildAndSendSnapshot]
      exact h.distinct
    · show lookup Prod.fst client _ = some (client, clientState client _)
      rw [known_of_lookup hstate, hstate]
    · exact absurd hnil (List.append_ne_nil_of_right_ne_nil _ (List.cons_ne_nil _ _))
    · intro t ht message hmessage
      rcases List.mem_append.mp ht with ht | ht
      · exact h.messages t ht message hmessage
      · obtain rfl := List.mem_singleton.mp ht
        unfold tickAt at hmessage
        split_ifs at hmessage
        · cases hmessage
        · exact ⟨_, (Option.some.inj hmessage).symm⟩
    · intro p hp
      obtain ⟨hlt, hcalls⟩ := h.arrived p hp
      refine ⟨?_, by rw [contents_append _ hlt, hcalls]⟩
      rw [List.length_append]
      exact Nat.lt_add_right _ hlt
    · exact fun hne => id_append _ (h.newest hne)
    · exact fun a ha => ⟨id_append _ (h.acks a ha).1, (h.acks a ha).2⟩
  | @arrive n t message ht hmessage =>
    obtain ⟨hatOnce, hcalls⟩ := onReceiveDelta_atOnce h.atOnce (message.drop 3)
    obtain ⟨hn, hget⟩ := List.getElem?_eq_some_iff.mp ht
    obtain ⟨entities, heq⟩ := h.messages t (List.mem_of_getElem? ht) message hmessage
    have hid : readBe16 (message.drop 3) = t.id := by rw [heq, readBe16_snapshotMessage]
    refine ⟨h.distinct, h.known, hatOnce, fun hnil => ?_, h.messages, fun p hp => ?_, fun hne => ?_,
      fun a ha => ⟨(h.acks a ha).1, ?_⟩, h.recorded⟩
    · have hnil : s.ticks = [] := hnil
      rw [hnil] at ht
      cases ht
    · rcases List.mem_append.mp hp with hp | hp
      · exact h.arrived p hp
      · obtain rfl := List.mem_singleton.mp hp
        refine ⟨hn, hcalls.trans ?_⟩
        unfold contents
        rw [ht, Option.map_some, Option.getD_some, Tick.contents, hmessage]
    · have hlen : 4 ≤ (message.drop 3).length := by rw [heq, drop_snapshotMessage]; simp; omega
      have hlast := lastReceived_onReceiveDelta s.client hlen
      dsimp only at hne ⊢
      rw [hlast] at hne ⊢
      split_ifs at hne ⊢ with hnew
      · rw [ht, hid]
        rfl
      · exact h.newest hne
    · have hle := (h.acks a ha).2
      rw [List.length_append]
      exact Nat.le_add_right_of_le hle
  | sendAck hne =>
    refine ⟨h.distinct, h.known, h.atOnce, fun hnil => absurd (h.untold hnil).1 hne, h.messages,
      h.arrived, h.newest, fun a ha => ?_, fun a ha => List.mem_append_left _ (h.recorded a ha)⟩
    rcases List.mem_append.mp ha with ha | ha
    · exact h.acks a ha
    · obtain rfl := List.mem_singleton.mp ha
      refine ⟨(h.newest hne).trans (congrArg some ?_), Nat.le_refl _⟩
      exact (ofBe16_be16 _).symm
  | noAck => exact h
  | @ackArrives i a recorded ha hrecorded =>
    refine ⟨nodup_map_key_upsert _ h.distinct, ?_, h.atOnce, fun hnil => ?_, h.messages, h.arrived,
      h.newest, h.acks, fun b hb => ?_⟩
    · show lookup Prod.fst client _ = some (client, clientState client _)
      have hself := @lookup_setClientState s.server client
        (if ¬(s.state client).hasAck = true ∨
          newer a.id (s.state client).lastAckedSnapshot = true then
          { s.state client with lastAckedSnapshot := a.id, hasAck := true } else s.state client)
      exact hself.trans (congrArg (fun st => some (client, st)) (known_of_lookup hself).symm)
    · exact absurd ((h.untold hnil).2.1 ▸ ha) List.not_mem_nil
    · rcases hrecorded with rfl | rfl
      · exact h.recorded b hb
      · rcases List.mem_append.mp hb with hb | hb
        · exact h.recorded b hb
        · exact List.mem_singleton.mp hb ▸ ha

theorem run_linked {ok : System → Call → Prop} {s₀ : System} (hstart : Start client s₀)
    (hok : ∀ s call, ok s call → Connected client call) (hrun : Run (step client) ok s₀ s) :
    Linked client s :=
  hrun.invariant hstart.linked fun _ _ _ h ho hs => step_linked h (hok _ _ ho) hs

/-- No call changes what is set up before the run. -/
theorem step_settings {call : Call} (hstep : step client s call = some s') :
    s'.server.hasInterestFilter = s.server.hasInterestFilter ∧
      s'.server.hasEntityMgr = s.server.hasEntityMgr := by
  cases step_effect hstep with
  | server haside => exact ⟨haside.filter, haside.managed⟩
  | @tick env =>
    cases hstep
    obtain ⟨hfilter, hmanaged, -⟩ := config_buildAndSendSnapshot env (ticking s.server)
    exact ⟨hfilter, hmanaged⟩
  | arrive | sendAck | noAck | ackArrives => exact ⟨rfl, rfl⟩

/-- The message is newer than all that the client has received. -/
def Newest (s : System) (n : ℕ) : Prop :=
  ∃ message, (s.ticks[n]?.bind Tick.message) = some message ∧
    newer (readBe16 (message.drop 3)) s.client.lastReceivedSnapshot = true

/-- What holds of the arrived messages whenever one of them is the newest holds at every ack. -/
theorem acks_of_newest {ok : System → Call → Prop} {Q : List Tick → List ℕ → ℕ → Prop} {s₀ : System}
    (hticks : ∀ ticks t arrived n, n < ticks.length → (∀ m ∈ arrived, m < ticks.length) →
      Q ticks arrived n → Q (ticks ++ [t]) arrived n)
    (harrived : ∀ ticks arrived m n, Q ticks arrived n → Q ticks (arrived ++ [m]) n)
    (hconn : ∀ s call, ok s call → Connected client call)
    (hok : ∀ s n, ok s (.arrive n) → s.Newest n → Q s.ticks (s.arrived.map Prod.fst ++ [n]) n)
    (hstart : Start client s₀) (hrun : Run (step client) ok s₀ s) :
    ∀ a ∈ s.acks, Q s.ticks ((s.arrived.take a.upTo).map Prod.fst) a.tick := by
  have hlt : ∀ {ticks : List Tick} {n : ℕ} {id : UInt16}, ticks[n]?.map Tick.id = some id →
      n < ticks.length := by
    intro ticks n id h
    obtain ⟨u, hu, -⟩ := Option.map_eq_some_iff.mp h
    exact (List.getElem?_eq_some_iff.mp hu).1
  suffices h : Linked client s ∧
      (s.client.lastReceivedSnapshot ≠ 0 → Q s.ticks (s.arrived.map Prod.fst) s.newest) ∧
      ∀ a ∈ s.acks, Q s.ticks ((s.arrived.take a.upTo).map Prod.fst) a.tick from h.2.2
  refine hrun.invariant (I := fun s => Linked client s ∧
      (s.client.lastReceivedSnapshot ≠ 0 → Q s.ticks (s.arrived.map Prod.fst) s.newest) ∧
      ∀ a ∈ s.acks, Q s.ticks ((s.arrived.take a.upTo).map Prod.fst) a.tick)
    ⟨hstart.linked, fun hne => absurd hstart.unacked hne, by simp [hstart.acks]⟩ ?_
  rintro s call s' ⟨hlinked, hnewest, hacks⟩ ho hstep
  have hlinked' := step_linked hlinked (hconn s call ho) hstep
  refine ⟨hlinked', ?_⟩
  have hbound : ∀ m ∈ s.arrived.map Prod.fst, m < s.ticks.length := by
    intro m hm
    obtain ⟨p, hp, rfl⟩ := List.mem_map.mp hm
    exact (hlinked.arrived p hp).1
  cases step_effect hstep with
  | server => exact ⟨hnewest, hacks⟩
  | @tick env =>
    rw [step_tick hlinked (hconn s _ ho)] at hstep
    cases hstep
    refine ⟨fun hne => ?_, fun a ha => ?_⟩
    · exact hticks _ _ _ _ (hlt (hlinked.newest hne)) hbound (hnewest hne)
    · refine hticks _ _ _ _ (hlt (hlinked.acks a ha).1) (fun m hm => hbound m ?_) (hacks a ha)
      exact (List.map_subset _ (List.take_subset _ _)) hm
  | @arrive n t message ht hmessage =>
    refine ⟨fun hne => ?_, fun a ha => ?_⟩
    · obtain ⟨entities, heq⟩ := hlinked.messages t (List.mem_of_getElem? ht) message hmessage
      have hlen : 4 ≤ (message.drop 3).length := by rw [heq, drop_snapshotMessage]; simp; omega
      have hlast := lastReceived_onReceiveDelta s.client hlen
      dsimp only at hne ⊢
      rw [hlast] at hne
      rw [List.map_append]
      split_ifs at hne ⊢ with hnew
      · exact hok s n ho ⟨message, by rw [ht]; exact hmessage, hnew⟩
      · exact harrived _ _ _ _ (hnewest hne)
    · dsimp only
      rw [List.take_append_of_le_length (hlinked.acks a ha).2]
      exact hacks a ha
  | sendAck hne =>
    refine ⟨hnewest, fun a ha => ?_⟩
    rcases List.mem_append.mp ha with ha | ha
    · exact hacks a ha
    · obtain rfl := List.mem_singleton.mp ha
      dsimp only
      rw [List.take_length]
      exact hnewest hne
  | noAck => exact ⟨hnewest, hacks⟩
  | ackArrives => exact ⟨hnewest, hacks⟩

end

/-! ### What the game and the network may do -/

/-- The game has marked each entity whose bytes differ from those of the previous tick. -/
def Marks (client : ClientId) (s : System) (env : TickEnv) : Prop :=
  ∀ e data, (s.tickAt client env).value e = some data → s.lastValue e ≠ some data →
    s.ticks ≠ [] → e ∈ s.server.dirtyEntities

/-- The calls that the game and the network may make. -/
def Marked (client : ClientId) (s : System) : Call → Prop
  | .tick env => env.connected client = true ∧ s.Marks client env
  | _ => True

section
variable {client : ClientId} {s : System}

theorem mem_sentAt {env : TickEnv} {e : NetworkId} {data : Bytes}
    (hfilter : s.server.hasInterestFilter = false) : (e, data) ∈ s.sentAt client env ↔
      (e, data) ∈ (ticking s.server).scratchSnap env ∧
        ∀ baseline ∈ (ticking s.server).deltaBaseline env (s.state client),
          NetworkReplicationManager.changed baseline (e, data) = true :=
  mem_turnFor hfilter

/-- A live entity that has changed is in the snapshot. -/
theorem mem_scratchSnap_of_changed {env : TickEnv} {e : NetworkId} {data : Bytes}
    (hlinked : Linked client s) (hconn : env.connected client = true) (hmarks : s.Marks client env)
    (hall : s.ticks = [] → s.server.hasEntityMgr = true ∨ ∀ e data,
      (s.tickAt client env).value e = some data → e ∈ s.server.dirtyEntities)
    (hvalue : (s.tickAt client env).value e = some data)
    (hchanged : s.lastValue e ≠ some data) : (e, data) ∈ (ticking s.server).scratchSnap env := by
  have hvalue' := hvalue
  unfold Tick.value tickAt at hvalue'
  dsimp only at hvalue'
  split_ifs at hvalue' with hdead
  have hlive : (ticking s.server).hasEntityMgr = true → e ∈ env.entities := by
    intro hmanaged
    by_contra hnot
    exact hdead ⟨hmanaged, hnot⟩
  refine mem_scratchSnap.mpr ⟨?_, hvalue'⟩
  by_cases hfirst : s.ticks = []
  · rcases hall hfirst with hmanaged | hdirty
    · have hticking : (ticking s.server).hasEntityMgr = true := hmanaged
      have hmem : (client, s.state client) ∈ (ticking s.server).clientStates :=
        lookup_mem hlinked.known
      have hack : (s.state client).hasAck = false := by rw [(hlinked.untold hfirst).2.2]
      rw [snapshotEntities_of_noAck hticking hmem hconn hack]
      exact hlive hmanaged
    · exact mem_snapshotEntities_of_dirty (hdirty e data hvalue) hlive
  · exact mem_snapshotEntities_of_dirty (hmarks e data hvalue hchanged hfirst) hlive

end

/-! ### Scripts -/

/-- A tick at which the listed entities live and some of them are of interest to every client. -/
def listed (entities : List EntitySnapshot) (interesting : List NetworkId) : TickEnv where
  serialize := fun e => (lookup Prod.fst e entities).map Prod.snd
  interested := fun e _ => e ∈ interesting
  connected := fun _ => true
  entities := entities.map Prod.fst

/-- The calls of the runs that are made here. -/
inductive Event
  | mark (netId : NetworkId)
  | tick (entities : List EntitySnapshot) (interesting : List NetworkId)
  | arrive (n : ℕ)
  | sendAck
  | ackArrives (i : ℕ)

def Event.call : Event → Call
  | mark netId => .markDirty netId
  | tick entities interesting => .tick (listed entities interesting)
  | arrive n => .arrive n
  | sendAck => .sendAck
  | ackArrives i => .ackArrives i

/-- What is to hold of the values at such a tick need only hold of those listed. -/
theorem forall_value_listed (client : ClientId) (s : System) (entities : List EntitySnapshot)
    (interesting : List NetworkId) {p : NetworkId → Bytes → Prop} :
    (∀ e data, (s.tickAt client (listed entities interesting)).value e = some data → p e data) ↔
      ∀ ent ∈ entities, ∀ data ∈ (s.tickAt client (listed entities interesting)).value ent.1,
        p ent.1 data := by
  constructor
  · exact fun h ent _ data hdata => h ent.1 data hdata
  · intro h e data hvalue
    have hlisted := hvalue
    unfold Tick.value tickAt listed at hlisted
    dsimp only at hlisted
    split_ifs at hlisted
    obtain ⟨ent, hent, rfl⟩ := Option.map_eq_some_iff.mp hlisted
    obtain rfl := lookup_key hent
    exact h ent (lookup_mem hent) ent.2 hvalue

instance (client : ClientId) (s : System) (entities : List EntitySnapshot)
    (interesting : List NetworkId) {p : NetworkId → Bytes → Prop} [∀ e data, Decidable (p e data)] :
    Decidable (∀ e data, (s.tickAt client (listed entities interesting)).value e = some data →
      p e data) :=
  decidable_of_iff _ (forall_value_listed client s entities interesting).symm

instance (client : ClientId) (s : System) (entities : List EntitySnapshot) (interesting : List NetworkId) :
    Decidable (s.Marks client (listed entities interesting)) :=
  inferInstanceAs (Decidable (∀ e data,
    (s.tickAt client (listed entities interesting)).value e = some data → _))

instance (client : ClientId) (s : System) : ∀ event : Event, Decidable (Marked client s event.call)
  | .tick entities interesting => inferInstanceAs (Decidable (_ = true ∧
      s.Marks client (listed entities interesting)))
  | .mark _ | .arrive _ | .sendAck | .ackArrives _ => isTrue trivial

instance (s : System) (n : ℕ) : Decidable (s.Newest n) :=
  decidable_of_iff (∃ message ∈ s.ticks[n]?.bind Tick.message,
    newer (readBe16 (message.drop 3)) s.client.lastReceivedSnapshot = true) Iff.rfl

/-- A server with an entity manager, which never forces a full sync, and a client with the id 7. -/
def connected : System where
  server := { hasBridge := true, hasEntityMgr := true, fullSyncInterval := 0, clientStates := [(7, {})] }
  client := { hasBridge := true }

theorem start_connected : Start 7 connected :=
  ⟨rfl, List.nodup_singleton _, ⟨rfl, rfl, rfl⟩, rfl, rfl, rfl, rfl, rfl⟩

end System

end CampelloNet.Replication
