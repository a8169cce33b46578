import CampelloNet.Replication.System

/-!
# Entities that enter the interest of a client

An entity that the client was not sent before is sent to it whatever the baseline says, but only once:
it counts as visible from then on, whether the message arrives or not. The entry is not lost in the runs
in which the forced sends of all earlier messages have arrived whenever a message is the client's
newest, and in which an entity that leaves interest is serialised when it does (`entries_received`).
-/

namespace CampelloNet.Replication

open Lib NetworkReplicationManager

namespace System

/-- The entity is of interest to the client and has a state to send. -/
structure Passes (client : ClientId) (t : Tick) (e : NetworkId) : Prop where
  interested : t.env.interested e client = true
  managed : e ∈ t.env.entities
  serialized : (t.env.serialize e).isSome

instance (client : ClientId) (t : Tick) (e : NetworkId) : Decidable (Passes client t e) :=
  decidable_of_iff (t.env.interested e client = true ∧ e ∈ t.env.entities ∧
    (t.env.serialize e).isSome) ⟨fun h => ⟨h.1, h.2.1, h.2.2⟩, fun h => ⟨h.1, h.2, h.3⟩⟩

/-- The entity passes at every tick from `first` to `last`. -/
def PassesFrom (client : ClientId) (ticks : List Tick) (e : NetworkId) (first last : ℕ) : Prop :=
  ∀ n ≤ last, first ≤ n → ∀ t ∈ ticks[n]?, Passes client t e

/-- The entity enters the client's interest at the tick. -/
def Enters (client : ClientId) (ticks : List Tick) (e : NetworkId) (first : ℕ) : Prop :=
  first = 0 ∨ ∀ t ∈ ticks[first - 1]?, t.env.interested e client = false

/-- A message between the two ticks has arrived and contains the entity. -/
def ReceivedBetween (ticks : List Tick) (arrived : List ℕ) (e : NetworkId) (first last : ℕ) : Prop :=
  ∃ n ∈ arrived, first ≤ n ∧ n ≤ last ∧ e ∈ (contents ticks n).map Prod.fst

instance (ticks : List Tick) (arrived : List ℕ) (e : NetworkId) (first last : ℕ) :
    Decidable (ReceivedBetween ticks arrived e first last) :=
  inferInstanceAs (Decidable (∃ n ∈ arrived, _ ∧ _ ∧ _))

/-- Each entity that has entered interest, has stayed since, and whose client has acked a snapshot
since, is in a message that has arrived between the two. -/
def EntriesReceived (client : ClientId) (s : System) : Prop :=
  ∀ a ∈ s.recorded, s.ticks[a.tick]?.map Tick.id = some a.id ∧
    ∀ e, ∀ first ≤ a.tick, Enters client s.ticks e first →
      PassesFrom client s.ticks e first (s.ticks.length - 1) →
      ReceivedBetween s.ticks (s.arrived.map Prod.fst) e first a.tick

/-- An entity that leaves interest is in the snapshot, and the counts of the format suffice. -/
structure Noticed (client : ClientId) (s : System) (env : TickEnv) : Prop where
  leaving : ∀ e ∈ (s.state client).visibleEntities, env.interested e client = false →
    e ∈ env.entities ∧ (env.serialize e).isSome
  fits : Fits ((ticking s.server).scratchSnap env)

/-- Each entity that has been sent as a new one, in a message up to the given one, and has passed
since, is in a message since then that has arrived. -/
def ForcedReached (client : ClientId) (ticks : List Tick) (arrived : List ℕ) (n : ℕ) : Prop :=
  ∀ first ≤ n, ∀ t ∈ ticks[first]?, ∀ e ∈ t.contents.map Prod.fst, e ∉ t.visible →
    PassesFrom client ticks e first n → ReceivedBetween ticks arrived e first n

/-- The calls of the runs in which no entry is lost. -/
def Regular (client : ClientId) (s : System) : Call → Prop
  | .tick env => env.connected client = true ∧ s.Noticed client env
  | .arrive n => s.Newest n → ForcedReached client s.ticks (s.arrived.map Prod.fst ++ [n]) n
  | _ => True

variable {client : ClientId} {s s' s₀ : System}

theorem connected_of_regular {s : System} {call : Call} (h : Regular client s call) :
    Connected client call := by
  cases call with
  | tick env => exact h.1
  | _ => trivial

/-- What the log says of visibility. -/
structure Watched (client : ClientId) (ticks : List Tick) : Prop where
  forced : ∀ t ∈ ticks, ∀ e, Passes client t e → e ∉ t.visible → e ∈ t.contents.map Prod.fst
  first : ∀ t ∈ ticks[0]?, t.visible = ∅
  exits : ∀ n, ∀ t ∈ ticks[n]?, ∀ u ∈ ticks[n + 1]?, ∀ e ∈ u.visible,
    t.env.interested e client = true

/-- What is visible to the client is of interest to it at the last tick. -/
def VisibleOfInterest (client : ClientId) (s : System) : Prop :=
  ∀ t ∈ s.ticks.getLast?, ∀ e ∈ (s.state client).visibleEntities, t.env.interested e client = true

/-- The snapshot of a tick with an interest filter and an entity manager. -/
theorem mem_scratchSnap_iff {env : TickEnv} {e : NetworkId} {data : Bytes}
    (hfilter : s.server.hasInterestFilter = true) (hmanaged : s.server.hasEntityMgr = true) :
    (e, data) ∈ (ticking s.server).scratchSnap env ↔
      e ∈ env.entities ∧ env.serialize e = some data := by
  have hfilter' : (ticking s.server).hasInterestFilter = true := hfilter
  have hmanaged' : (ticking s.server).hasEntityMgr = true := hmanaged
  rw [mem_scratchSnap, snapshotEntities_of_filter hfilter' hmanaged']

theorem state_tick {env : TickEnv} (hlinked : Linked client s)
    (hconn : env.connected client = true) :
    ((ticking s.server).buildAndSendSnapshot env).1.clientState client =
      ((ticking s.server).turnFor env client (s.state client)).1 :=
  known_of_lookup (buildAndSendSnapshot_client (ticking s.server) hlinked.distinct
    hlinked.known hconn).1

theorem watched_tick {env : TickEnv} (hlinked : Linked client s)
    (hfilter : s.server.hasInterestFilter = true) (hmanaged : s.server.hasEntityMgr = true)
    (hnoticed : s.Noticed client env) (hvisible : s.VisibleOfInterest client)
    (h : Watched client s.ticks) : Watched client (s.ticks ++ [s.tickAt client env]) where
  forced := by
    intro t ht e hpasses hnew
    rcases List.mem_append.mp ht with ht | ht
    · exact h.forced t ht e hpasses hnew
    · obtain rfl := List.mem_singleton.mp ht
      obtain ⟨data, hdata⟩ := Option.isSome_iff_exists.mp hpasses.serialized
      rw [contents_tickAt (fits_sentAt hnoticed.fits)]
      exact mem_turnFor_of_new hfilter
        ((mem_scratchSnap_iff hfilter hmanaged).mpr ⟨hpasses.managed, hdata⟩) hpasses.interested hnew
  first := by
    intro t ht
    by_cases hnil : s.ticks = []
    · rw [hnil] at ht
      cases ht
      show (s.state client).visibleEntities = ∅
      rw [(hlinked.untold hnil).2.2]
    · rw [List.getElem?_append_left (List.length_pos_of_ne_nil hnil)] at ht
      exact h.first t ht
  exits := by
    intro n t ht u hu e he
    by_cases hlt : n + 1 < s.ticks.length
    · rw [List.getElem?_append_left hlt] at hu
      rw [List.getElem?_append_left (Nat.lt_of_succ_lt hlt)] at ht
      exact h.exits n t ht u hu e he
    · have hn := (List.getElem?_eq_some_iff.mp hu).1
      rw [List.length_append, List.length_singleton] at hn
      obtain hlen : n + 1 = s.ticks.length := by omega
      rw [hlen, List.getElem?_concat_length] at hu
      cases hu
      rw [List.getElem?_append_left (by omega)] at ht
      refine hvisible t ?_ e he
      rw [List.getLast?_eq_getElem?, ← hlen]
      exact ht

theorem visible_tick {env : TickEnv} (hlinked : Linked client s)
    (hfilter : s.server.hasInterestFilter = true) (hmanaged : s.server.hasEntityMgr = true)
    (hconn : env.connected client = true) (hnoticed : s.Noticed client env) {e : NetworkId}
    (he : e ∈ (((ticking s.server).buildAndSendSnapshot env).1.clientState client).visibleEntities) :
    env.interested e client = true := by
  rw [state_tick hlinked hconn] at he
  rcases visible_turnFor (ticking s.server) hfilter he with hint | ⟨hbefore, hout⟩
  · exact hint
  · by_contra hnot
    obtain ⟨hmem, hser⟩ := hnoticed.leaving e hbefore (Bool.eq_false_of_not_eq_true hnot)
    obtain ⟨data, hdata⟩ := Option.isSome_iff_exists.mp hser
    exact hout (List.mem_map_of_mem ((mem_scratchSnap_iff hfilter hmanaged).mpr ⟨hmem, hdata⟩))

theorem run_watched (hstart : Start client s₀) (hfilter : s₀.server.hasInterestFilter = true)
    (hmanaged : s₀.server.hasEntityMgr = true) (hrun : Run (step client) (Regular client) s₀ s) :
    Watched client s.ticks := by
  suffices h : (Linked client s ∧ s.server.hasInterestFilter = true ∧ s.server.hasEntityMgr = true) ∧
      s.VisibleOfInterest client ∧ Watched client s.ticks from h.2.2
  refine hrun.invariant (I := fun s => (Linked client s ∧ s.server.hasInterestFilter = true ∧
    s.server.hasEntityMgr = true) ∧ s.VisibleOfInterest client ∧ Watched client s.ticks)
    ⟨⟨hstart.linked, hfilter, hmanaged⟩, ?_, ?_⟩ ?_
  · unfold VisibleOfInterest
    rw [hstart.ticks]
    exact fun t ht => by cases ht
  · rw [hstart.ticks]
    refine ⟨fun t ht => absurd ht List.not_mem_nil, fun t ht => ?_, fun n t ht => ?_⟩
    · cases ht
    · cases ht
  · rintro s call s' ⟨⟨hlinked, hfil, hmgr⟩, hvisible, hwatched⟩ ho hstep
    obtain ⟨hfil', hmgr'⟩ := step_settings hstep
    refine ⟨⟨step_linked hlinked (connected_of_regular ho) hstep, hfil'.trans hfil,
      hmgr'.trans hmgr⟩, ?_⟩
    cases step_effect hstep with
    | @tick env =>
      obtain ⟨hconn, hnoticed⟩ := ho
      rw [step_tick hlinked hconn] at hstep
      cases hstep
      refine ⟨fun t ht e he => ?_, watched_tick hlinked hfil hmgr hnoticed hvisible hwatched⟩
      rw [List.getLast?_concat] at ht
      cases ht
      exact visible_tick hlinked hfil hmgr hconn hnoticed he
    | server haside =>
      refine ⟨fun t ht e he => hvisible t ht e ?_, hwatched⟩
      rwa [state, clientState_congr haside.known] at he
    | ackArrives =>
      refine ⟨fun t ht e he => hvisible t ht e ?_, hwatched⟩
      rwa [state, visible_onSnapshotAck] at he
    | arrive | sendAck | noAck => exact ⟨hvisible, hwatched⟩

theorem forcedReached_append_tick {ticks : List Tick} {t : Tick} {arrived : List ℕ} {n : ℕ}
    (hn : n < ticks.length) (harrived : ∀ m ∈ arrived, m < ticks.length)
    (h : ForcedReached client ticks arrived n) : ForcedReached client (ticks ++ [t]) arrived n := by
  intro first hfirst u hu e he hnew hpasses
  rw [List.getElem?_append_left (lt_of_le_of_lt hfirst hn)] at hu
  obtain ⟨m, hm, hle, hmn, hmem⟩ := h first hfirst u hu e he hnew fun k hk hfk v hv =>
    hpasses k hk hfk v (by rwa [List.getElem?_append_left (lt_of_le_of_lt hk hn)])
  exact ⟨m, hm, hle, hmn, by rwa [contents_append t (harrived m hm)]⟩

theorem forcedReached_append_arrival {ticks : List Tick} {arrived : List ℕ} {m n : ℕ}
    (h : ForcedReached client ticks arrived n) : ForcedReached client ticks (arrived ++ [m]) n := by
  intro first hfirst u hu e he hnew hpasses
  obtain ⟨k, hk, hbetween⟩ := h first hfirst u hu e he hnew hpasses
  exact ⟨k, List.mem_append_left _ hk, hbetween⟩

/-- The first message after an entity's entry contains it. -/
theorem sent_at_entry {ticks : List Tick} {e : NetworkId} {first last : ℕ} {t : Tick}
    (hwatched : Watched client ticks) (ht : ticks[first]? = some t) (hle : first ≤ last)
    (henters : Enters client ticks e first) (hpasses : PassesFrom client ticks e first last) :
    e ∉ t.visible ∧ e ∈ t.contents.map Prod.fst := by
  have hnew : e ∉ t.visible := by
    intro he
    rcases henters with rfl | hbefore
    · rw [hwatched.first t ht] at he
      exact absurd he (Finset.notMem_empty e)
    · rcases Nat.eq_zero_or_pos first with rfl | hpos
      · rw [hwatched.first t ht] at he
        exact absurd he (Finset.notMem_empty e)
      · have hlt : first - 1 < ticks.length := by
          have := (List.getElem?_eq_some_iff.mp ht).1
          omega
        have hget := List.getElem?_eq_getElem hlt
        have hyes := hwatched.exits (first - 1) _ hget t (by rwa [Nat.sub_add_cancel hpos]) e he
        rw [hbefore _ hget] at hyes
        cases hyes
  exact ⟨hnew, hwatched.forced t (List.mem_of_getElem? ht) e
    (hpasses first hle (le_refl first) t ht) hnew⟩

/-- In every run of regular calls, no entry is lost. -/
theorem entries_received (hstart : Start client s₀) (hfilter : s₀.server.hasInterestFilter = true)
    (hmanaged : s₀.server.hasEntityMgr = true) (hrun : Run (step client) (Regular client) s₀ s) :
    s.EntriesReceived client := by
  have hlinked := run_linked hstart (fun _ _ => connected_of_regular) hrun
  have hwatched := run_watched hstart hfilter hmanaged hrun
  have hforced := acks_of_newest (Q := ForcedReached client) (fun _ _ _ _ => forcedReached_append_tick)
    (fun _ _ _ _ => forcedReached_append_arrival) (fun _ _ => connected_of_regular)
    (fun s n ho hnew => ho hnew) hstart hrun
  intro a ha
  have hack := hlinked.recorded a ha
  obtain ⟨hid, -⟩ := hlinked.acks a hack
  refine ⟨hid, fun e first hle henters hpasses => ?_⟩
  obtain ⟨u, hu, -⟩ := Option.map_eq_some_iff.mp hid
  have hlt : a.tick < s.ticks.length := (List.getElem?_eq_some_iff.mp hu).1
  have hget := List.getElem?_eq_getElem (lt_of_le_of_lt hle hlt)
  have hpasses' : PassesFrom client s.ticks e first a.tick := fun n hn =>
    hpasses n (le_trans hn (Nat.le_sub_one_of_lt hlt))
  obtain ⟨hnew, hmem⟩ := sent_at_entry hwatched hget hle henters hpasses'
  obtain ⟨n, hn, hfirst, hlast, hcontains⟩ := hforced a hack first hle _ hget e hmem hnew hpasses'
  obtain ⟨p, hp, rfl⟩ := List.mem_map.mp hn
  exact ⟨p.1, List.mem_map_of_mem (List.take_subset _ _ hp), hfirst, hlast, hcontains⟩

/-! ### Two executions -/

instance (ticks : List Tick) (e : NetworkId) (first last : ℕ) :
    Decidable (PassesFrom client ticks e first last) :=
  inferInstanceAs (Decidable (∀ n ≤ last, _ → ∀ t ∈ ticks[n]?, _))

instance (ticks : List Tick) (arrived : List ℕ) (n : ℕ) :
    Decidable (ForcedReached client ticks arrived n) :=
  inferInstanceAs (Decidable (∀ first ≤ n, ∀ t ∈ ticks[first]?, ∀ e ∈ t.contents.map Prod.fst, _))

/-- A property of the visible entities is tested on them alone. -/
instance (priority := 2000) decidableForallVisible {visible : Finset NetworkId}
    {p : NetworkId → Prop} [DecidablePred p] : Decidable (∀ e ∈ visible, p e) :=
  Finset.decidableDforallFinset

instance (env : TickEnv) : Decidable (s.Noticed client env) :=
  decidable_of_iff ((∀ e ∈ (s.state client).visibleEntities, env.interested e client = false →
    e ∈ env.entities ∧ (env.serialize e).isSome) ∧ Fits ((ticking s.server).scratchSnap env))
    ⟨fun h => ⟨h.1, h.2⟩, fun h => ⟨h.leaving, h.fits⟩⟩

instance : ∀ event : Event, Decidable (Regular client s event.call)
  | .tick entities interesting => inferInstanceAs (Decidable (_ = true ∧
      s.Noticed client (listed entities interesting)))
  | .arrive n => inferInstanceAs (Decidable (s.Newest n → ForcedReached client s.ticks _ n))
  | .mark _ | .sendAck | .ackArrives _ => isTrue trivial

instance : ∀ event : Event, Decidable (Connected client event.call)
  | .tick _ _ => isTrue rfl
  | .mark _ | .arrive _ | .sendAck | .ackArrives _ => isTrue trivial

/-- The two ends of `connected`, with an interest filter. -/
def filtering : System := { connected with server := { connected.server with hasInterestFilter := true } }

theorem start_filtering : Start 7 filtering :=
  ⟨rfl, List.nodup_singleton _, ⟨rfl, rfl, rfl⟩, rfl, rfl, rfl, rfl, rfl⟩

/-- Entity 1 enters the interest of the client at the second tick, of which the given messages
arrive, and entity 2 changes at each. -/
def entering (arriving : List ℕ) : List Event :=
  [.tick [(1, [1]), (2, [1])] [2], .arrive 0, .sendAck, .ackArrives 0,
    .mark 2, .tick [(1, [1]), (2, [2])] [1, 2], .mark 2, .tick [(1, [1]), (2, [3])] [1, 2]] ++
    arriving.map .arrive ++ [.sendAck, .ackArrives 1]

def afterEntering : System :=
  (Run.exec (step 7) filtering ((entering [1, 2]).map Event.call)).get (by decide +kernel)

theorem entries_received_entering : afterEntering.recorded.length = 2 ∧
    afterEntering.EntriesReceived 7 :=
  ⟨by decide +kernel, entries_received start_filtering rfl rfl
    (.of_exec ((entering [1, 2]).map Event.call) (Option.some_get _).symm
      ((Run.admits_map _ _ _).mpr (by decide +kernel)))⟩

/-- The message with the entry is lost, and the next one is acked. -/
def afterLostEntry : System :=
  (Run.exec (step 7) filtering ((entering [2]).map Event.call)).get (by decide +kernel)

theorem entries_received_lost :
    Run (step 7) (fun _ call => Connected 7 call) filtering afterLostEntry ∧
      ¬afterLostEntry.EntriesReceived 7 := by
  refine ⟨.of_exec ((entering [2]).map Event.call) (Option.some_get _).symm
    ((Run.admits_map _ _ _).mpr (by decide +kernel)), fun hreceived => ?_⟩
  have hack : ∃ a ∈ afterLostEntry.recorded, a.tick = 2 := by decide +kernel
  obtain ⟨a, ha, htick⟩ := hack
  have hentry := (hreceived a ha).2 1 1
  rw [htick] at hentry
  have henters : ∀ t ∈ afterLostEntry.ticks[0]?, t.env.interested 1 7 = false := by decide +kernel
  replace hentry := hentry (by decide) (.inr henters) (by decide +kernel)
  exact absurd hentry (by decide +kernel)

end System

end CampelloNet.Replication
