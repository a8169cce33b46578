import CampelloNet.Lib.Recency
import CampelloNet.Replication.System

/-!
# What an ack says of the state that a client holds

Without an interest filter, every change is in the snapshot of the next tick, and in no later one: if
that message is lost, the next one that arrives is acked all the same. In the runs in which the client
has got the changes of all earlier messages whenever a message is its newest, and in which no entity
goes back to the bytes that it had in the acked snapshot, an ack means that the client holds the state
of the tick it acks (`acks_held`).
-/

namespace CampelloNet.Replication

open Lib NetworkReplicationManager

namespace System

/-- The client has applied a value of the entity that is at least as recent as that of the tick. -/
def Applied (s : System) (arrived : List (ℕ × List AppCall)) (e : NetworkId) (n : ℕ) : Prop :=
  ∃ p ∈ arrived, ∃ t data, s.ticks[p.1]? = some t ∧ t.env.serialize e = some data ∧
    (e, data) ∈ deserialized p.2 ∧ Recent (value s.ticks e) p.1 n

/-- Every live entity of the tick had been applied, in a recent enough value, when its snapshot was
acked. -/
def AcksHeld (s : System) : Prop :=
  ∀ a ∈ s.recorded, s.ticks[a.tick]?.map Tick.id = some a.id ∧
    ∀ e, (value s.ticks e a.tick).isSome → s.Applied (s.arrived.take a.upTo) e a.tick

/-- The first snapshot covers all live entities, no changed entity is left out of a delta, and the
counts of the format suffice. -/
structure Told (client : ClientId) (s : System) (env : TickEnv) : Prop where
  first : s.ticks = [] → s.server.hasEntityMgr = true ∨
    ∀ e data, (s.tickAt client env).value e = some data → e ∈ s.server.dirtyEntities
  changed : ∀ e data, (s.tickAt client env).value e = some data → s.lastValue e ≠ some data →
    ∀ baseline ∈ (ticking s.server).deltaBaseline env (s.state client), changed baseline (e, data)
  fits : Fits ((ticking s.server).scratchSnap env)

/-- For each entity in a message up to the given one, a message has arrived that contains it with a
value at least as recent. -/
def Reached (ticks : List Tick) (arrived : List ℕ) (n : ℕ) : Prop :=
  ∀ m ≤ n, ∀ e ∈ (contents ticks m).map Prod.fst, ∃ p ∈ arrived,
    e ∈ (contents ticks p).map Prod.fst ∧ Recent (value ticks e) p m

instance (ticks : List Tick) (arrived : List ℕ) (n : ℕ) : Decidable (Reached ticks arrived n) :=
  inferInstanceAs (Decidable (∀ m ≤ n, ∀ e ∈ (contents ticks m).map Prod.fst, ∃ p ∈ arrived, _ ∧ _))

/-- The calls of the runs in which an ack means that the state is held. -/
def Admissible (client : ClientId) (s : System) : Call → Prop
  | .tick env => (env.connected client = true ∧ s.Marks client env) ∧ s.Told client env
  | .arrive n => s.Newest n → Reached s.ticks (s.arrived.map Prod.fst ++ [n]) n
  | _ => True

variable {client : ClientId} {s s' s₀ : System}

/-- Each value that comes up is in the message of its tick. -/
def Announced (ticks : List Tick) : Prop :=
  ∀ n < ticks.length, ∀ e data, value ticks e n = some data →
    (n = 0 ∨ value ticks e (n - 1) ≠ some data) → (e, data) ∈ contents ticks n

/-- What a message says of an entity is what the entity was serialised to. -/
def Truthful (ticks : List Tick) : Prop :=
  ∀ (n : ℕ) (t : Tick), ticks[n]? = some t → ∀ e data, (e, data) ∈ t.contents → t.env.serialize e = some data

/-- A tick announces what has come up. -/
theorem announced_tick {env : TickEnv} (hlinked : Linked client s)
    (hfilter : s.server.hasInterestFilter = false) (hconn : env.connected client = true)
    (hmarks : s.Marks client env) (htold : s.Told client env) (h : Announced s.ticks) :
    Announced (s.ticks ++ [s.tickAt client env]) := by
  intro n hn e data hvalue hnew
  by_cases hlt : n < s.ticks.length
  · have hprev : n - 1 < s.ticks.length := by omega
    rw [value_append _ hlt] at hvalue
    rw [value_append _ hprev] at hnew
    rw [contents_append _ hlt]
    exact h n hlt e data hvalue hnew
  · rw [List.length_append, List.length_singleton] at hn
    obtain rfl : n = s.ticks.length := by omega
    rw [value_last] at hvalue
    rw [contents_last, contents_tickAt (fits_sentAt htold.fits)]
    have hchanged : s.lastValue e ≠ some data := by
      rcases hnew with hzero | hne
      · unfold lastValue value
        rw [List.length_eq_zero_iff.mp hzero]
        exact fun h => by cases h
      · by_cases hzero : s.ticks = []
        · unfold lastValue value
          rw [hzero]
          exact fun h => by cases h
        · have hpos := List.length_pos_of_ne_nil hzero
          rwa [value_append _ (by omega)] at hne
    exact (mem_sentAt hfilter).mpr
      ⟨mem_scratchSnap_of_changed hlinked hconn hmarks htold.first hvalue hchanged,
        htold.changed e data hvalue hchanged⟩

theorem truthful_tick {env : TickEnv} (hfilter : s.server.hasInterestFilter = false)
    (hfits : Fits ((ticking s.server).scratchSnap env)) (h : Truthful s.ticks) :
    Truthful (s.ticks ++ [s.tickAt client env]) := by
  intro n t hget e data hmem
  by_cases hlt : n < s.ticks.length
  · rw [List.getElem?_append_left hlt] at hget
    exact h n t hget e data hmem
  · have hn := (List.getElem?_eq_some_iff.mp hget).1
    rw [List.length_append, List.length_singleton] at hn
    obtain rfl : n = s.ticks.length := by omega
    rw [List.getElem?_concat_length] at hget
    cases hget
    rw [contents_tickAt (fits_sentAt hfits)] at hmem
    exact (mem_scratchSnap.mp ((mem_sentAt hfilter).mp hmem).1).2

theorem connected_of_admissible {s : System} {call : Call} (h : Admissible client s call) :
    Connected client call := by
  cases call with
  | tick env => exact h.1.1
  | _ => trivial

/-- In every run of admissible calls the messages tell the client what changes. -/
theorem run_announced (hstart : Start client s₀) (hfilter : s₀.server.hasInterestFilter = false)
    (hrun : Run (step client) (Admissible client) s₀ s) : Announced s.ticks ∧ Truthful s.ticks := by
  suffices h : (Linked client s ∧ s.server.hasInterestFilter = false) ∧
      Announced s.ticks ∧ Truthful s.ticks from h.2
  refine hrun.invariant (I := fun s => (Linked client s ∧ s.server.hasInterestFilter = false) ∧
    Announced s.ticks ∧ Truthful s.ticks) ⟨⟨hstart.linked, hfilter⟩, ?_, ?_⟩ ?_
  · rw [hstart.ticks]
    exact fun n hn => absurd hn (Nat.not_lt_zero n)
  · rw [hstart.ticks]
    exact fun n t hget => by cases hget
  · rintro s call s' ⟨⟨hlinked, hunfiltered⟩, hannounced, htruthful⟩ ho hstep
    refine ⟨⟨step_linked hlinked (connected_of_admissible ho) hstep,
      (step_settings hstep).1.trans hunfiltered⟩, ?_⟩
    cases step_effect hstep with
    | @tick env =>
      obtain ⟨⟨hconn, hmarks⟩, htold⟩ := ho
      rw [step_tick hlinked hconn] at hstep
      cases hstep
      exact ⟨announced_tick hlinked hunfiltered hconn hmarks htold hannounced,
        truthful_tick hunfiltered htold.fits htruthful⟩
    | server | arrive | sendAck | noAck | ackArrives => exact ⟨hannounced, htruthful⟩

theorem reached_append_tick {ticks : List Tick} {t : Tick} {arrived : List ℕ} {n : ℕ}
    (hn : n < ticks.length) (harrived : ∀ m ∈ arrived, m < ticks.length)
    (h : Reached ticks arrived n) : Reached (ticks ++ [t]) arrived n := by
  intro m hm e he
  rw [contents_append t (lt_of_le_of_lt hm hn)] at he
  obtain ⟨p, hp, hmem, hrecent⟩ := h m hm e he
  refine ⟨p, hp, by rwa [contents_append t (harrived p hp)], hrecent.congr fun k hk => ?_⟩
  exact (value_append t (lt_of_le_of_lt (le_trans hk hm) hn)).symm

theorem reached_append_arrival {ticks : List Tick} {arrived : List ℕ} {m n : ℕ}
    (h : Reached ticks arrived n) : Reached ticks (arrived ++ [m]) n := by
  intro k hk e he
  obtain ⟨p, hp, hmem⟩ := h k hk e he
  exact ⟨p, List.mem_append_left _ hp, hmem⟩

/-- In every run of admissible calls, the acked state is held. -/
theorem acks_held (hstart : Start client s₀) (hfilter : s₀.server.hasInterestFilter = false)
    (hrun : Run (step client) (Admissible client) s₀ s) : s.AcksHeld := by
  have hlinked := run_linked hstart (fun _ _ => connected_of_admissible) hrun
  obtain ⟨hannounced, htruthful⟩ := run_announced hstart hfilter hrun
  have hreached := acks_of_newest (Q := Reached) (fun _ _ _ _ => reached_append_tick)
    (fun _ _ _ _ => reached_append_arrival) (fun _ _ => connected_of_admissible)
    (fun s n ho hnew => ho hnew) hstart hrun
  intro a ha
  have hack := hlinked.recorded a ha
  obtain ⟨hid, -⟩ := hlinked.acks a hack
  refine ⟨hid, fun e hlive => ?_⟩
  obtain ⟨data, hdata⟩ := Option.isSome_iff_exists.mp hlive
  have hlt : a.tick < s.ticks.length := by
    by_contra hnot
    rw [value, List.getElem?_eq_none (not_lt.mp hnot)] at hdata
    cases hdata
  -- the message in which the value came up, and one that has arrived since
  obtain ⟨m, hm, hsaid, hrecent⟩ := exists_recent (value s.ticks e)
    (fun m => e ∈ (contents s.ticks m).map Prod.fst) a.tick fun k hk hsame hnew => by
      rw [hdata] at hsame
      rw [hsame] at hnew
      exact List.mem_map_of_mem (hannounced k (lt_of_le_of_lt hk hlt) e data hsame hnew)
  obtain ⟨n, hn, hmem, hsince⟩ := hreached a hack m hm e hsaid
  obtain ⟨p, hp, rfl⟩ := List.mem_map.mp hn
  obtain ⟨hplt, hcalls⟩ := hlinked.arrived p (List.take_subset _ _ hp)
  obtain ⟨⟨e', data'⟩, hent, rfl⟩ := List.mem_map.mp hmem
  have hget := List.getElem?_eq_getElem hplt
  refine ⟨p, hp, _, data', hget, ?_, by rwa [hcalls], hsince.trans hrecent⟩
  rw [contents, hget, Option.map_some, Option.getD_some] at hent
  exact htruthful p.1 _ hget _ _ hent

/-! ### Two executions -/

instance (entities : List EntitySnapshot) (interesting : List NetworkId) :
    Decidable (s.Told client (listed entities interesting)) :=
  decidable_of_iff ((s.ticks = [] → s.server.hasEntityMgr = true ∨ ∀ e data,
      (s.tickAt client (listed entities interesting)).value e = some data →
        e ∈ s.server.dirtyEntities) ∧
    (∀ e data, (s.tickAt client (listed entities interesting)).value e = some data →
      s.lastValue e ≠ some data → ∀ baseline ∈ (ticking s.server).deltaBaseline
        (listed entities interesting) (s.state client), changed baseline (e, data)) ∧
    Fits ((ticking s.server).scratchSnap (listed entities interesting)))
    ⟨fun h => ⟨h.1, h.2.1, h.2.2⟩, fun h => ⟨h.first, h.changed, h.fits⟩⟩

instance : ∀ event : Event, Decidable (Admissible client s event.call)
  | .tick entities interesting => inferInstanceAs (Decidable ((_ = true ∧
      s.Marks client (listed entities interesting)) ∧ s.Told client (listed entities interesting)))
  | .arrive n => inferInstanceAs (Decidable (s.Newest n → Reached s.ticks _ n))
  | .mark _ | .sendAck | .ackArrives _ => isTrue trivial

/-- The first message is lost, but the second tells the client everything again. -/
def resent : List Event :=
  [.tick [(1, [1])] [], .tick [(1, [1])] [], .arrive 1, .sendAck, .ackArrives 0,
    .mark 1, .tick [(1, [2])] [], .arrive 2, .sendAck, .ackArrives 1]

def afterResent : System :=
  (Run.exec (step 7) connected (resent.map Event.call)).get (by decide +kernel)

theorem acks_held_resent : afterResent.recorded.length = 2 ∧ afterResent.AcksHeld :=
  ⟨by decide +kernel, acks_held start_connected rfl
    (.of_exec (resent.map Event.call) (Option.some_get _).symm
      ((Run.admits_map _ _ _).mpr (by decide +kernel)))⟩

/-- The second message is lost, and the third, with the change of another entity, is acked. -/
def lost : List Event :=
  [.tick [(1, [1]), (2, [1])] [], .arrive 0, .sendAck, .ackArrives 0,
    .mark 1, .tick [(1, [2]), (2, [1])] [],
    .mark 2, .tick [(1, [2]), (2, [2])] [], .arrive 2, .sendAck, .ackArrives 1]

def afterLost : System :=
  (Run.exec (step 7) connected (lost.map Event.call)).get (by decide +kernel)

theorem acks_held_lost : Run (step 7) (Marked 7) connected afterLost ∧ ¬afterLost.AcksHeld := by
  refine ⟨.of_exec (lost.map Event.call) (Option.some_get _).symm
    ((Run.admits_map _ _ _).mpr (by decide +kernel)), fun hheld => ?_⟩
  have hack : ∃ a ∈ afterLost.recorded, a.tick = 2 ∧ a.upTo = 2 := by decide +kernel
  obtain ⟨a, ha, htick, hupTo⟩ := hack
  have happlied := (hheld a ha).2 1
  rw [htick, hupTo] at happlied
  obtain ⟨p, hp, t, data, -, -, hmem, hrecent⟩ := happlied (by decide +kernel)
  have hnone : ∀ p ∈ afterLost.arrived.take 2, 1 ∈ (deserialized p.2).map Prod.fst →
      ¬Recent (value afterLost.ticks 1) p.1 2 := by
    decide +kernel
  exact hnone p hp (List.mem_map_of_mem hmem) hrecent

end System

end CampelloNet.Replication
