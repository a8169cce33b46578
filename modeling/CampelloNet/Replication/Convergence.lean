import CampelloNet.Replication.System

/-!
# Replication over a link that loses nothing

Every snapshot message reaches the client at once, but acks take any time. The client holds the bytes
of the server after each tick of the runs in which no entity whose bytes the client does not hold has
the bytes that the acked baseline has for it (`converges`): the baseline may be older than what the
client has applied since, and an entity that goes back to it is left out.
-/

namespace CampelloNet.Replication

open Lib NetworkReplicationManager

namespace System

/-- A message reaches the client in the tick that sends it. -/
def losslessStep (client : ClientId) (s : System) : Call → Option System
  | .tick env => (step client s (.tick env)).bind fun s' =>
    if (s'.ticks[s.ticks.length]?.bind Tick.message).isSome then
      step client s' (.arrive s.ticks.length)
    else some s'
  | .arrive _ => none
  | call => step client s call

/-- The bytes that the client holds for an entity. -/
def held (s : System) (e : NetworkId) : Option Bytes :=
  lastWrite e (s.arrived.flatMap fun p => deserialized p.2)

/-- The client holds the bytes that each live entity had at the last tick. -/
def Converged (s : System) : Prop :=
  ∀ e data, s.lastValue e = some data → s.held e = some data

/-- No entity whose bytes the client lacks has the bytes of the baseline, and the counts of the format
suffice. -/
structure KeepsUp (client : ClientId) (s : System) (env : TickEnv) : Prop where
  changed : ∀ e data, (s.tickAt client env).value e = some data → s.held e ≠ some data →
    ∀ baseline ∈ (ticking s.server).deltaBaseline env (s.state client), changed baseline (e, data)
  fits : Fits ((ticking s.server).scratchSnap env)

/-- The calls of the runs in which the client keeps up. -/
def Converging (client : ClientId) (s : System) : Call → Prop
  | .tick env => (env.connected client = true ∧ s.Marks client env) ∧ s.KeepsUp client env
  | _ => True

variable {client : ClientId} {s s' s₀ : System}

theorem connected_of_converging {s : System} {call : Call} (h : Converging client s call) :
    Connected client call := by
  cases call with
  | tick env => exact h.1.1
  | _ => trivial

/-- A lossless step is a tick with the arrival of its message, or a step that keeps both logs. -/
theorem losslessStep_cases {call : Call} (hstep : losslessStep client s call = some s') :
    (∃ env s₁, call = .tick env ∧ step client s (.tick env) = some s₁ ∧
      (step client s₁ (.arrive s.ticks.length) = some s' ∨
        s₁.ticks[s.ticks.length]?.bind Tick.message = none ∧ s' = s₁)) ∨
    step client s call = some s' ∧ s'.ticks = s.ticks ∧ s'.arrived = s.arrived := by
  cases call with
  | tick env =>
    left
    dsimp only [losslessStep] at hstep
    obtain ⟨s₁, hs₁, harrive⟩ := Option.bind_eq_some_iff.mp hstep
    refine ⟨env, s₁, rfl, hs₁, ?_⟩
    split_ifs at harrive with hsome
    · exact .inl harrive
    · exact .inr ⟨Option.not_isSome_iff_eq_none.mp hsome, (Option.some.inj harrive).symm⟩
  | arrive n => cases hstep
  | markDirty | sendAck | ackArrives | otherConnects | otherDisconnects | otherAcks =>
    right
    dsimp only [losslessStep] at hstep
    refine ⟨hstep, ?_⟩
    cases step_effect hstep <;> exact ⟨rfl, rfl⟩

theorem losslessStep_linked {call : Call} (h : Linked client s) (hconn : Connected client call)
    (hstep : losslessStep client s call = some s') : Linked client s' := by
  rcases losslessStep_cases hstep with ⟨env, s₁, rfl, hs₁, harrive⟩ | ⟨hs', -⟩
  · have h₁ := step_linked h hconn hs₁
    rcases harrive with harrive | ⟨-, rfl⟩
    · exact step_linked h₁ (show Connected client (.arrive s.ticks.length) from trivial) harrive
    · exact h₁
  · exact step_linked h hconn hs'

theorem losslessStep_settings {call : Call} (hstep : losslessStep client s call = some s') :
    s'.server.hasInterestFilter = s.server.hasInterestFilter ∧
      s'.server.hasEntityMgr = s.server.hasEntityMgr := by
  rcases losslessStep_cases hstep with ⟨env, s₁, rfl, hs₁, harrive⟩ | ⟨hs', -⟩
  · obtain ⟨hfilter, hmanaged⟩ := step_settings hs₁
    rcases harrive with harrive | ⟨-, rfl⟩
    · obtain ⟨hfilter', hmanaged'⟩ := step_settings harrive
      exact ⟨hfilter'.trans hfilter, hmanaged'.trans hmanaged⟩
    · exact ⟨hfilter, hmanaged⟩
  · exact step_settings hs'

/-- After a tick the client holds what it was sent, and for the rest what it held. -/
theorem held_tick {env : TickEnv} (h : Linked client s) (hconn : env.connected client = true)
    (hfits : Fits ((ticking s.server).scratchSnap env))
    (hstep : losslessStep client s (.tick env) = some s') :
    s'.ticks = s.ticks ++ [s.tickAt client env] ∧
      ∀ e, s'.held e = (lastWrite e (s.sentAt client env)).or (s.held e) := by
  rcases losslessStep_cases hstep with ⟨env', s₁, heq, hs₁, harrive⟩ | ⟨hs', hticks, -⟩
  · cases heq
    have hcontents : (s.tickAt client env).contents = s.sentAt client env :=
      contents_tickAt (fits_sentAt hfits)
    rw [step_tick h hconn] at hs₁
    cases hs₁
    have hget : (s.ticks ++ [s.tickAt client env])[s.ticks.length]? = some (s.tickAt client env) :=
      List.getElem?_concat_length
    rcases harrive with harrive | ⟨hnone, rfl⟩
    · obtain ⟨message, hmessage, rfl⟩ := Option.map_eq_some_iff.mp harrive
      refine ⟨rfl, fun e => ?_⟩
      obtain ⟨-, hcalls⟩ := onReceiveDelta_atOnce h.atOnce (message.drop 3)
      dsimp only at hmessage
      rw [hget] at hmessage
      have hsent : deltaEntities (message.drop 3) = s.sentAt client env := by
        rw [← hcontents, Tick.contents, show (s.tickAt client env).message = some message from hmessage]
      unfold held
      dsimp only
      rw [List.flatMap_append, lastWrite_append, List.flatMap_singleton, hcalls, hsent]
    · refine ⟨rfl, fun e => ?_⟩
      dsimp only at hnone
      rw [hget] at hnone
      have hsent : s.sentAt client env = [] := by
        rw [← hcontents, Tick.contents, show (s.tickAt client env).message = none from hnone]
      rw [hsent]
      rfl
  · rw [step_tick h hconn] at hs'
    cases hs'
    exact absurd (congrArg List.length hticks) (by simp)

/-- A tick that keeps up leaves the client with the server's bytes. -/
theorem converged_tick {env : TickEnv} (h : Linked client s)
    (hfilter : s.server.hasInterestFilter = false) (hmanaged : s.server.hasEntityMgr = true)
    (hconn : env.connected client = true) (hmarks : s.Marks client env)
    (hkeeps : s.KeepsUp client env) (hconverged : s.Converged)
    (hstep : losslessStep client s (.tick env) = some s') : s'.Converged := by
  obtain ⟨hticks, hheld⟩ := held_tick h hconn hkeeps.fits hstep
  intro e data hvalue
  have hlast : (s.tickAt client env).value e = some data := by
    unfold lastValue at hvalue
    rwa [hticks, List.length_append, List.length_singleton, Nat.add_sub_cancel, value_last] at hvalue
  have hserialize : env.serialize e = some data := by
    unfold Tick.value tickAt at hlast
    dsimp only at hlast
    split_ifs at hlast
    exact hlast
  rw [hheld]
  rcases hsent : lastWrite e (s.sentAt client env) with _ | data'
  · rw [Option.none_or]
    by_contra hlacks
    have hchanged : s.lastValue e ≠ some data := fun hsame => hlacks (hconverged e data hsame)
    have hmem := mem_scratchSnap_of_changed h hconn hmarks (fun _ => .inl hmanaged) hlast hchanged
    exact lastWrite_eq_none_iff.mp hsent data
      ((mem_sentAt hfilter).mpr ⟨hmem, hkeeps.changed e data hlast hlacks⟩)
  · have hmem := ((mem_sentAt hfilter).mp (lastWrite_mem hsent)).1
    have hsame := (mem_scratchSnap.mp hmem).2
    rw [Option.some_or, ← hsame, hserialize]

/-- In every run that keeps up, the client holds the server's bytes after each tick. -/
theorem converges (hstart : Start client s₀) (hfilter : s₀.server.hasInterestFilter = false)
    (hmanaged : s₀.server.hasEntityMgr = true)
    (hrun : Run (losslessStep client) (Converging client) s₀ s) : s.Converged := by
  suffices h : (Linked client s ∧ s.server.hasInterestFilter = false ∧
      s.server.hasEntityMgr = true) ∧ s.Converged from h.2
  refine hrun.invariant (I := fun s => (Linked client s ∧ s.server.hasInterestFilter = false ∧
    s.server.hasEntityMgr = true) ∧ s.Converged) ⟨⟨hstart.linked, hfilter, hmanaged⟩, ?_⟩ ?_
  · intro e data hvalue
    unfold lastValue value at hvalue
    rw [hstart.ticks] at hvalue
    cases hvalue
  · rintro s call s' ⟨⟨hlinked, hfil, hmgr⟩, hconverged⟩ ho hstep
    obtain ⟨hfil', hmgr'⟩ := losslessStep_settings hstep
    refine ⟨⟨losslessStep_linked hlinked (connected_of_converging ho) hstep, hfil'.trans hfil,
      hmgr'.trans hmgr⟩, ?_⟩
    cases call with
    | tick env =>
      obtain ⟨⟨hconn, hmarks⟩, hkeeps⟩ := ho
      exact converged_tick hlinked hfil hmgr hconn hmarks hkeeps hconverged hstep
    | markDirty | arrive | sendAck | ackArrives | otherConnects | otherDisconnects | otherAcks =>
      rcases losslessStep_cases hstep with ⟨_, _, heq, -⟩ | ⟨-, hticks, harrived⟩
      · cases heq
      · intro e data hvalue
        unfold held
        rw [harrived]
        refine hconverged e data ?_
        rwa [lastValue, hticks] at hvalue

/-! ### Two executions -/

instance : ∀ event : Event, Decidable (Converging client s event.call)
  | .tick entities interesting => decidable_of_iff ((true = true ∧
      s.Marks client (listed entities interesting)) ∧
      (∀ e data, (s.tickAt client (listed entities interesting)).value e = some data →
        s.held e ≠ some data → ∀ baseline ∈ (ticking s.server).deltaBaseline
          (listed entities interesting) (s.state client), changed baseline (e, data)) ∧
      Fits ((ticking s.server).scratchSnap (listed entities interesting)))
      ⟨fun h => ⟨h.1, h.2.1, h.2.2⟩, fun h => ⟨h.1, h.2.changed, h.2.fits⟩⟩
  | .mark _ | .arrive _ | .sendAck | .ackArrives _ => isTrue trivial

/-- The entity takes the given bytes one after the other, while the first snapshot has been acked. -/
def taking (values : List Bytes) : List Event :=
  [.tick [(1, [1])] [], .sendAck, .ackArrives 0] ++
    values.flatMap fun data => [.mark 1, .tick [(1, data)] []]

/-- It changes twice. -/
def afterChanges : System :=
  (Run.exec (losslessStep 7) connected ((taking [[2], [3]]).map Event.call)).get (by decide +kernel)

theorem converges_changes : afterChanges.ticks.length = 3 ∧ afterChanges.Converged :=
  ⟨by decide +kernel, converges start_connected rfl rfl
    (.of_exec ((taking [[2], [3]]).map Event.call) (Option.some_get _).symm
      ((Run.admits_map _ _ _).mpr (by decide +kernel)))⟩

/-- It changes and changes back. -/
def afterReturn : System :=
  (Run.exec (losslessStep 7) connected ((taking [[2], [1]]).map Event.call)).get (by decide +kernel)

theorem converges_return :
    Run (losslessStep 7) (Marked 7) connected afterReturn ∧ ¬afterReturn.Converged := by
  refine ⟨.of_exec ((taking [[2], [1]]).map Event.call) (Option.some_get _).symm
    ((Run.admits_map _ _ _).mpr (by decide +kernel)), fun hconverged => ?_⟩
  exact absurd (hconverged 1 [1] (by decide +kernel)) (by decide +kernel)

end System

end CampelloNet.Replication
