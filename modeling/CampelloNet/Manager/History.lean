import CampelloNet.Manager.Packets

/-!
# The packets of a run

Every packet that a run handles, in order, with the state in which it was handled.
-/

namespace CampelloNet.NetworkManager

open Lib Transport

variable {σ : Type}

/-- A packet that the receive loop handled. -/
structure Handled (σ : Type) where
  /-- the manager with the packet still at the transport -/
  net : NetworkManager σ
  env : PacketEnv
  transport : ℕ
  buffer : Bytes
  sender : Address

section
variable (T : ℕ → ITransport σ)

/-- The manager with the first message taken from transport `t`. -/
def taken (t : ℕ) (net : NetworkManager σ) : NetworkManager σ :=
  { net with world := ((T t).popReceive BUF_SIZE net.world).1 }

namespace Handled

/-- The manager when the packet has been taken from the transport. -/
def before (p : Handled σ) : NetworkManager σ := p.net.taken T p.transport

def after (p : Handled σ) : NetworkManager σ :=
  (p.before T).handlePacket T p.env p.transport p.buffer p.sender

end Handled

def handledFor (t : ℕ) : List PacketEnv → NetworkManager σ → List (Handled σ)
  | [], _ => []
  | env :: envs, net =>
    match ((T t).popReceive BUF_SIZE net.world).2 with
    | none => []
    | some (buffer, sender) =>
      let p : Handled σ := ⟨net, env, t, buffer, sender⟩
      p :: handledFor t envs (p.after T)

def handledOf : List ℕ → List PacketEnv → NetworkManager σ → List (Handled σ)
  | [], _, _ => []
  | t :: ts, envs, net =>
    net.handledFor T t envs ++
      ((net.pollTransportReceivesFor T t envs).map fun out => handledOf ts out.2 out.1).getD []

/-- The packets that a call handles. -/
def handled (net : NetworkManager σ) : Call σ → List (Handled σ)
  | .poll env =>
    if net.transport.isNone ∧ net.mode ≠ .host ∧ net.additionalTransports = [] then []
    else (net.pollTransports T).handledOf T net.transports env.packets
  | _ => []

/-- The packets that a run handles. -/
def history : NetworkManager σ → List (Call σ) → List (Handled σ)
  | _, [] => []
  | net, call :: run =>
    net.handled T call ++ ((net.step T call).map fun next => history next run).getD []

end

/-! ### Where the packets come from -/

section
variable {T : ℕ → ITransport σ}

/-- The receive loop stops at the first failing `pop_receive`. -/
theorem pollTransportReceivesFor_of_none {net : NetworkManager σ} {t : ℕ} {envs : List PacketEnv}
    (h : ((T t).popReceive BUF_SIZE net.world).2 = none) :
    net.pollTransportReceivesFor T t envs = some (net.taken T t, envs) := by
  unfold pollTransportReceivesFor taken
  rcases hpop : (T t).popReceive BUF_SIZE net.world with ⟨world, output⟩
  rw [hpop] at h
  obtain rfl := h
  rfl

theorem handledFor_popped {t : ℕ} {envs : List PacketEnv} {net : NetworkManager σ} {p : Handled σ}
    (hp : p ∈ net.handledFor T t envs) :
    ((T p.transport).popReceive BUF_SIZE p.net.world).2 = some (p.buffer, p.sender) := by
  induction envs generalizing net with
  | nil => cases hp
  | cons env envs ih =>
    unfold handledFor at hp
    split at hp
    · cases hp
    · rename_i buffer sender hpop
      rcases List.mem_cons.mp hp with rfl | hp
      · exact hpop
      · exact ih hp

theorem handledOf_popped {ts : List ℕ} {envs : List PacketEnv} {net : NetworkManager σ}
    {p : Handled σ} (hp : p ∈ net.handledOf T ts envs) :
    ((T p.transport).popReceive BUF_SIZE p.net.world).2 = some (p.buffer, p.sender) := by
  induction ts generalizing envs net with
  | nil => cases hp
  | cons t ts ih =>
    unfold handledOf at hp
    rcases List.mem_append.mp hp with hp | hp
    · exact handledFor_popped hp
    · rcases hout : net.pollTransportReceivesFor T t envs with _ | out
      · rw [hout] at hp
        cases hp
      · rw [hout] at hp
        exact ih hp

theorem handled_popped {call : Call σ} {net : NetworkManager σ} {p : Handled σ}
    (hp : p ∈ net.handled T call) :
    ((T p.transport).popReceive BUF_SIZE p.net.world).2 = some (p.buffer, p.sender) := by
  cases call with
  | poll env =>
    unfold handled at hp
    split_ifs at hp
    · cases hp
    · exact handledOf_popped hp
  | _ => cases hp

/-- A handled packet is what the transport returned. -/
theorem history_popped {run : List (Call σ)} {net : NetworkManager σ} {p : Handled σ}
    (hp : p ∈ net.history T run) :
    ((T p.transport).popReceive BUF_SIZE p.net.world).2 = some (p.buffer, p.sender) := by
  induction run generalizing net with
  | nil => cases hp
  | cons call run ih =>
    unfold history at hp
    rcases List.mem_append.mp hp with hp | hp
    · exact handled_popped hp
    · rcases hnext : net.step T call with _ | next
      · rw [hnext] at hp
        cases hp
      · rw [hnext] at hp
        exact ih hp

/-! ### Invariants that look back -/

section
variable {J : List (Handled σ) → NetworkManager σ → Prop}
  (htaken : ∀ past net t, J past net → J past (net.taken T t))

include htaken

theorem handledFor_past (past : List (Handled σ)) {t : ℕ} {envs : List PacketEnv}
    {net : NetworkManager σ}
    (hpacket : ∀ before p after, net.handledFor T t envs = before ++ p :: after →
      J (past ++ before) p.net → J (past ++ before ++ [p]) (p.after T)) (hJ : J past net) :
    (∀ p ∈ net.handledFor T t envs, ∃ before, J before p.net) ∧
      ∀ out ∈ net.pollTransportReceivesFor T t envs,
        J (past ++ net.handledFor T t envs) out.1 := by
  induction envs generalizing net past with
  | nil =>
    refine ⟨fun p hp => absurd hp List.not_mem_nil, fun out hout => ?_⟩
    unfold pollTransportReceivesFor at hout
    have hleft := htaken past net t hJ
    unfold taken at hleft
    split at hout
    · rename_i world hpop
      rw [hpop] at hleft
      obtain rfl := Option.some.inj hout
      rw [handledFor, List.append_nil]
      exact hleft
    · cases hout
  | cons env envs ih =>
    unfold handledFor at hpacket ⊢
    unfold pollTransportReceivesFor
    have hleft := htaken past net t hJ
    unfold taken at hleft
    rcases hpop : (T t).popReceive BUF_SIZE net.world with ⟨world, _ | ⟨buffer, sender⟩⟩
    · refine ⟨fun p hp => absurd hp List.not_mem_nil, fun out hout => ?_⟩
      rw [hpop] at hleft
      obtain rfl := Option.some.inj hout
      rw [List.append_nil]
      exact hleft
    · rw [hpop] at hpacket
      dsimp only at hpacket ⊢
      generalize hp0 : (⟨net, env, t, buffer, sender⟩ : Handled σ) = p₀ at hpacket ⊢
      have hnet : p₀.net = net := by rw [← hp0]
      have hafter : p₀.after T = { net with world := world }.handlePacket T env t buffer sender := by
        rw [← hp0]
        unfold Handled.after Handled.before taken
        dsimp only
        rw [hpop]
      have hfirst := hpacket [] p₀ _ rfl (by rwa [List.append_nil, hnet])
      rw [List.append_nil] at hfirst
      obtain ⟨hin, hout⟩ := ih (past ++ [p₀]) (fun before p after heq hp => by
        rw [← List.append_cons] at hp ⊢
        exact hpacket (p₀ :: before) p after (by rw [heq, List.cons_append]) hp) hfirst
      refine ⟨fun p hp => ?_, fun out h => ?_⟩
      · rcases List.mem_cons.mp hp with rfl | hp
        · exact ⟨past, by rwa [hnet]⟩
        · exact hin p hp
      · rw [List.append_cons]
        apply hout
        rw [hafter]
        exact h

theorem handledOf_past (past : List (Handled σ)) {ts : List ℕ} {envs : List PacketEnv}
    {net : NetworkManager σ}
    (hpacket : ∀ before p after, net.handledOf T ts envs = before ++ p :: after →
      J (past ++ before) p.net → J (past ++ before ++ [p]) (p.after T)) (hJ : J past net) :
    (∀ p ∈ net.handledOf T ts envs, ∃ before, J before p.net) ∧
      ∀ out ∈ pollTransportReceives T ts envs net, J (past ++ net.handledOf T ts envs) out.1 := by
  induction ts generalizing envs net past with
  | nil =>
    refine ⟨fun p hp => absurd hp List.not_mem_nil, fun out hout => ?_⟩
    obtain rfl := Option.some.inj hout
    rw [handledOf, List.append_nil]
    exact hJ
  | cons t ts ih =>
    unfold handledOf at hpacket ⊢
    unfold pollTransportReceives
    obtain ⟨hin, hmid⟩ := handledFor_past htaken past (fun before p after heq hp =>
      hpacket before p _ (by rw [heq, List.append_assoc, List.cons_append]) hp) hJ
    rcases hout : net.pollTransportReceivesFor T t envs with _ | mid
    · refine ⟨fun p hp => ?_, fun out h => by cases h⟩
      rw [Option.map_none, Option.getD_none, List.append_nil] at hp
      exact hin p hp
    · rw [hout] at hpacket
      obtain ⟨hin', hout'⟩ := ih _ (fun before p after heq hp => by
        rw [List.append_assoc past] at hp ⊢
        exact hpacket _ p after (by
          rw [Option.map_some, Option.getD_some, heq, List.append_assoc]) hp) (hmid mid hout)
      refine ⟨fun p hp => ?_, fun out h => ?_⟩
      · rcases List.mem_append.mp hp with hp | hp
        · exact hin p hp
        · exact hin' p hp
      · rw [Option.map_some, Option.getD_some, ← List.append_assoc]
        exact hout' out h

/-- The rule for an invariant that speaks of the packets handled so far. -/
theorem history_past (past : List (Handled σ)) {ok : NetworkManager σ → Call σ → Prop}
    (hother : ∀ past net call net', J past net → ok net call → (∀ env, call ≠ .poll env) →
      net.step T call = some net' → J past net')
    (hpoll : ∀ past net, J past net → J past (net.pollTransports T))
    (hfinish : ∀ past net env, J past net → J past (net.finishPoll T env))
    {run : List (Call σ)} {net net' : NetworkManager σ}
    (h : Run.exec (step T) net run = some net') (hok : Run.Admits (step T) ok net run)
    (hpacket : ∀ before p after, net.history T run = before ++ p :: after →
      J (past ++ before) p.net → J (past ++ before ++ [p]) (p.after T)) (hJ : J past net) :
    (∀ p ∈ net.history T run, ∃ before, J before p.net) ∧ J (past ++ net.history T run) net' := by
  induction run generalizing net past with
  | nil =>
    cases h
    refine ⟨fun p hp => absurd hp List.not_mem_nil, ?_⟩
    rw [history, List.append_nil]
    exact hJ
  | cons call run ih =>
    obtain ⟨mid, hmid, h⟩ := Option.bind_eq_some_iff.mp h
    unfold history at hpacket ⊢
    rw [hmid, Option.map_some, Option.getD_some] at hpacket ⊢
    have hhead : (∀ p ∈ net.handled T call, ∃ before, J before p.net) ∧
        J (past ++ net.handled T call) mid := by
      by_cases hcall : ∃ env, call = .poll env
      · obtain ⟨env, rfl⟩ := hcall
        have hhere : ∀ before p after, net.handled T (.poll env) = before ++ p :: after →
            J (past ++ before) p.net → J (past ++ before ++ [p]) (p.after T) :=
          fun before p after heq => hpacket before p _ (by
            rw [heq, List.append_assoc, List.cons_append])
        unfold handled at hhere ⊢
        change net.poll T env = some mid at hmid
        unfold poll at hmid
        split_ifs at hmid hhere ⊢
        · cases hmid
          rw [List.append_nil]
          exact ⟨fun p hp => absurd hp List.not_mem_nil, hJ⟩
        · obtain ⟨out, hout, rfl⟩ := Option.map_eq_some_iff.mp hmid
          obtain ⟨hin, hout'⟩ := handledOf_past htaken past hhere (hpoll past net hJ)
          exact ⟨hin, hfinish _ _ _ (hout' out hout)⟩
      · have hne : ∀ env, call ≠ .poll env := fun env he => hcall ⟨env, he⟩
        have hnil : net.handled T call = [] := by
          cases call with
          | poll env => exact absurd rfl (hne env)
          | _ => rfl
        rw [hnil, List.append_nil]
        exact ⟨fun p hp => absurd hp List.not_mem_nil, hother past net call mid hJ hok.1 hne hmid⟩
    obtain ⟨hin, hend⟩ := ih _ h (hok.2 mid hmid) (fun before p after heq hp => by
      rw [List.append_assoc past] at hp ⊢
      exact hpacket _ p after (by rw [heq, List.append_assoc]) hp) hhead.2
    refine ⟨fun p hp => ?_, ?_⟩
    · rcases List.mem_append.mp hp with hp | hp
      · exact hhead.1 p hp
      · exact hin p hp
    · rw [← List.append_assoc]
      exact hend

end

/-! ### Invariants of polls and runs -/

section
variable {I : NetworkManager σ → Prop} (htaken : ∀ net t, I net → I (net.taken T t))

include htaken

theorem handledOf_invariant {ts : List ℕ} {envs : List PacketEnv} {net : NetworkManager σ}
    (hpacket : ∀ p ∈ net.handledOf T ts envs, I p.net → I (p.after T)) (hI : I net) :
    (∀ p ∈ net.handledOf T ts envs, I p.net) ∧
      ∀ out ∈ pollTransportReceives T ts envs net, I out.1 := by
  obtain ⟨hin, hout⟩ := handledOf_past (J := fun _ => I) (fun _ => htaken) []
    (fun before p after heq => hpacket p (by rw [heq]; simp)) hI
  refine ⟨fun p hp => ?_, hout⟩
  obtain ⟨-, hp⟩ := hin p hp
  exact hp

/-- An invariant that every packet of a run and every other call keeps holds at the end of the run and
whenever a packet is handled. -/
theorem history_invariant {ok : NetworkManager σ → Call σ → Prop}
    (hother : ∀ net call net', I net → ok net call → (∀ env, call ≠ .poll env) →
      net.step T call = some net' → I net')
    (hpoll : ∀ net, I net → I (net.pollTransports T))
    (hfinish : ∀ net env, I net → I (net.finishPoll T env))
    {run : List (Call σ)} {net net' : NetworkManager σ} (h : Run.exec (step T) net run = some net')
    (hok : Run.Admits (step T) ok net run)
    (hpacket : ∀ p ∈ net.history T run, I p.net → I (p.after T)) (hI : I net) :
    (∀ p ∈ net.history T run, I p.net) ∧ I net' := by
  obtain ⟨hin, hend⟩ := history_past (J := fun _ => I) (fun _ => htaken) []
    (fun _ => hother) (fun _ => hpoll) (fun _ => hfinish) h hok
    (fun before p after heq => hpacket p (by rw [heq]; simp)) hI
  refine ⟨fun p hp => ?_, hend⟩
  obtain ⟨-, hp⟩ := hin p hp
  exact hp

end

/-- What only packets add to is at the end of a run what its packets have added, in order. -/
theorem history_accumulates {β : Type*} {f : NetworkManager σ → List β} {g : Handled σ → List β}
    (hworld : ∀ net world, f { net with world := world } = f net)
    (hpacket : ∀ p : Handled σ, f (p.after T) = f p.net ++ g p)
    (hother : ∀ net call net', (∀ env, call ≠ .poll env) → net.step T call = some net' →
      f net' = f net)
    (hfinish : ∀ net env, f (net.finishPoll T env) = f net) {run : List (Call σ)}
    {net net' : NetworkManager σ} (h : Run.exec (step T) net run = some net') :
    f net' = f net ++ (net.history T run).flatMap g := by
  have hall : Run.Admits (step T) (fun _ _ => True) net run := .of_forall (fun _ _ _ => trivial) net
  refine (history_past (J := fun past n => f n = f net ++ past.flatMap g) ?_ [] ?_ ?_ ?_ h hall
    ?_ ?_).2
  · intro past n t hn
    exact (hworld n _).trans hn
  · intro past n call n' hn _ hpoll hstep
    exact (hother n call n' hpoll hstep).trans hn
  · intro past n hn
    exact (hworld n _).trans hn
  · intro past n env hn
    exact (hfinish n env).trans hn
  · intro before p after _ hp
    rw [hpacket, hp, List.flatMap_append, List.append_assoc]
    simp
  · simp

end

end CampelloNet.NetworkManager
