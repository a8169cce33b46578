import CampelloNet.Manager.Ownership
import CampelloNet.Manager.Provenance
import CampelloNet.Manager.RpcAuthority
import CampelloNet.Serialization.RoundTrip

/-!
# Where system messages come from

The messages of the attached managers share the network with those of the applications. What a manager
handles is housekeeping, or was passed on at the address it came from, by an attached manager or by the
application. So where no application passes a message that looks like one of the system's, a handler is
called for what was invoked at the other end, with the arguments of the invocation as far as the receive
buffer holds them, and reads the values that were written (`genuine_rpcs`). Nobody sends an
`EntitySetOwner`, so that owners are known only where they were set (`owners_local`).
-/

namespace CampelloNet

open Lib Transport Serialization
open List hiding lookup

open NetworkManager

namespace NetworkManager

variable {σ : Type} {net : NetworkManager σ}

theorem emitted_of_not_attached {call : Call σ} (h : ¬call.Attached) : net.emitted call = [] := by
  cases call with
  | spawn | destroy | sendFullState | serverTick | clientTick | invokeRpc => exact absurd trivial h
  | _ => rfl

theorem posts_user {T : ℕ → ITransport σ} {net' : NetworkManager σ} {call : Call σ}
    (huser : userParcels call ≠ []) (hstep : net.step T call = some net') :
    net' = net.postAll T (userParcels call) := by
  cases call with
  | sendToClient client data r => exact (Option.some.inj hstep).symm
  | broadcast data r exclude => exact (Option.some.inj hstep).symm
  | send data r => exact (Option.some.inj hstep).symm
  | _ => exact absurd rfl huser

theorem ownerOf_step {T : ℕ → ITransport σ} {net' : NetworkManager σ} {call : Call σ}
    (hstep : net.step T call = some net') (hpackets : ∀ p ∈ net.handled T call, isSystem p.buffer →
      p.buffer.getD 2 0 ≠ SysType.entitySetOwner) (entity : NetworkId) :
    net'.ownerOf entity = net.ownerOf entity ∨ net'.ownerOf entity = 0 ∨
      call = .setOwner entity (net'.ownerOf entity) := by
  by_cases hpoll : ∃ env, call = .poll env
  · obtain ⟨env, rfl⟩ := hpoll
    refine Or.imp_right .inl ?_
    have hstep : net.poll T env = some net' := hstep
    unfold handled at hpackets
    unfold poll at hstep
    split_ifs at hstep hpackets
    · cases hstep
      exact .inl rfl
    · obtain ⟨out, hout, rfl⟩ := Option.map_eq_some_iff.mp hstep
      have hfinish : (out.1.finishPoll T env).entityManager = out.1.entityManager :=
        congrArg Prod.fst (authority_finishPoll out.1 env)
      have hbefore : (net.pollTransports T).ownerOf entity = net.ownerOf entity ∨
          (net.pollTransports T).ownerOf entity = 0 := .inl rfl
      have hafter := (handledOf_invariant (T := T)
        (I := fun n => n.ownerOf entity = net.ownerOf entity ∨ n.ownerOf entity = 0)
        (fun n t hn => hn) (fun p hp hn => ?_) hbefore).2 out hout
      · unfold ownerOf at hafter ⊢
        rwa [hfinish]
      · have howner : ((p.before T).handlePacket T p.env p.transport p.buffer p.sender).ownerOf entity =
            (p.before T).ownerOf entity ∨ _ := ownerOf_handlePacket p.env p.transport p.buffer p.sender
        rcases howner with hsame | hnone | ⟨hdispatched, htype, -⟩
        · exact hn.imp hsame.trans hsame.trans
        · exact .inr hnone
        · exact absurd htype (hpackets p hp hdispatched.2.1)
  · have hem : net'.entityManager = net.entityManager.map fun em => ownCall em call :=
      congrArg Prod.fst (authority_step hstep (obeyed_of_not_poll fun env heq => hpoll ⟨env, heq⟩))
    unfold ownerOf
    rw [hem]
    rcases net.entityManager with _ | em
    · exact .inl rfl
    · rcases em.owner_ownCall call entity with h | h | ⟨client, hcall, h⟩
      · exact .inl h
      · exact .inr (.inl h)
      · refine .inr (.inr ?_)
        show call = .setOwner entity ((ownCall em call).owner entity)
        rw [h]
        exact hcall

end NetworkManager

/-- What is written to an empty stream is read from its bytes. -/
theorem Serialization.BitStream.reads_span {α : Type} {e : Encoding Bool} {write : BitStream → BitStream}
    {read : Reader α} {x : α} (h : medium.Codes e write read x) :
    (read (ofSpan (write {}).span)).1 = some x := by
  have hwritten := h.writes {} [] written_empty
  rw [nil_append] at hwritten
  have hbits : bytesBits (ofSpan (write {}).buffer).buffer = _ := hwritten.2
  have hlen := congrArg length hbits
  rw [length_bytesBits] at hlen
  obtain ⟨s, hread, -⟩ := h.reads (ofSpan (write {}).buffer) [] _
    ⟨rfl, (Nat.mul_comm _ _).trans hlen, hbits⟩
  rw [span_of_written hwritten, hread]

namespace Managers

variable {σ : Type}

/-- What a call passes on to be sent, by an attached manager or the application, with the addresses that
it may leave from. -/
def outbox (addr : ℕ → σ → Address) (s : Managers σ) (l : ℕ × Call σ) : List (Address × Bytes) :=
  ((s.manage l.1).emitted l.2 ++ userParcels l.2).flatMap fun p =>
    ((s.manage l.1).routes p.target).map fun t => (addr t s.world, p.data)

/-- Every datagram is housekeeping, the byte of `disconnect`, or in `P`. -/
def Traced (onWay : σ → Set (Address × Bytes)) (P : Set (Address × Bytes)) (w : σ) : Prop :=
  ∀ x ∈ onWay w, Housekeeping x.2 ∨ x.2 = [SysType.disconnectNotify] ∨ x ∈ P

section
variable {T : ℕ → ITransport σ} {addr : ℕ → σ → Address} {onWay : σ → Set (Address × Bytes)}
  (hT : Carries T addr onWay) {P : Set (Address × Bytes)} {s s' : Managers σ}

theorem traced_insert {w w' : σ} {a : Address} {data : Bytes}
    (hx : Housekeeping data ∨ data = [SysType.disconnectNotify] ∨ (a, data) ∈ P)
    (hsub : onWay w' ⊆ insert (a, data) (onWay w)) (h : Traced onWay P w) : Traced onWay P w' := by
  intro x hmem
  rcases hsub hmem with rfl | hmem
  · exact hx
  · exact h x hmem

include hT

theorem traced_sendsAt :
    SendsAt T (fun _ data => Housekeeping data ∨ data = [SysType.disconnectNotify]) (Traced onWay P) :=
  ⟨fun t data r w hdata => traced_insert (hdata.imp_right .inl) (hT.send t data r w),
    fun t address data r w hdata => traced_insert (hdata.imp_right .inl) (hT.sendTo t address data r w)⟩

theorem traced_inert : Inert T (Traced onWay P) where
  bind t address w h x hx := h x (hT.bind t address w hx)
  connect t address w h x hx := h x (hT.connect t address w hx)
  disconnect t w h x hx := h x (hT.disconnect t w hx)
  poll t w h x hx := h x (hT.poll t w hx)
  popReceive t n w h x hx := h x (hT.rest t n w hx)

theorem traced_parcels (net : NetworkManager σ) :
    SendsAt T (fun t data => (addr t net.world, data) ∈ P)
      fun w => Traced onWay P w ∧ ∀ u, addr u w = addr u net.world := by
  constructor
  · rintro t data r w hdata ⟨hw, haddr⟩
    refine ⟨traced_insert (.inr (.inr ?_)) (hT.send t data r w) hw, fun u => ?_⟩
    · rw [haddr]
      exact hdata
    · rw [hT.send_addr, haddr]
  · rintro t address data r w hdata ⟨hw, haddr⟩
    refine ⟨traced_insert (.inr (.inr ?_)) (hT.sendTo t address data r w) hw, fun u => ?_⟩
    · rw [haddr]
      exact hdata
    · rw [hT.sendTo_addr, haddr]

theorem traced_step {l : ℕ × Call σ} (hfaithful : s.Faithful onWay l) (hstep : s.step T l = some s')
    (h : Traced onWay P s.world) (hP : ∀ x ∈ s.outbox addr l, x ∈ P) :
    (∀ p ∈ (s.manage l.1).handled T l.2, Traced onWay P p.net.world) ∧ Traced onWay P s'.world := by
  obtain ⟨i, call⟩ := l
  obtain ⟨net', hnet, rfl⟩ := Option.map_eq_some_iff.mp hstep
  have hout : ∀ p ∈ (s.manage i).emitted call ++ userParcels call, ∀ t ∈ (s.manage i).routes p.target,
      (addr t (s.manage i).world, p.data) ∈ P := fun p hp t ht =>
    hP _ (mem_flatMap.mpr ⟨p, hp, mem_map_of_mem ht⟩)
  have hnone : (∀ env, call ≠ .poll env) → (s.manage i).handled T call = [] := by
    intro hpoll
    cases call with
    | poll env => exact absurd rfl (hpoll env)
    | _ => rfl
  by_cases hattached : call.Attached
  · have hposted := world_posts (traced_parcels hT (s.manage i)) (posts_step hattached hnet)
      (quiet_step _ hattached.plain hnet) (fun p hp => hout p (mem_append_left _ hp)) ⟨h, fun _ => rfl⟩
    rw [hnone (by rintro env rfl; exact hattached)]
    exact ⟨fun p hp => absurd hp not_mem_nil, hposted.1⟩
  by_cases huser : userParcels call = []
  · have hall := world_call (traced_sendsAt hT) (traced_inert hT)
      (fun _ _ hown => .inl hown.housekeeping) (fun _ _ => .inr rfl)
      (fun world hw x hx => h x (hfaithful world hw hx)) ?_
      (fun p _ _ => .inl (housekeeping_timeAnswer p.env _))
      (fun env _ _ _ => .inl (housekeeping_timeRequest env)) hnet h
    · exact ⟨fun p hp => (hall.1 p hp).1, hall.2⟩
    · rw [emitted_of_not_attached hattached, huser]
      exact fun p hp => absurd hp not_mem_nil
  · have hposted := world_postAll (traced_parcels hT (s.manage i))
      (fun p (hp : p ∈ userParcels call) => hout p (mem_append_right _ hp)) ⟨h, fun _ => rfl⟩
    rw [hnone (by rintro env rfl; exact huser rfl), posts_user huser hnet]
    exact ⟨fun p hp => absurd hp not_mem_nil, hposted.1⟩

/-! ### Runs -/

def emissions (T : ℕ → ITransport σ) (addr : ℕ → σ → Address) (s : Managers σ)
    (run : List (ℕ × Call σ)) : List (Address × Bytes) :=
  Run.gather (step T) (outbox addr) s run

theorem traced_run {run : List (ℕ × Call σ)} (hfaithful : Run.Admits (step T) (Faithful onWay) s run)
    (h : Run.exec (step T) s run = some s') (hP : ∀ x ∈ s.emissions T addr run, x ∈ P)
    (hs : Traced onWay P s.world) : Traced onWay P s'.world := by
  induction run generalizing s with
  | nil =>
    cases h
    exact hs
  | cons l run ih =>
    obtain ⟨mid, hmid, h⟩ := Option.bind_eq_some_iff.mp h
    unfold emissions at hP
    rw [Run.gather_cons hmid] at hP
    have hnext := (traced_step hT hfaithful.1 hmid hs fun x hx => hP x (mem_append_left _ hx)).2
    exact ih (hfaithful.2 mid hmid) h (fun x hx => hP x (mem_append_right _ hx)) hnext

/-- A packet that a manager handles is what the receive buffer holds of housekeeping, the byte of
`disconnect`, or something that was passed on before at the address that it is from. -/
theorem handled_traced {run : List (ℕ × Call σ)} {l : ℕ × Call σ} {next : Managers σ}
    (hway : onWay s.world = ∅) (hfaithful : Run.Admits (step T) (Faithful onWay) s run)
    (h : Run.exec (step T) s run = some s') (hl : s'.Faithful onWay l) (hnext : s'.step T l = some next)
    {p : Handled σ} (hp : p ∈ (s'.manage l.1).handled T l.2) :
    ∃ msg, p.buffer = msg.take BUF_SIZE ∧ (Housekeeping msg ∨ msg = [SysType.disconnectNotify] ∨
      (p.sender, msg) ∈ s.emissions T addr run) := by
  have hbefore : Traced onWay {x | x ∈ s.emissions T addr run} s'.world := by
    refine traced_run hT hfaithful h (fun x hx => hx) fun x hx => ?_
    rw [hway] at hx
    cases hx
  have hnone : s'.outbox addr l = [] := by
    obtain ⟨i, call⟩ := l
    cases call with
    | poll env => rfl
    | _ => cases hp
  obtain ⟨hpackets, -⟩ := traced_step hT hl hnext hbefore fun x hx => by
    rw [hnone] at hx
    cases hx
  obtain ⟨msg, hmsg, hbuffer⟩ := hT.received (handled_popped hp)
  exact ⟨msg, hbuffer, hpackets p hp _ hmsg⟩

/-! ### Messages of the attached managers -/

/-- No application passes a message that looks like one of the system's. -/
def Plain (_ : Managers σ) (l : ℕ × Call σ) : Prop := ∀ p ∈ userParcels l.2, ¬isSystem p.data

/-- A call makes an attached manager send the message, which may leave from `a`. -/
def Emits (addr : ℕ → σ → Address) (a : Address) (msg : Bytes) (s : Managers σ) (l : ℕ × Call σ) : Prop :=
  ∃ p ∈ (s.manage l.1).emitted l.2, p.data = msg ∧ ∃ t ∈ (s.manage l.1).routes p.target, addr t s.world = a

omit hT in
theorem isSystem_of_take {msg : Bytes} {n : ℕ} (h : isSystem (msg.take n)) : isSystem msg := by
  unfold isSystem at *
  simp only [Bool.and_eq_true, decide_eq_true_eq, beq_iff_eq, length_take, take_take] at *
  obtain ⟨hlen, hmagic⟩ := h
  exact ⟨by omega, by rwa [min_eq_left (by omega)] at hmagic⟩

theorem handled_signal {run : List (ℕ × Call σ)} {l : ℕ × Call σ} {next : Managers σ}
    (hway : onWay s.world = ∅) (hfaithful : Run.Admits (step T) (Faithful onWay) s run)
    (hplain : Run.Admits (step T) Plain s run) (h : Run.exec (step T) s run = some s')
    (hl : s'.Faithful onWay l) (hnext : s'.step T l = some next) {p : Handled σ}
    (hp : p ∈ (s'.manage l.1).handled T l.2) (hsystem : isSystem p.buffer)
    (htype : SysType.timeSyncResponse < p.buffer.getD 2 0) :
    ∃ pre m post u payload, run = pre ++ m :: post ∧ Run.exec (step T) s pre = some u ∧
      m.2.signal = some (p.buffer.getD 2 0) ∧
      u.Emits addr p.sender (sysPacket (p.buffer.getD 2 0) payload) m ∧
      p.buffer = (sysPacket (p.buffer.getD 2 0) payload).take BUF_SIZE := by
  obtain ⟨msg, hbuffer, hmsg⟩ := handled_traced hT hway hfaithful h hl hnext hp
  have hsame : p.buffer.getD 2 0 = msg.getD 2 0 := by
    rw [hbuffer, getD_eq_getElem?_getD, getD_eq_getElem?_getD, getElem?_take_of_lt (by decide)]
  rw [hsame] at htype ⊢
  rw [hbuffer] at hsystem ⊢
  rcases hmsg with ⟨type, hle, payload, rfl⟩ | rfl | hmem
  · exact absurd hle (UInt8.not_le.mpr htype)
  · cases hsystem
  · obtain ⟨pre, m, post, u, hrun, hu, hout⟩ := Run.mem_gather.mp hmem
    obtain ⟨q, hq, hroute⟩ := mem_flatMap.mp hout
    obtain ⟨t, ht, heq⟩ := mem_map.mp hroute
    obtain ⟨haddr, rfl⟩ := Prod.mk.inj heq
    rcases mem_append.mp hq with hq | hq
    · obtain ⟨type, hcall, hsignal⟩ := emitted_signal hq
      rcases hsignal with hempty | ⟨payload, hdata⟩
      · rw [hempty] at hsystem
        cases hsystem
      · have heq' : q.data.getD 2 0 = type := by
          rw [hdata]
          rfl
        rw [heq', hdata]
        exact ⟨pre, m, post, u, payload, hrun, hu, hcall, ⟨q, hq, hdata, t, ht, haddr⟩, rfl⟩
    · rw [hrun] at hplain
      exact absurd (isSystem_of_take hsystem) (hplain.mid hu q hq)

/-! ### Calls of handlers -/

/-- A call invokes an RPC whose arguments are not too long, and the packet may leave from `a`. -/
def Invokes (addr : ℕ → σ → Address) (rpcId : UInt16) (args : Bytes) (a : Address) (s : Managers σ)
    (l : ℕ × Call σ) : Prop :=
  (∃ target, l.2 = .invokeRpc target rpcId args) ∧
    (∃ rpc ∈ (s.manager l.1).rpcManager, 0 < rpc.maxPayloadSize → args.length ≤ rpc.maxPayloadSize) ∧
    s.Emits addr a (sysPacket SysType.rpc (be16 rpcId ++ args)) l

/-- The handlers that manager `i` calls, with the addresses that the packets are from. -/
def invocations (T : ℕ → ITransport σ) (i : ℕ) (s : Managers σ) (run : List (ℕ × Call σ)) :
    List (AppCall × Address) :=
  Run.gather (step T) (fun s l =>
    if l.1 = i then ((s.manage i).handled T l.2).flatMap fun p => (p.invoked T).map fun c => (c, p.sender)
    else []) s run

omit hT in
theorem invokes_of_emits {l : ℕ × Call σ} {a : Address} {payload : Bytes}
    (hcall : l.2.signal = some SysType.rpc) (h : s.Emits addr a (sysPacket SysType.rpc payload) l) :
    ∃ rpcId args, s.Invokes addr rpcId args a l ∧ payload = be16 rpcId ++ args := by
  obtain ⟨i, call⟩ := l
  obtain ⟨target, rpcId, args, rfl⟩ : ∃ target rpcId args, call = .invokeRpc target rpcId args := by
    cases call with
    | invokeRpc target rpcId args => exact ⟨target, rpcId, args, rfl⟩
    | _ => cases hcall
  obtain ⟨p, hp, hdata, -⟩ := id h
  obtain ⟨rpc, hrpc, hpacket⟩ := emitted_invokeRpc hp
  have hshort : ¬(rpc.maxPayloadSize > 0 ∧ args.length > rpc.maxPayloadSize) := by
    intro hlong
    rw [hpacket, RpcManager.buildRpcPacket, if_pos hlong] at hdata
    cases hdata
  have hpayload : payload = be16 rpcId ++ args := by
    rw [hpacket, RpcManager.buildRpcPacket, if_neg hshort] at hdata
    have hbytes : [0xCA, 0xFE, 0x22] ++ (be16 rpcId ++ args) = [0xCA, 0xFE, 0x22] ++ payload := hdata
    exact (append_cancel_left hbytes).symm
  refine ⟨rpcId, args, ⟨⟨target, rfl⟩, ⟨rpc, hrpc, fun hpos => ?_⟩, hpayload ▸ h⟩, hpayload⟩
  exact not_lt.mp fun hlong => hshort ⟨hpos, hlong⟩

theorem invoked_invokes {run : List (ℕ × Call σ)} {l : ℕ × Call σ} {next : Managers σ}
    (hway : onWay s.world = ∅) (hfaithful : Run.Admits (step T) (Faithful onWay) s run)
    (hplain : Run.Admits (step T) Plain s run) (h : Run.exec (step T) s run = some s')
    (hl : s'.Faithful onWay l) (hnext : s'.step T l = some next) {p : Handled σ}
    (hp : p ∈ (s'.manage l.1).handled T l.2) {c : AppCall} (hc : c ∈ p.invoked T) :
    ∃ pre m post u rpcId params args, run = pre ++ m :: post ∧ Run.exec (step T) s pre = some u ∧
      u.Invokes addr rpcId args p.sender m ∧ c = .rpc rpcId params (args.take (BUF_SIZE - 5)) := by
  rcases invoked_cases T p with ⟨client, rpc, params, hinvokes, -, hcalls⟩ | ⟨-, hnone⟩
  · rw [hcalls] at hc
    obtain ⟨-, hsystem, htype⟩ := hinvokes.message
    obtain ⟨pre, m, post, u, payload, hrun, hu, hcall, hemits, hbuffer⟩ :=
      handled_signal hT hway hfaithful hplain h hl hnext hp hsystem (by rw [htype]; decide)
    rw [htype] at hcall hemits hbuffer
    obtain ⟨rpcId, args, hinvoked, rfl⟩ := invokes_of_emits hcall hemits
    refine ⟨pre, m, post, u, rpcId, params, args, hrun, hu, hinvoked, ?_⟩
    rw [mem_singleton.mp hc, hbuffer]
    show AppCall.rpc (readBe16 (be16 rpcId ++ args.take (BUF_SIZE - 5))) params _ = _
    rw [readBe16_be16]
    rfl
  · rw [hnone] at hc
    cases hc

/-! ### Owners -/

/-- No packet that a manager handles tells it of an owner. -/
theorem not_entitySetOwner {run : List (ℕ × Call σ)} {l : ℕ × Call σ} {next : Managers σ}
    (hway : onWay s.world = ∅) (hfaithful : Run.Admits (step T) (Faithful onWay) s run)
    (hplain : Run.Admits (step T) Plain s run) (h : Run.exec (step T) s run = some s')
    (hl : s'.Faithful onWay l) (hnext : s'.step T l = some next) {p : Handled σ}
    (hp : p ∈ (s'.manage l.1).handled T l.2) (hsystem : isSystem p.buffer) :
    p.buffer.getD 2 0 ≠ SysType.entitySetOwner := by
  intro htype
  obtain ⟨-, ⟨i, call⟩, -, -, -, -, -, hcall, -⟩ :=
    handled_signal hT hway hfaithful hplain h hl hnext hp hsystem (by rw [htype]; decide)
  rw [htype] at hcall
  cases call <;> simp [Call.signal, SysType.entitySetOwner, SysType.entitySpawn, SysType.entityDestroy,
    SysType.deltaState, SysType.snapshotAck, SysType.rpc] at hcall

end

theorem rpcCalls_step_of {T : ℕ → ITransport σ} {s s' : Managers σ} {l : ℕ × Call σ}
    (hstep : s.step T l = some s') (i : ℕ) : (s'.manager i).rpcCalls = (s.manager i).rpcCalls ++
      (if l.1 = i then ((s.manage i).handled T l.2).flatMap fun p =>
        (p.invoked T).map fun c => (c, p.sender) else []).map Prod.fst := by
  obtain ⟨net', hnet, rfl⟩ := Option.map_eq_some_iff.mp hstep
  by_cases hi : l.1 = i
  · subst hi
    have hrun : Run.exec (NetworkManager.step T) (s.manage l.1) [l.2] = some net' := by
      rw [Run.exec, hnet]
      rfl
    have hcalls := history_accumulates (f := rpcCalls) (fun _ _ => rfl) after_rpcCalls
      (fun net call net' hpoll hstep => rpcCalls_step hpoll hstep)
      (fun net env => rpcCalls_finishPoll env) hrun
    have hhistory : (s.manage l.1).history T [l.2] = (s.manage l.1).handled T l.2 := by
      unfold history
      rw [hnet]
      exact append_nil _
    rw [hhistory] at hcalls
    rw [if_pos rfl, map_flatMap]
    simp only [map_map, Function.comp_def, map_id']
    show (Function.update s.manager l.1 net' l.1).rpcCalls = _
    rw [Function.update_self]
    exact hcalls
  · rw [if_neg hi, map_nil, append_nil]
    show (Function.update s.manager l.1 net' i).rpcCalls = _
    rw [Function.update_of_ne (Ne.symm hi)]

/-- What the managers of a network call handlers for is what was invoked where the packet is from, as long
as no application passes a message that looks like one of the system's: the RPC is the same, the arguments
are those of the invocation as far as the receive buffer holds them, and if they are typed values that
fit, the handler reads these values. -/
theorem genuine_rpcs (T : ℕ → ITransport σ) {addr : ℕ → σ → Address}
    {onWay : σ → Set (Address × Bytes)} (hT : Carries T addr onWay) (s s' : Managers σ)
    (run : List (ℕ × Call σ)) (hway : onWay s.world = ∅) (h : Run.exec (step T) s run = some s')
    (hfaithful : Run.Admits (step T) (Faithful onWay) s run) (hplain : Run.Admits (step T) Plain s run) :
    ∀ i, (s'.manager i).rpcCalls = (s.manager i).rpcCalls ++ (s.invocations T i run).map Prod.fst ∧
      ∀ c a, (c, a) ∈ s.invocations T i run → ∃ pre m post u rpcId params args,
        run = pre ++ m :: post ∧ Run.exec (step T) s pre = some u ∧ u.Invokes addr rpcId args a m ∧
        c = .rpc rpcId params (args.take (BUF_SIZE - 5)) ∧
        ∀ native items, (∀ item ∈ items, Item.Valid item) → args = (writeAll native items {}).span →
          args.length ≤ BUF_SIZE - 5 →
          (readAll native (items.map Item.kind) (BitStream.ofSpan (args.take (BUF_SIZE - 5)))).1 =
            some (items.map Item.readBack) := by
  intro i
  constructor
  · unfold invocations
    rw [← Run.gather_map]
    exact Run.log_gather (fun s : Managers σ => (s.manager i).rpcCalls) (I := fun _ => True)
      (fun _ _ _ _ _ => trivial) (fun _ _ _ _ hstep => rpcCalls_step_of hstep i) trivial h
  · intro c a hc
    obtain ⟨pre, l, post, mid, rfl, hmid, hc⟩ := Run.mem_gather.mp hc
    split_ifs at hc with hi
    · subst hi
      obtain ⟨p, hp, hc⟩ := mem_flatMap.mp hc
      obtain ⟨c', hc', heq⟩ := mem_map.mp hc
      obtain ⟨rfl, rfl⟩ := Prod.mk.inj heq
      obtain ⟨next, hnext, -⟩ : ∃ next, mid.step T l = some next ∧
          Run.exec (step T) next post = some s' := by
        rw [Run.exec_append, hmid] at h
        exact Option.bind_eq_some_iff.mp h
      obtain ⟨pre', m, post', u, rpcId, params, args, hpre, hu, hinvokes, hcall⟩ :=
        invoked_invokes hT hway hfaithful.append.1 hplain.append.1 hmid (hfaithful.mid hmid) hnext hp hc'
      refine ⟨pre', m, post' ++ l :: post, u, rpcId, params, args, ?_, hu, hinvokes, hcall, ?_⟩
      · rw [hpre, append_assoc]
        rfl
      · rintro native items hvalid hargs hfits
        rw [take_of_length_le hfits, hargs]
        exact BitStream.reads_span (codes_all native hvalid)
    · cases hc

/-- A manager knows of no owner but those that its own application has set, as long as no application
passes a message that looks like one of the system's: to set an owner tells nobody else. -/
theorem owners_local (T : ℕ → ITransport σ) {addr : ℕ → σ → Address}
    {onWay : σ → Set (Address × Bytes)} (hT : Carries T addr onWay) (s s' : Managers σ)
    (run : List (ℕ × Call σ)) (hway : onWay s.world = ∅) (h : Run.exec (step T) s run = some s')
    (hfaithful : Run.Admits (step T) (Faithful onWay) s run) (hplain : Run.Admits (step T) Plain s run)
    (i : ℕ) (entity : NetworkId) (hzero : (s'.manager i).ownerOf entity ≠ 0) :
    (s'.manager i).ownerOf entity = (s.manager i).ownerOf entity ∨
      (i, .setOwner entity ((s'.manager i).ownerOf entity)) ∈ run := by
  induction run using reverseRecOn generalizing s' with
  | nil =>
    cases h
    exact .inl rfl
  | append_singleton run l ih =>
    rw [Run.exec_append] at h
    obtain ⟨mid, hmid, h⟩ := Option.bind_eq_some_iff.mp h
    obtain ⟨next, hnext, h⟩ := Option.bind_eq_some_iff.mp h
    obtain rfl : next = s' := Option.some.inj h
    have hbefore := ih mid hmid hfaithful.append.1 hplain.append.1
    by_cases hi : l.1 = i
    · have hpackets : ∀ p ∈ (mid.manage l.1).handled T l.2, isSystem p.buffer →
          p.buffer.getD 2 0 ≠ SysType.entitySetOwner := fun p hp hsystem =>
        not_entitySetOwner hT hway hfaithful.append.1 hplain.append.1 hmid (hfaithful.mid hmid) hnext hp
          hsystem
      obtain ⟨net', hnet, rfl⟩ := Option.map_eq_some_iff.mp hnext
      subst hi
      have hself : Function.update mid.manager l.1 net' l.1 = net' := Function.update_self ..
      dsimp only at hzero ⊢
      rw [hself] at hzero ⊢
      rcases ownerOf_step hnet hpackets entity with hsame | hnone | hcall
      · have hsame : net'.ownerOf entity = (mid.manager l.1).ownerOf entity := hsame
        rw [hsame] at hzero ⊢
        exact (hbefore hzero).imp_right fun hmem => mem_append_left _ hmem
      · exact absurd hnone hzero
      · refine .inr (mem_append_right _ (mem_singleton.mpr ?_))
        rw [← hcall]
    · obtain ⟨net', -, rfl⟩ := Option.map_eq_some_iff.mp hnext
      have hother : Function.update mid.manager l.1 net' i = mid.manager i :=
        Function.update_of_ne (Ne.symm hi) ..
      dsimp only at hzero ⊢
      rw [hother] at hzero ⊢
      exact (hbefore hzero).imp_right fun hmem => mem_append_left _ hmem

open LoopbackTransport

theorem onWay_start : onWay {} = ∅ := by
  refine Set.eq_empty_of_forall_notMem ?_
  rintro x ⟨id, hx⟩
  cases hx

def ownAccount : Call σ → Bool
  | .network _ | .sendToClient .. | .broadcast .. | .send .. => false
  | _ => true

theorem admits_calls {run : List (ℕ × Call LoopbackHub)} (h : ∀ l ∈ run, ownAccount l.2)
    (s : Managers LoopbackHub) :
    Run.Admits (step loopback) (Faithful onWay) s run ∧ Run.Admits (step loopback) Plain s run := by
  refine ⟨.of_forall (fun l hl s world hw => ?_) s, .of_forall (fun l hl s p hp => ?_) s⟩
  · have hown := h l hl
    rw [hw] at hown
    cases hown
  · have hown := h l hl
    cases hcall : l.2 with
    | sendToClient | broadcast | send =>
      rw [hcall] at hown
      cases hown
    | _ =>
      rw [hcall] at hp
      cases hp

def hit : List Item := [⟨.scalar .int32, 42⟩, ⟨.string, [98, 111, 119]⟩]

def report : List (ℕ × Call LoopbackHub) :=
  meeting ++ [(0, .setRpcManager (some { hasNet := true, handlers := [(7, .anyone)] })),
    (1, .setRpcManager (some { hasNet := true })),
    (1, .invokeRpc .server 7 (writeAll .little hit {}).span), (0, pollCall 1)]

theorem genuine_rpcs_report : ∃ s', Run.exec (step loopback) fresh report = some s' ∧
    fresh.invocations loopback 0 report =
      [(.rpc 7 { sender := 1 } (writeAll .little hit {}).span, LoopbackHub.clientAddr)] ∧
    ((s'.manager 0).rpcCalls =
        (fresh.manager 0).rpcCalls ++ (fresh.invocations loopback 0 report).map Prod.fst ∧
      ∀ c a, (c, a) ∈ fresh.invocations loopback 0 report → ∃ pre m post u rpcId params args,
        report = pre ++ m :: post ∧ Run.exec (step loopback) fresh pre = some u ∧
        u.Invokes localAddress rpcId args a m ∧ c = .rpc rpcId params (args.take (BUF_SIZE - 5)) ∧
        ∀ native items, (∀ item ∈ items, Item.Valid item) → args = (writeAll native items {}).span →
          args.length ≤ BUF_SIZE - 5 →
          (readAll native (items.map Item.kind) (BitStream.ofSpan (args.take (BUF_SIZE - 5)))).1 =
            some (items.map Item.readBack)) := by
  obtain ⟨s', h⟩ := Option.isSome_iff_exists.mp
    (show (Run.exec (step loopback) fresh report).isSome by decide +kernel)
  obtain ⟨hfaithful, hplain⟩ := admits_calls (show ∀ l ∈ report, ownAccount l.2 by decide) fresh
  exact ⟨s', h, by decide +kernel,
    genuine_rpcs loopback carries fresh s' report onWay_start h hfaithful hplain 0⟩

def tables : Managers LoopbackHub where
  world := {}
  manager _ := { world := {}, entityManager := some {} }

def gift : List (ℕ × Call LoopbackHub) :=
  meeting ++ [(0, .spawn 3 [7] 9 true), (1, pollCall 1), (0, .setOwner 1 1), (1, pollCall 0)]

theorem owners_local_gift : ∃ s', Run.exec (step loopback) tables gift = some s' ∧
    (s'.manager 0).ownerOf 1 = 1 ∧ (s'.manager 1).ownerOf 1 = 0 ∧
    ((s'.manager 1).entityManager.bind fun em => em.find 1).isSome ∧
    ((s'.manager 0).ownerOf 1 = (tables.manager 0).ownerOf 1 ∨
      (0, .setOwner 1 ((s'.manager 0).ownerOf 1)) ∈ gift) := by
  have hexec : (Run.exec (step loopback) tables gift).map (fun s' => ((s'.manager 0).ownerOf 1,
      (s'.manager 1).ownerOf 1, ((s'.manager 1).entityManager.bind fun em => em.find 1).isSome)) =
      some (1, 0, true) := by decide +kernel
  obtain ⟨s', h, hout⟩ := Option.map_eq_some_iff.mp hexec
  obtain ⟨hserver, hout⟩ := Prod.mk.inj hout
  obtain ⟨hclient, hknown⟩ := Prod.mk.inj hout
  obtain ⟨hfaithful, hplain⟩ := admits_calls (show ∀ l ∈ gift, ownAccount l.2 by decide) tables
  exact ⟨s', h, hserver, hclient, hknown, owners_local loopback carries tables s' gift onWay_start h
    hfaithful hplain 0 1 (by rw [hserver]; decide)⟩

end Managers

end CampelloNet
