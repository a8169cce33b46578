import CampelloNet.Manager.Entities
import CampelloNet.Replication.Rendering

/-!
# Where the state of an entity comes from

Snapshots travel among the other messages of the managers, and the receive buffer holds the beginning of a
long one. What it holds of a snapshot is read as a beginning of its entities (`deltaEntities_take`), so
that whatever bytes of an entity a manager passes to `deserialize_entity` were given for it by
`serialize_entity` in a server tick before, as far as a message can hold them (`genuine_states`).
-/

namespace CampelloNet

open Lib Transport Replication
open List hiding lookup

/-! ### A snapshot that is cut -/

section
variable {data : Bytes} {n : ℕ}

theorem readBe16_take (h : 2 ≤ n) : readBe16 (data.take n) = readBe16 data := by
  obtain ⟨m, rfl⟩ := Nat.exists_eq_add_of_le' h
  match data with
  | [] | [_] => rfl
  | _ :: _ :: _ => rfl

theorem readBe64_take (h : 8 ≤ n) : readBe64 (data.take n) = readBe64 data := by
  obtain ⟨m, rfl⟩ := Nat.exists_eq_add_of_le' h
  match data with
  | [] | [_] | [_, _] | [_, _, _] | [_, _, _, _] | [_, _, _, _, _] | [_, _, _, _, _, _]
  | [_, _, _, _, _, _, _] => rfl
  | _ :: _ :: _ :: _ :: _ :: _ :: _ :: _ :: _ => rfl

end

namespace NetworkReplicationManager

/-- What is read of the beginning of a packet is a beginning of what is read of all of it. -/
theorem parseEntities_take (count n : ℕ) (data : Bytes) :
    parseEntities count (data.take n) <+: parseEntities count data := by
  induction count generalizing n data with
  | zero => exact prefix_refl _
  | succ count ih =>
    by_cases hheader : (data.take n).length < 10
    · have hnone : parseEntities (count + 1) (data.take n) = [] := if_pos hheader
      rw [hnone]
      exact nil_prefix
    · have hlong : 10 ≤ n ∧ 10 ≤ data.length := by
        rw [length_take] at hheader
        omega
      have hid : readBe64 (data.take n) = readBe64 data := readBe64_take (by omega)
      have hlen : readBe16 ((data.take n).drop 8) = readBe16 (data.drop 8) := by
        rw [drop_take]
        exact readBe16_take (by omega)
      have hbody : (data.take n).drop 10 = (data.drop 10).take (n - 10) := drop_take ..
      unfold parseEntities
      dsimp only
      rw [if_neg hheader, if_neg (not_lt.mpr hlong.2), hid, hlen, hbody]
      by_cases hcut : ((data.drop 10).take (n - 10)).length < (readBe16 (data.drop 8)).toNat
      · rw [if_pos hcut]
        exact nil_prefix
      · have hfits : (readBe16 (data.drop 8)).toNat ≤ n - 10 ∧
            (readBe16 (data.drop 8)).toNat ≤ (data.drop 10).length := by
          rw [length_take] at hcut
          omega
        rw [if_neg hcut, if_neg (not_lt.mpr hfits.2), take_take, min_eq_left hfits.1, drop_take]
        exact (prefix_cons_inj _).mpr (ih _ _)

/-- What a message holds of its entities, if its beginning has the header. -/
theorem deltaEntities_take {n : ℕ} {data : Bytes} (h : 4 ≤ n) :
    deltaEntities (data.take n) <+: deltaEntities data := by
  have hcount : readBe16 ((data.take n).drop 2) = readBe16 (data.drop 2) := by
    rw [drop_take]
    exact readBe16_take (by omega)
  unfold deltaEntities
  rw [hcount, drop_take]
  exact parseEntities_take _ _ _

/-- What a message passes to the bridge is in it. -/
theorem mem_onReceiveDelta {rep : NetworkReplicationManager} {data : Bytes} {ent : EntitySnapshot}
    (h : .deserializeEntity ent.1 ent.2 ∈ (rep.onReceiveDelta data).2) : ent ∈ deltaEntities data := by
  unfold onReceiveDelta applyDelta at h
  split_ifs at h
  · cases h
  · obtain ⟨_, _, heq⟩ := mem_map.mp h
    cases heq
  · cases h
  · obtain ⟨ent', hent', heq⟩ := mem_map.mp h
    obtain ⟨hid, hdata⟩ := AppCall.deserializeEntity.inj heq
    rwa [← Prod.ext hid hdata]
  · cases h

/-- What is sent at a tick has been serialised at it. -/
theorem mem_buildAndSendSnapshot {env : TickEnv} {rep : NetworkReplicationManager}
    {msg : ClientId × Bytes} (h : msg ∈ (rep.buildAndSendSnapshot env).2) : ∃ id entities,
      msg.2 = snapshotMessage id entities ∧ ∀ ent ∈ entities, env.serialize ent.1 = some ent.2 := by
  unfold buildAndSendSnapshot at h
  split_ifs at h
  · cases h
  · obtain ⟨turn, hturn, rfl⟩ := mem_map.mp h
    obtain ⟨hturn, hsome⟩ := mem_filter.mp hturn
    obtain ⟨c, -, rfl⟩ := mem_map.mp hturn
    by_cases hconn : env.connected c.1 = true
    · rw [if_pos hconn]
      refine ⟨_, _, rfl, fun ent hent => ?_⟩
      have hsub : (rep.turnFor env c.1 c.2).2 <+ rep.scratchSnap env := turnFor_sublist env c.1 c.2 rep
      exact (mem_scratchSnap.mp (hsub.subset hent)).2
    · rw [if_neg hconn] at hsome
      cases hsome

theorem mem_serverTickLoop {envs : List TickEnv} {rep : NetworkReplicationManager}
    {out : NetworkReplicationManager × List (ClientId × Bytes)}
    (h : rep.serverTickLoop envs = some out) : ∀ msg ∈ out.2, ∃ env ∈ envs, ∃ id entities,
      msg.2 = snapshotMessage id entities ∧ ∀ ent ∈ entities, env.serialize ent.1 = some ent.2 := by
  induction envs generalizing rep out with
  | nil =>
    unfold serverTickLoop at h
    split_ifs at h
    cases h
    exact fun _ hmsg => absurd hmsg not_mem_nil
  | cons env envs ih =>
    unfold serverTickLoop at h
    split_ifs at h
    · obtain ⟨rest, hrest, rfl⟩ := Option.map_eq_some_iff.mp h
      intro msg hmsg
      rcases mem_append.mp hmsg with hmsg | hmsg
      · exact ⟨env, mem_cons_self, mem_buildAndSendSnapshot hmsg⟩
      · obtain ⟨env', henv', hsent⟩ := ih hrest msg hmsg
        exact ⟨env', mem_cons_of_mem env henv', hsent⟩
    · cases h
      exact fun _ hmsg => absurd hmsg not_mem_nil

end NetworkReplicationManager

open NetworkManager NetworkReplicationManager

namespace NetworkManager

variable {σ : Type} {T : ℕ → ITransport σ} {net : NetworkManager σ}

/-! ### Packets -/

/-- The game was given these bytes of an entity. -/
def Given (net : NetworkManager σ) (ent : EntitySnapshot) : Prop :=
  .deserializeEntity ent.1 ent.2 ∈ net.calls

/-- The packet is a snapshot with these bytes of an entity. -/
def Handled.TellsState (p : Handled σ) (ent : EntitySnapshot) : Prop :=
  isSystem p.buffer ∧ p.buffer.getD 2 0 = SysType.deltaState ∧ ent ∈ deltaEntities (p.buffer.drop 3)

section
variable {ent : EntitySnapshot}

theorem given_iff : net.Given ent ↔ .deserializeEntity ent.1 ent.2 ∈ net.authority.2 :=
  ⟨fun h => mem_filter.mpr ⟨h, rfl⟩, fun h => (mem_filter.mp h).1⟩

theorem given_of_authority {net' : NetworkManager σ} (h : net'.authority.2 = net.authority.2) :
    net'.Given ent ↔ net.Given ent := by
  rw [given_iff, given_iff, h]

theorem authority_tellEntities_calls {f : NetworkEntityManager → NetworkEntityManager × List AppCall}
    (hf : ∀ em, ∀ c ∈ (f em).2, ¬c.IsDeserialize) :
    (net.tellEntities f).authority.2 = net.authority.2 := by
  unfold tellEntities
  split
  · rfl
  · rw [authority_called _ (hf _)]
    rfl

theorem given_processSystemMessage (env : PacketEnv) (senderId : ClientId) (sender : Address) (t : ℕ)
    (type : UInt8) (data : Bytes)
    (h : (net.processSystemMessage T env senderId sender t type data).Given ent) :
    net.Given ent ∨ type = SysType.deltaState ∧ ent ∈ deltaEntities data := by
  by_cases hdelta : type = SysType.deltaState
  · subst hdelta
    have hgiven : (net.onDeltaState data).Given ent := h
    unfold onDeltaState at hgiven
    split at hgiven
    · exact .inl hgiven
    · rcases mem_append.mp hgiven with hmem | hmem
      · exact .inl hmem
      · exact .inr ⟨rfl, mem_onReceiveDelta hmem⟩
  · refine .inl ((given_of_authority ?_).mp h)
    apply processSystemMessage_cases (P := fun next => next.authority.2 = net.authority.2)
    case connectRequest =>
      exact fun _ => congrArg Prod.snd (authority_incidental (incidental_onConnectRequest net env sender t data))
    case connectAccept =>
      exact fun _ => congrArg Prod.snd (authority_incidental (incidental_onConnectAccept net data))
    case connectReject =>
      exact fun _ => congrArg Prod.snd (authority_incidental (incidental_onConnectReject net))
    case disconnectNotify =>
      exact fun _ => congrArg Prod.snd (authority_incidental (incidental_onDisconnectNotify net sender))
    case timeSyncRequest =>
      exact fun _ => congrArg Prod.snd (authority_incidental (incidental_onTimeSyncRequest net env sender t data))
    case timeSyncResponse =>
      exact fun _ => congrArg Prod.snd (authority_incidental (incidental_onTimeSyncResponse net env data))
    case entitySpawn =>
      exact fun _ => authority_tellEntities_calls fun em c hc =>
        AppCall.not_isDeserialize (em.onReceiveSpawn_calls hc) (by decide)
    case entityDestroy =>
      exact fun _ => authority_tellEntities_calls fun em c hc =>
        AppCall.not_isDeserialize (em.onReceiveDestroy_calls hc) (by decide)
    case entitySetOwner => exact fun _ => authority_tellEntities_calls fun em c hc => absurd hc not_mem_nil
    case entityFullState => exact fun _ => authority_tellEntities_calls fun em c hc => absurd hc not_mem_nil
    case deltaState => exact fun h => absurd h hdelta
    case snapshotAck =>
      exact fun _ => congrArg Prod.snd (authority_incidental (incidental_onSnapshotAck net senderId data))
    case rpc =>
      exact fun _ => congrArg Prod.snd (authority_incidental (incidental_onRpc net env senderId sender data))
    case unknown => rfl

theorem given_after (p : Handled σ) (h : (p.after T).Given ent) : p.net.Given ent ∨ p.TellsState ent := by
  have hpacket : ((p.before T).handlePacket T p.env p.transport p.buffer p.sender).Given ent := h
  unfold handlePacket at hpacket
  split_ifs at hpacket with hnil hlong hsystem
  · exact .inl hpacket
  · have hsame : ((p.before T).onOversized T p.sender).authority = (p.before T).authority :=
      authority_incidental (incidental_onOversized (p.before T) p.sender)
    exact .inl ((given_of_authority (congrArg Prod.snd hsame)).mp hpacket)
  · have hprocess : ∀ client, ((p.before T).processSystemMessage T p.env client p.sender p.transport
        (p.buffer.getD 2 0) (p.buffer.drop 3)).Given ent → p.net.Given ent ∨ p.TellsState ent :=
      fun client hgiven => (given_processSystemMessage _ _ _ _ _ _ hgiven).imp_right
        fun htells => ⟨hsystem, htells⟩
    unfold onSystem at hpacket
    dsimp only at hpacket
    by_cases hs : (p.before T).serving
    · rw [if_pos hs] at hpacket
      rcases hfind : (p.before T).findClientByAddress p.sender with _ | entry
      · rw [hfind] at hpacket
        dsimp only at hpacket
        split_ifs at hpacket
        · exact hprocess _ hpacket
        · exact .inl hpacket
      · rw [hfind] at hpacket
        exact hprocess _ hpacket
    · rw [if_neg hs] at hpacket
      exact hprocess _ hpacket
  · have hsame := congrArg Prod.snd (authority_onUser (p.before T) p.env p.buffer p.sender)
    exact .inl ((given_of_authority hsame).mp hpacket)

/-- A game is given nothing of an entity but what a packet tells. -/
theorem given_step {net' : NetworkManager σ} {call : Call σ} (hstep : net.step T call = some net')
    (h : net'.Given ent) : net.Given ent ∨ ∃ p ∈ net.handled T call, p.TellsState ent := by
  by_cases hpoll : ∃ env, call = .poll env
  · obtain ⟨env, rfl⟩ := hpoll
    let I (authority : Option NetworkEntityManager × List AppCall) : Prop :=
      .deserializeEntity ent.1 ent.2 ∈ authority.2 →
        net.Given ent ∨ ∃ p ∈ net.handled T (.poll env), p.TellsState ent
    have hall : I net'.authority := by
      refine authority_handled (fun p hp hI hafter => ?_) hstep fun h => .inl (given_iff.mpr h)
      rcases given_after p (given_iff.mpr hafter) with hgiven | htells
      · exact hI (given_iff.mp hgiven)
      · exact .inr ⟨p, hp, htells⟩
    exact hall (given_iff.mp h)
  · have hsame : net'.authority.2 = net.authority.2 := by
      rw [authority_step hstep (obeyed_of_not_poll fun env hcall => hpoll ⟨env, hcall⟩)]
    exact .inl ((given_of_authority hsame).mp h)

end

end NetworkManager

/-! ### Managers that share a network -/

namespace Managers

variable {σ : Type} {T : ℕ → ITransport σ} {addr : ℕ → σ → Address} {s s' : Managers σ}

/-- The call is a server tick at which the bridge gives these bytes for the entity, as far as a message
can hold them. -/
def Serialises (ent : EntitySnapshot) (call : Call σ) : Prop :=
  ∃ deltaTime envs, call = .serverTick deltaTime envs ∧
    ∃ env ∈ envs, ∃ data, env.serialize ent.1 = some data ∧ ent = truncated (ent.1, data)

/-- A snapshot is sent by a server, and its entities are serialised at the tick. -/
theorem emits_deltaState {l : ℕ × Call σ} {a : Address} {payload : Bytes}
    (hcall : l.2.signal = some SysType.deltaState)
    (h : s.Emits addr a (sysPacket SysType.deltaState payload) l) :
    (s.manager l.1).serving ∧ ∀ ent ∈ deltaEntities payload, Serialises ent l.2 := by
  obtain ⟨i, call⟩ := l
  obtain ⟨p, hp, hdata, -⟩ := h
  cases call with
  | serverTick deltaTime envs =>
    unfold emitted at hp
    dsimp only at hp
    split at hp
    · cases hp
    · rename_i rep hrep
      split_ifs at hp with hserving
      · cases hp
      · rcases hout : rep.serverTick deltaTime (envs.map (s.manage i).tickEnv) with _ | out
        · rw [hout] at hp
          cases hp
        · rw [hout] at hp
          obtain ⟨msg, hmsg, rfl⟩ := mem_map.mp hp
          have hserves : (s.manage i).serving = true := by simpa using hserving
          refine ⟨hserves, fun ent hent => ⟨deltaTime, envs, rfl, ?_⟩⟩
          unfold NetworkReplicationManager.serverTick at hout
          split_ifs at hout
          · obtain ⟨tick, htick, id, entities, hmessage, hserialised⟩ := mem_serverTickLoop hout msg hmsg
            obtain ⟨env, henv, rfl⟩ := mem_map.mp htick
            have hpayload : payload = (snapshotMessage id entities).drop 3 :=
              (congrArg (drop 3) (hmessage.symm.trans hdata)).symm
            rw [hpayload] at hent
            obtain ⟨whole, hwhole, rfl⟩ := mem_map.mp (Scene.mem_deltaEntities hent)
            exact ⟨env, henv, whole.2, hserialised whole hwhole, rfl⟩
          · cases hout
            cases hmsg
  | _ => cases hcall

section
variable {onWay : σ → Set (Address × Bytes)} (hT : Carries T addr onWay)
include hT

/-- What a snapshot tells of an entity was serialised before, by a server. -/
theorem told_state {run : List (ℕ × Call σ)} {l : ℕ × Call σ} {next : Managers σ}
    (hway : onWay s.world = ∅) (hfaithful : Run.Admits (step T) (Faithful onWay) s run)
    (hplain : Run.Admits (step T) Plain s run) (h : Run.exec (step T) s run = some s')
    (hl : s'.Faithful onWay l) (hnext : s'.step T l = some next) {p : Handled σ}
    (hp : p ∈ (s'.manage l.1).handled T l.2) {ent : EntitySnapshot} (htells : p.TellsState ent) :
    ∃ pre m post u, run = pre ++ m :: post ∧ Run.exec (step T) s pre = some u ∧
      (u.manager m.1).serving ∧ Serialises ent m.2 := by
  obtain ⟨hsystem, htype, hent⟩ := htells
  obtain ⟨pre, m, post, u, payload, hrun, hu, hcall, hemits, hbuffer⟩ :=
    handled_signal hT hway hfaithful hplain h hl hnext hp hsystem (by rw [htype]; decide)
  rw [htype] at hcall hemits hbuffer
  obtain ⟨hserving, hserialises⟩ := emits_deltaState hcall hemits
  have hpayload : p.buffer.drop 3 = payload.take (BUF_SIZE - 3) := by
    rw [hbuffer]
    rfl
  rw [hpayload] at hent
  exact ⟨pre, m, post, u, hrun, hu, hserving,
    hserialises ent ((deltaEntities_take (by decide)).subset hent)⟩

/-- What a game is given of an entity was serialised before, or given from the start. -/
theorem given_serialised {run : List (ℕ × Call σ)} (hway : onWay s.world = ∅)
    (hfaithful : Run.Admits (step T) (Faithful onWay) s run) (hplain : Run.Admits (step T) Plain s run)
    (h : Run.exec (step T) s run = some s') {i : ℕ} {ent : EntitySnapshot}
    (hgiven : (s'.manager i).Given ent) : (s.manager i).Given ent ∨
      ∃ pre m post u, run = pre ++ m :: post ∧ Run.exec (step T) s pre = some u ∧
        (u.manager m.1).serving ∧ Serialises ent m.2 := by
  induction run using List.reverseRecOn generalizing s' with
  | nil =>
    cases h
    exact .inl hgiven
  | append_singleton pre l ih =>
    rw [Run.exec_append] at h
    obtain ⟨mid, hmid, h⟩ := Option.bind_eq_some_iff.mp h
    obtain ⟨next, hnext, h⟩ := Option.bind_eq_some_iff.mp h
    obtain rfl : next = s' := Option.some.inj h
    have hbefore : (mid.manager i).Given ent → (s.manager i).Given ent ∨
        ∃ pre' m post u, pre ++ [l] = pre' ++ m :: post ∧ Run.exec (step T) s pre' = some u ∧
          (u.manager m.1).serving ∧ Serialises ent m.2 := by
      intro hgiven
      rcases ih hfaithful.append.1 hplain.append.1 hmid hgiven with hstart | ⟨pre', m, post, u, rfl, hu, hm⟩
      · exact .inl hstart
      · exact .inr ⟨pre', m, post ++ [l], u, by rw [append_assoc, cons_append], hu, hm⟩
    obtain ⟨net', hnet, rfl⟩ := Option.map_eq_some_iff.mp hnext
    by_cases hi : l.1 = i
    · subst hi
      have hself : Function.update mid.manager l.1 net' l.1 = net' := Function.update_self ..
      dsimp only at hgiven
      rw [hself] at hgiven
      rcases given_step hnet hgiven with hgiven | ⟨p, hp, htells⟩
      · exact hbefore hgiven
      · obtain ⟨pre', m, post, u, rfl, hu, hm⟩ := told_state hT hway hfaithful.append.1 hplain.append.1 hmid
          (hfaithful.mid hmid) hnext hp htells
        exact .inr ⟨pre', m, post ++ [l], u, by rw [append_assoc, cons_append], hu, hm⟩
    · have hother : Function.update mid.manager l.1 net' i = mid.manager i :=
        Function.update_of_ne (Ne.symm hi) ..
      dsimp only at hgiven
      rw [hother] at hgiven
      exact hbefore hgiven

end

/-- In a run of managers over a network that adds nothing, in which no application passes a message that
looks like one of the system's: whatever bytes of an entity a game is given in the run, a server's game has
given them for that entity when it was asked at a tick before, whole up to 65535 bytes. -/
theorem genuine_states (T : ℕ → ITransport σ) {addr : ℕ → σ → Address}
    {onWay : σ → Set (Address × Bytes)} (hT : Carries T addr onWay) (s s' : Managers σ)
    (run : List (ℕ × Call σ)) (hway : onWay s.world = ∅) (h : Run.exec (step T) s run = some s')
    (hfaithful : Run.Admits (step T) (Faithful onWay) s run) (hplain : Run.Admits (step T) Plain s run)
    (i : ℕ) (ent : EntitySnapshot) (hnew : ¬(s.manager i).Given ent) (hgiven : (s'.manager i).Given ent) :
    ∃ pre m post u, run = pre ++ m :: post ∧ Run.exec (step T) s pre = some u ∧
      (u.manager m.1).serving ∧ Serialises ent m.2 :=
  (given_serialised hT hway hfaithful hplain h hgiven).resolve_left hnew

open LoopbackTransport

/-- The server tells the client of the state of entity 5. -/
def stateUpdate : List (ℕ × Call LoopbackHub) :=
  [(0, .setReplicationManager (some { hasBridge := true })),
    (1, .setReplicationManager (some { hasBridge := true }))] ++
    meeting ++ [(0, .markDirty 5), (0, .serverTick (1 / 30) [{ serialize := fun _ => some [9] }]),
      (1, pollCall 1)]

theorem genuine_states_update : ∃ s', Run.exec (step loopback) fresh stateUpdate = some s' ∧
    (s'.manager 1).Given (5, [9]) ∧ ∃ pre m post u, stateUpdate = pre ++ m :: post ∧
      Run.exec (step loopback) fresh pre = some u ∧ (u.manager m.1).serving ∧ Serialises (5, [9]) m.2 := by
  have hexec : (Run.exec (step loopback) fresh stateUpdate).map (fun s' => (s'.manager 1).authority.2) =
      some [AppCall.deserializeEntity 5 [9]] := by decide +kernel
  obtain ⟨s', h, hcalls⟩ := Option.map_eq_some_iff.mp hexec
  obtain ⟨hfaithful, hplain⟩ := admits_calls (show ∀ l ∈ stateUpdate, ownAccount l.2 by decide) fresh
  have hgiven : (s'.manager 1).Given (5, [9]) := by
    rw [given_iff, hcalls]
    exact mem_singleton_self _
  have hnew : ¬(fresh.manager 1).Given (5, [9]) := not_mem_nil
  exact ⟨s', h, hgiven, genuine_states loopback carries fresh s' stateUpdate onWay_start h hfaithful hplain 1
    (5, [9]) hnew hgiven⟩

end Managers

end CampelloNet
