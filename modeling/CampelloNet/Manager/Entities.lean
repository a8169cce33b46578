import CampelloNet.Manager.Signals

/-!
# Where entities come from

The entity tables of managers that share a network. Whatever the network loses, doubles and delays, an entity
is in a table with the prefab with which some application has spawned it, and what leaves a table some
application has destroyed (`genuine_entities`), as long as no application passes a message that looks like
one of the system's.
-/

namespace CampelloNet

open Lib Transport
open List hiding lookup

open NetworkManager

/-! ### One entity manager -/

namespace NetworkEntityManager

variable {em : NetworkEntityManager} {entity id : NetworkId} {prefabId prefabId' : PrefabId}

/-- The entity is in the table, with the prefab. -/
def Knows (em : NetworkEntityManager) (entity : NetworkId) (prefabId : PrefabId) : Prop :=
  ∃ ent ∈ em.entities, ent.netId = entity ∧ ent.prefabId = prefabId

theorem knows_put {ent : Entity} : (em.put ent).Knows entity prefabId →
    em.Knows entity prefabId ∨ ent.netId = entity ∧ ent.prefabId = prefabId := by
  rintro ⟨ent', hmem, hid, hprefab⟩
  rcases mem_upsert hmem with rfl | hmem
  · exact .inr ⟨hid, hprefab⟩
  · exact .inl ⟨ent', hmem, hid, hprefab⟩

/-- To enter an entity removes no other. -/
theorem mem_put {ent : Entity} (h : entity ∈ em.entities.map Entity.netId) :
    entity ∈ (em.put ent).entities.map Entity.netId := by
  show entity ∈ (upsert Entity.netId ent em.entities).map Entity.netId
  rw [map_key_upsert]
  split_ifs
  · exact h
  · exact mem_append_left _ h

theorem knows_create {initData : Bytes} {handle : EntityHandle}
    (h : (em.create prefabId' id initData handle).1.Knows entity prefabId) :
    em.Knows entity prefabId ∨ id = entity ∧ prefabId' = prefabId := by
  unfold create at h
  split_ifs at h
  · exact knows_put h
  · exact knows_put h

theorem mem_create {initData : Bytes} {handle : EntityHandle}
    (h : entity ∈ em.entities.map Entity.netId) :
    entity ∈ (em.create prefabId' id initData handle).1.entities.map Entity.netId := by
  unfold create
  split_ifs
  · exact mem_put h
  · exact mem_put h

theorem knows_spawn {initData : Bytes} {handle : EntityHandle}
    (h : (em.spawn prefabId' initData handle).1.Knows entity prefabId) :
    em.Knows entity prefabId ∨ em.full = false ∧ em.nextId = entity ∧ prefabId' = prefabId := by
  unfold spawn at h
  split_ifs at h with hfull
  · exact .inl h
  · exact (knows_create h).imp_right fun hnew => ⟨by simpa using hfull, hnew⟩

theorem knows_destroy (h : (em.destroy id).1.Knows entity prefabId) : em.Knows entity prefabId := by
  unfold destroy at h
  split at h
  · exact h
  · obtain ⟨ent, hmem, hent⟩ := h
    exact ⟨ent, (mem_filter.mp hmem).1, hent⟩

/-- To destroy an entity removes no other. -/
theorem mem_destroy (hne : id ≠ entity) (h : entity ∈ em.entities.map Entity.netId) :
    entity ∈ (em.destroy id).1.entities.map Entity.netId := by
  unfold destroy
  split
  · exact h
  · rename_i ent hfind
    obtain ⟨ent', hmem, hid⟩ := mem_map.mp h
    refine mem_map.mpr ⟨ent', mem_filter.mpr ⟨hmem, ?_⟩, hid⟩
    have hkey : ent.netId = id := lookup_key hfind
    simpa [hkey, hid] using Ne.symm hne

theorem knows_setOwner {owner : ClientId} (h : (em.setOwner id owner).Knows entity prefabId) :
    em.Knows entity prefabId := by
  unfold setOwner at h
  split at h
  · exact h
  · rename_i ent hfind
    rcases knows_put h with h | ⟨hid, hprefab⟩
    · exact h
    · exact ⟨ent, lookup_mem hfind, hid, hprefab⟩

theorem mem_setOwner {owner : ClientId} (h : entity ∈ em.entities.map Entity.netId) :
    entity ∈ (em.setOwner id owner).entities.map Entity.netId := by
  unfold setOwner
  split
  · exact h
  · exact mem_put h

/-! ### Messages -/

/-- The fields of a spawn message, as far as the receive buffer holds it. -/
theorem spawnMessage_fields (initData : Bytes) {n : ℕ} (h : 12 ≤ n) :
    readBe64 ((be64 id ++ be32 prefabId ++ be16 (UInt16.ofNat initData.length) ++ initData).take n) = id ∧
      readBe32 (((be64 id ++ be32 prefabId ++ be16 (UInt16.ofNat initData.length) ++ initData).take n).drop 8) =
        prefabId := by
  obtain ⟨m, rfl⟩ := Nat.exists_eq_add_of_le h
  have htake : ∀ rest : Bytes, ((be64 id ++ be32 prefabId) ++ rest).take (12 + m) =
      be64 id ++ (be32 prefabId ++ rest.take m) := by
    intro rest
    have hlen : (be64 id ++ be32 prefabId).length = 12 := rfl
    rw [← hlen, take_length_add_append, append_assoc]
  have hdrop : ∀ rest : Bytes, (be64 id ++ rest).drop 8 = rest := fun _ => rfl
  rw [append_assoc, htake, readBe64_be64, hdrop, readBe32_be32]
  exact ⟨rfl, rfl⟩

theorem knows_onReceiveSpawn {data : Bytes} {handle : EntityHandle}
    (h : (em.onReceiveSpawn data handle).1.Knows entity prefabId) :
    em.Knows entity prefabId ∨
      14 ≤ data.length ∧ readBe64 data = entity ∧ readBe32 (data.drop 8) = prefabId := by
  unfold onReceiveSpawn at h
  dsimp only at h
  split_ifs at h with hshort
  · exact .inl h
  · exact .inl h
  · exact .inl h
  · exact .inl h
  · exact (knows_create h).imp_right fun hnew => ⟨not_lt.mp hshort, hnew⟩

theorem mem_onReceiveSpawn {data : Bytes} {handle : EntityHandle}
    (h : entity ∈ em.entities.map Entity.netId) :
    entity ∈ (em.onReceiveSpawn data handle).1.entities.map Entity.netId := by
  unfold onReceiveSpawn
  dsimp only
  split_ifs
  · exact h
  · exact h
  · exact h
  · exact h
  · exact mem_create h

theorem knows_onReceiveDestroy {data : Bytes} (h : (em.onReceiveDestroy data).1.Knows entity prefabId) :
    em.Knows entity prefabId := by
  unfold onReceiveDestroy at h
  split_ifs at h
  · exact h
  · exact knows_destroy h

end NetworkEntityManager

namespace NetworkManager

variable {σ : Type} {T : ℕ → ITransport σ} {net : NetworkManager σ}

/-- What a message makes of an entity table. -/
def heard (em : NetworkEntityManager) (handle : EntityHandle) (type : UInt8) (data : Bytes) :
    NetworkEntityManager :=
  if type = SysType.entitySpawn then (em.onReceiveSpawn data handle).1
  else if type = SysType.entityDestroy then (em.onReceiveDestroy data).1
  else if type = SysType.entitySetOwner then em.onReceiveSetOwner data
  else em

theorem entityManager_tellEntities (f : NetworkEntityManager → NetworkEntityManager × List AppCall) :
    (net.tellEntities f).entityManager = net.entityManager.map fun em => (f em).1 := by
  unfold tellEntities
  rcases hem : net.entityManager with _ | em
  · exact hem
  · rfl

theorem entityManager_processSystemMessage (env : PacketEnv) (senderId : ClientId) (sender : Address)
    (t : ℕ) (type : UInt8) (data : Bytes) :
    (net.processSystemMessage T env senderId sender t type data).entityManager =
      net.entityManager.map fun em => heard em env.handle type data := by
  by_cases hspawn : type = SysType.entitySpawn
  · subst hspawn
    exact entityManager_tellEntities _
  by_cases hdestroy : type = SysType.entityDestroy
  · subst hdestroy
    exact entityManager_tellEntities _
  by_cases howner : type = SysType.entitySetOwner
  · subst howner
    exact entityManager_tellEntities _
  have hheard : (net.entityManager.map fun em => heard em env.handle type data) = net.entityManager := by
    simp only [heard, if_neg hspawn, if_neg hdestroy, if_neg howner, Option.map_id']
  rw [hheard]
  apply processSystemMessage_cases (P := fun next => next.entityManager = net.entityManager)
  case connectRequest => exact fun _ => (incidental_onConnectRequest net env sender t data).entityManager
  case connectAccept => exact fun _ => (incidental_onConnectAccept net data).entityManager
  case connectReject => exact fun _ => (incidental_onConnectReject net).entityManager
  case disconnectNotify => exact fun _ => (incidental_onDisconnectNotify net sender).entityManager
  case timeSyncRequest =>
    exact fun _ => (incidental_onTimeSyncRequest net env sender t data).entityManager
  case timeSyncResponse => exact fun _ => (incidental_onTimeSyncResponse net env data).entityManager
  case entitySpawn => exact fun h => absurd h hspawn
  case entityDestroy => exact fun h => absurd h hdestroy
  case entitySetOwner => exact fun h => absurd h howner
  case entityFullState =>
    intro _
    rw [entityManager_tellEntities]
    exact Option.map_id'
  case deltaState =>
    intro _
    unfold onDeltaState
    split <;> rfl
  case snapshotAck => exact fun _ => (incidental_onSnapshotAck net senderId data).entityManager
  case rpc => exact fun _ => (incidental_onRpc net env senderId sender data).entityManager
  case unknown => rfl

variable (net) in
/-- A packet is no message to the entity manager, or does to the table what the message says. -/
theorem entityManager_handlePacket (env : PacketEnv) (t : ℕ) (buffer : Bytes) (sender : Address) :
    (net.handlePacket T env t buffer sender).entityManager = net.entityManager ∨ isSystem buffer ∧
      (net.handlePacket T env t buffer sender).entityManager =
        net.entityManager.map fun em => heard em env.handle (buffer.getD 2 0) (buffer.drop 3) := by
  unfold handlePacket
  split_ifs with hnil hlong hsystem
  · exact .inl rfl
  · exact .inl (incidental_onOversized net sender).entityManager
  · unfold onSystem
    dsimp only
    by_cases hs : net.serving
    · rw [if_pos hs]
      rcases net.findClientByAddress sender with _ | entry
      · dsimp only
        split_ifs
        · exact .inr ⟨hsystem, entityManager_processSystemMessage ..⟩
        · exact .inl rfl
      · exact .inr ⟨hsystem, entityManager_processSystemMessage ..⟩
    · rw [if_neg hs]
      exact .inr ⟨hsystem, entityManager_processSystemMessage ..⟩
  · exact .inl (congrArg Prod.fst (authority_onUser net env buffer sender))

/-- The manager knows the entity, with the prefab. -/
def Knows (net : NetworkManager σ) (entity : NetworkId) (prefabId : PrefabId) : Prop :=
  ∃ em ∈ net.entityManager, em.Knows entity prefabId

/-- The entity is in the manager's table. -/
def HasEntity (net : NetworkManager σ) (entity : NetworkId) : Prop :=
  ∃ em ∈ net.entityManager, entity ∈ em.entities.map Entity.netId

/-- The call spawns the entity, with the prefab. -/
def SpawnsEntity (net : NetworkManager σ) (entity : NetworkId) (prefabId : PrefabId) (call : Call σ) : Prop :=
  (∃ initData handle announce, call = .spawn prefabId initData handle announce) ∧
    ∃ em ∈ net.entityManager, em.full = false ∧ em.nextId = entity

/-- The packet tells of the entity and its prefab. -/
def Handled.TellsSpawn (p : Handled σ) (entity : NetworkId) (prefabId : PrefabId) : Prop :=
  isSystem p.buffer ∧ p.buffer.getD 2 0 = SysType.entitySpawn ∧ 14 ≤ (p.buffer.drop 3).length ∧
    readBe64 (p.buffer.drop 3) = entity ∧ readBe32 ((p.buffer.drop 3).drop 8) = prefabId

/-- The packet tells of the end of the entity. -/
def Handled.TellsDestroy (p : Handled σ) (entity : NetworkId) : Prop :=
  isSystem p.buffer ∧ p.buffer.getD 2 0 = SysType.entityDestroy ∧ 8 ≤ (p.buffer.drop 3).length ∧
    readBe64 (p.buffer.drop 3) = entity

section
variable {entity : NetworkId} {prefabId : PrefabId}

theorem knows_after (p : Handled σ) (h : (p.after T).Knows entity prefabId) :
    p.net.Knows entity prefabId ∨ p.TellsSpawn entity prefabId := by
  obtain ⟨em', hem', h⟩ := h
  rcases entityManager_handlePacket (p.before T) p.env p.transport p.buffer p.sender with
    hsame | ⟨hsystem, htold⟩
  · exact .inl ⟨em', hsame ▸ hem', h⟩
  · have htold : (p.after T).entityManager = p.net.entityManager.map fun em =>
        heard em p.env.handle (p.buffer.getD 2 0) (p.buffer.drop 3) := htold
    rw [htold] at hem'
    obtain ⟨em, hem, rfl⟩ := Option.map_eq_some_iff.mp hem'
    unfold heard at h
    split_ifs at h with hspawn
    · exact (NetworkEntityManager.knows_onReceiveSpawn h).imp (fun h => ⟨em, hem, h⟩)
        fun hnew => ⟨hsystem, hspawn, hnew⟩
    · exact .inl ⟨em, hem, NetworkEntityManager.knows_onReceiveDestroy h⟩
    · refine .inl ⟨em, hem, ?_⟩
      unfold NetworkEntityManager.onReceiveSetOwner at h
      split_ifs at h
      · exact h
      · exact NetworkEntityManager.knows_setOwner h
    · exact .inl ⟨em, hem, h⟩

theorem hasEntity_after (p : Handled σ) (h : p.net.HasEntity entity) :
    (p.after T).HasEntity entity ∨ p.TellsDestroy entity := by
  obtain ⟨em, hem, h⟩ := h
  rcases entityManager_handlePacket (p.before T) p.env p.transport p.buffer p.sender with
    hsame | ⟨hsystem, htold⟩
  · exact .inl ⟨em, hsame.trans hem, h⟩
  · have htold : (p.after T).entityManager = p.net.entityManager.map fun em =>
        heard em p.env.handle (p.buffer.getD 2 0) (p.buffer.drop 3) := htold
    rw [hem] at htold
    by_cases hgone : p.buffer.getD 2 0 = SysType.entityDestroy ∧ 8 ≤ (p.buffer.drop 3).length ∧
        readBe64 (p.buffer.drop 3) = entity
    · exact .inr ⟨hsystem, hgone⟩
    · refine .inl ⟨_, htold, ?_⟩
      unfold heard
      split_ifs with hspawn hdestroy
      · exact NetworkEntityManager.mem_onReceiveSpawn h
      · unfold NetworkEntityManager.onReceiveDestroy
        split_ifs with hshort
        · exact h
        · exact NetworkEntityManager.mem_destroy (fun hid => hgone ⟨hdestroy, not_lt.mp hshort, hid⟩) h
      · unfold NetworkEntityManager.onReceiveSetOwner
        split_ifs
        · exact h
        · exact NetworkEntityManager.mem_setOwner h
      · exact h

/-- A property of the entity table and of what was passed to the bridge that every packet of a poll
keeps. -/
theorem authority_handled {net' : NetworkManager σ} {env : PollEnv}
    {I : Option NetworkEntityManager × List AppCall → Prop}
    (hpacket : ∀ p ∈ net.handled T (.poll env), I p.net.authority → I (p.after T).authority)
    (hstep : net.poll T env = some net') (hI : I net.authority) : I net'.authority := by
  unfold handled at hpacket
  unfold poll at hstep
  split_ifs at hstep hpacket
  · cases hstep
    exact hI
  · obtain ⟨out, hout, rfl⟩ := Option.map_eq_some_iff.mp hstep
    rw [authority_finishPoll]
    exact (handledOf_invariant (T := T) (I := fun n => I n.authority) (fun n t hn => hn) hpacket
      (show I (net.pollTransports T).authority from hI)).2 out hout

theorem table_poll {net' : NetworkManager σ} {env : PollEnv} {I : Option NetworkEntityManager → Prop}
    (hpacket : ∀ p ∈ net.handled T (.poll env), I p.net.entityManager → I (p.after T).entityManager)
    (hstep : net.poll T env = some net') (hI : I net.entityManager) : I net'.entityManager :=
  authority_handled (I := fun authority => I authority.1) hpacket hstep hI

/-- A call that handles no packets does to the table what the application says. -/
theorem table_call {net' : NetworkManager σ} {call : Call σ} (hpoll : ∀ env, call ≠ .poll env)
    (hstep : net.step T call = some net') :
    net'.entityManager = net.entityManager.map fun em => ownCall em call :=
  congrArg Prod.fst (authority_step hstep (obeyed_of_not_poll hpoll))

/-- An entity gets into a table by a spawn of the application or a packet that tells of it. -/
theorem knows_step {net' : NetworkManager σ} {call : Call σ} (hstep : net.step T call = some net')
    (h : net'.Knows entity prefabId) : net.Knows entity prefabId ∨ net.SpawnsEntity entity prefabId call ∨
      ∃ p ∈ net.handled T call, p.TellsSpawn entity prefabId := by
  by_cases hpoll : ∃ env, call = .poll env
  · obtain ⟨env, rfl⟩ := hpoll
    let I (table : Option NetworkEntityManager) : Prop := (∃ em ∈ table, em.Knows entity prefabId) →
      net.Knows entity prefabId ∨ ∃ p ∈ net.handled T (.poll env), p.TellsSpawn entity prefabId
    have htable : I net'.entityManager := by
      refine table_poll (fun p hp hI hafter => ?_) hstep (fun h => .inl h)
      exact (knows_after p hafter).elim hI fun htells => .inr ⟨p, hp, htells⟩
    exact (htable h).imp_right .inr
  · obtain ⟨em', hem', h⟩ := h
    rw [table_call (fun env hcall => hpoll ⟨env, hcall⟩) hstep] at hem'
    obtain ⟨em, hem, rfl⟩ := Option.map_eq_some_iff.mp hem'
    cases call with
    | spawn prefabId' initData handle announce =>
      rcases NetworkEntityManager.knows_spawn h with h | ⟨hfull, hid, rfl⟩
      · exact .inl ⟨em, hem, h⟩
      · exact .inr (.inl ⟨⟨initData, handle, announce, rfl⟩, em, hem, hfull, hid⟩)
    | destroy id announce => exact .inl ⟨em, hem, NetworkEntityManager.knows_destroy h⟩
    | setOwner id owner => exact .inl ⟨em, hem, NetworkEntityManager.knows_setOwner h⟩
    | _ => exact .inl ⟨em, hem, h⟩

/-- An entity leaves a table by a call of `destroy` or a packet that tells of its end. -/
theorem gone_step {net' : NetworkManager σ} {call : Call σ} (hstep : net.step T call = some net')
    (h : net.HasEntity entity) : net'.HasEntity entity ∨ (∃ announce, call = .destroy entity announce) ∨
      ∃ p ∈ net.handled T call, p.TellsDestroy entity := by
  by_cases hpoll : ∃ env, call = .poll env
  · obtain ⟨env, rfl⟩ := hpoll
    let I (table : Option NetworkEntityManager) : Prop :=
      (∃ em ∈ table, entity ∈ em.entities.map Entity.netId) ∨
        ∃ p ∈ net.handled T (.poll env), p.TellsDestroy entity
    have htable : I net'.entityManager := by
      refine table_poll (fun p hp hI => ?_) hstep (.inl h)
      exact hI.elim (fun hhas => (hasEntity_after p hhas).imp_right fun htells => ⟨p, hp, htells⟩) .inr
    exact htable.imp_right .inr
  · obtain ⟨em, hem, h⟩ := h
    have htable := table_call (fun env hcall => hpoll ⟨env, hcall⟩) hstep
    rw [hem] at htable
    cases call with
    | spawn prefabId' initData handle announce =>
      refine .inl ⟨_, htable, ?_⟩
      show entity ∈ (em.spawn prefabId' initData handle).1.entities.map Entity.netId
      unfold NetworkEntityManager.spawn
      split_ifs
      · exact h
      · exact NetworkEntityManager.mem_create h
    | destroy id announce =>
      by_cases hid : id = entity
      · exact .inr (.inl ⟨announce, by rw [hid]⟩)
      · exact .inl ⟨_, htable, NetworkEntityManager.mem_destroy hid h⟩
    | setOwner id owner => exact .inl ⟨_, htable, NetworkEntityManager.mem_setOwner h⟩
    | _ => exact .inl ⟨_, htable, h⟩

end

end NetworkManager

/-! ### Managers that share a network -/

namespace Managers

variable {σ : Type} {T : ℕ → ITransport σ} {addr : ℕ → σ → Address} {s s' : Managers σ}

/-- Some manager knew the entity from the start, or its application has spawned it in the run. -/
def Origin (T : ℕ → ITransport σ) (s : Managers σ) (run : List (ℕ × Call σ)) (entity : NetworkId)
    (prefabId : PrefabId) : Prop :=
  (∃ j, (s.manager j).Knows entity prefabId) ∨ ∃ pre m post u, run = pre ++ m :: post ∧
    Run.exec (step T) s pre = some u ∧ (u.manager m.1).SpawnsEntity entity prefabId m.2

theorem Origin.append {pre post : List (ℕ × Call σ)} {entity : NetworkId} {prefabId : PrefabId}
    (h : s.Origin T pre entity prefabId) : s.Origin T (pre ++ post) entity prefabId := by
  rcases h with h | ⟨pre', m, post', u, rfl, hu, h⟩
  · exact .inl h
  · exact .inr ⟨pre', m, post' ++ post, u, by rw [append_assoc, cons_append], hu, h⟩

/-- A spawn message is of a spawn, or of an entity that the sender knows. -/
theorem emits_spawn {l : ℕ × Call σ} {a : Address} {payload : Bytes}
    (hcall : l.2.signal = some SysType.entitySpawn)
    (h : s.Emits addr a (sysPacket SysType.entitySpawn payload) l) :
    ∃ entity prefabId initData,
      payload = be64 entity ++ be32 prefabId ++ be16 (UInt16.ofNat initData.length) ++ initData ∧
      ((s.manager l.1).SpawnsEntity entity prefabId l.2 ∨ (s.manager l.1).Knows entity prefabId) := by
  obtain ⟨i, call⟩ := l
  obtain ⟨p, hp, hdata, -⟩ := h
  have hfields : ∀ (entity : NetworkId) (prefabId : PrefabId) (initData : Bytes),
      p.data = NetworkEntityManager.spawnMessage entity prefabId initData →
      payload = be64 entity ++ be32 prefabId ++ be16 (UInt16.ofNat initData.length) ++ initData := by
    intro entity prefabId initData hmessage
    have hbytes : [0xCA, 0xFE, 0x10] ++ payload = [0xCA, 0xFE, 0x10] ++
        (be64 entity ++ be32 prefabId ++ be16 (UInt16.ofNat initData.length) ++ initData) :=
      hdata.symm.trans (hmessage.trans (by simp [NetworkEntityManager.spawnMessage]))
    exact append_cancel_left hbytes
  cases call with
  | spawn prefabId initData handle announce =>
    unfold emitted at hp
    dsimp only at hp
    split at hp
    · cases hp
    · rename_i em hem
      split_ifs at hp with hannounce
      · obtain rfl := mem_singleton.mp hp
        have hfull : em.full = false := by simpa using (Bool.and_eq_true_iff.mp hannounce).2
        have hid : (em.spawn prefabId initData handle).2.2 = em.nextId := by
          unfold NetworkEntityManager.spawn
          rw [if_neg (by simp [hfull])]
        refine ⟨em.nextId, prefabId, initData, hfields _ _ _ (by rw [hid]), .inl ?_⟩
        exact ⟨⟨initData, handle, announce, rfl⟩, em, hem, hfull, rfl⟩
      · cases hp
  | sendFullState client =>
    unfold emitted at hp
    dsimp only at hp
    split at hp
    · cases hp
    · rename_i em hem
      obtain ⟨msg, hmsg, rfl⟩ := mem_map.mp hp
      obtain ⟨ent, hent, rfl⟩ := mem_map.mp hmsg
      exact ⟨ent.netId, ent.prefabId, [], hfields _ _ _ rfl, .inr ⟨em, hem, ent, hent, rfl, rfl⟩⟩
  | _ => cases hcall

/-- A destroy message is of a destroy. -/
theorem emits_destroy {l : ℕ × Call σ} {a : Address} {payload : Bytes}
    (hcall : l.2.signal = some SysType.entityDestroy)
    (h : s.Emits addr a (sysPacket SysType.entityDestroy payload) l) :
    ∃ entity announce, l.2 = .destroy entity announce ∧ payload = be64 entity := by
  obtain ⟨i, call⟩ := l
  obtain ⟨p, hp, hdata, -⟩ := h
  cases call with
  | destroy id announce =>
    unfold emitted at hp
    dsimp only at hp
    split at hp
    · cases hp
    · split_ifs at hp
      · obtain rfl := mem_singleton.mp hp
        have hbytes : [0xCA, 0xFE, 0x11] ++ payload = [0xCA, 0xFE, 0x11] ++ be64 id := hdata.symm
        exact ⟨id, announce, rfl, append_cancel_left hbytes⟩
      · cases hp
  | _ => cases hcall

section
variable {onWay : σ → Set (Address × Bytes)} (hT : Carries T addr onWay)
include hT

/-- Who is told of an entity is told by one who has spawned it or knows it. -/
theorem told_spawn {run : List (ℕ × Call σ)} {l : ℕ × Call σ} {next : Managers σ}
    (hway : onWay s.world = ∅) (hfaithful : Run.Admits (step T) (Faithful onWay) s run)
    (hplain : Run.Admits (step T) Plain s run) (h : Run.exec (step T) s run = some s')
    (hl : s'.Faithful onWay l) (hnext : s'.step T l = some next) {p : Handled σ}
    (hp : p ∈ (s'.manage l.1).handled T l.2) {entity : NetworkId} {prefabId : PrefabId}
    (htells : p.TellsSpawn entity prefabId) :
    ∃ pre m post u, run = pre ++ m :: post ∧ Run.exec (step T) s pre = some u ∧
      ((u.manager m.1).SpawnsEntity entity prefabId m.2 ∨ (u.manager m.1).Knows entity prefabId) := by
  obtain ⟨hsystem, htype, -, hentity, hprefab⟩ := htells
  obtain ⟨pre, m, post, u, payload, hrun, hu, hcall, hemits, hbuffer⟩ :=
    handled_signal hT hway hfaithful hplain h hl hnext hp hsystem (by rw [htype]; decide)
  rw [htype] at hcall hemits hbuffer
  obtain ⟨entity', prefabId', initData, rfl, horigin⟩ := emits_spawn hcall hemits
  have hpayload : p.buffer.drop 3 = (be64 entity' ++ be32 prefabId' ++
      be16 (UInt16.ofNat initData.length) ++ initData).take (BUF_SIZE - 3) := by
    rw [hbuffer]
    rfl
  obtain ⟨hid, hprefab'⟩ : readBe64 (p.buffer.drop 3) = entity' ∧
      readBe32 ((p.buffer.drop 3).drop 8) = prefabId' := by
    rw [hpayload]
    exact NetworkEntityManager.spawnMessage_fields initData (by decide)
  rw [hid] at hentity
  rw [hprefab'] at hprefab
  subst hentity
  subst hprefab
  exact ⟨pre, m, post, u, hrun, hu, horigin⟩

/-- Who is told of the end of an entity is told by one who has destroyed it. -/
theorem told_destroy {run : List (ℕ × Call σ)} {l : ℕ × Call σ} {next : Managers σ}
    (hway : onWay s.world = ∅) (hfaithful : Run.Admits (step T) (Faithful onWay) s run)
    (hplain : Run.Admits (step T) Plain s run) (h : Run.exec (step T) s run = some s')
    (hl : s'.Faithful onWay l) (hnext : s'.step T l = some next) {p : Handled σ}
    (hp : p ∈ (s'.manage l.1).handled T l.2) {entity : NetworkId} (htells : p.TellsDestroy entity) :
    ∃ j announce, (j, .destroy entity announce) ∈ run := by
  obtain ⟨hsystem, htype, -, hentity⟩ := htells
  obtain ⟨pre, ⟨j, call⟩, post, u, payload, rfl, -, hcall, hemits, hbuffer⟩ :=
    handled_signal hT hway hfaithful hplain h hl hnext hp hsystem (by rw [htype]; decide)
  rw [htype] at hcall hemits hbuffer
  obtain ⟨entity', announce, hdestroy, rfl⟩ := emits_destroy hcall hemits
  have hdestroy : call = .destroy entity' announce := hdestroy
  have hid : readBe64 (p.buffer.drop 3) = entity' := by
    rw [hbuffer]
    exact (congrArg readBe64 (append_nil (be64 entity')).symm).trans (readBe64_be64 entity' [])
  rw [hid] at hentity
  subst hentity hdestroy
  exact ⟨j, announce, mem_append_right _ mem_cons_self⟩

/-- What a manager knows of an entity comes from the start or a spawn. -/
theorem knows_origin {run : List (ℕ × Call σ)} (hway : onWay s.world = ∅)
    (hfaithful : Run.Admits (step T) (Faithful onWay) s run) (hplain : Run.Admits (step T) Plain s run)
    (h : Run.exec (step T) s run = some s') {i : ℕ} {entity : NetworkId} {prefabId : PrefabId}
    (hknows : (s'.manager i).Knows entity prefabId) : s.Origin T run entity prefabId := by
  induction hlen : run.length using Nat.strong_induction_on generalizing run s' i with
  | _ n ih =>
    rcases run.eq_nil_or_concat' with rfl | ⟨pre, l, rfl⟩
    · cases h
      exact .inl ⟨i, hknows⟩
    · have hshort : pre.length < n := by
        rw [← hlen]
        simp
      rw [Run.exec_append] at h
      obtain ⟨mid, hmid, h⟩ := Option.bind_eq_some_iff.mp h
      obtain ⟨next, hnext, h⟩ := Option.bind_eq_some_iff.mp h
      obtain rfl : next = s' := Option.some.inj h
      have hbefore : ∀ {j}, (mid.manager j).Knows entity prefabId →
          s.Origin T (pre ++ [l]) entity prefabId := fun hmem =>
        (ih _ hshort hfaithful.append.1 hplain.append.1 hmid hmem rfl).append
      obtain ⟨net', hnet, rfl⟩ := Option.map_eq_some_iff.mp hnext
      by_cases hi : l.1 = i
      · subst hi
        have hself : Function.update mid.manager l.1 net' l.1 = net' := Function.update_self ..
        dsimp only at hknows
        rw [hself] at hknows
        rcases knows_step hnet hknows with hmem | hspawn | ⟨p, hp, htells⟩
        · exact hbefore hmem
        · exact .inr ⟨pre, l, [], mid, rfl, hmid, hspawn⟩
        · obtain ⟨pre', m, post', u, rfl, hu, hspawn | hknown⟩ := told_spawn hT hway hfaithful.append.1
            hplain.append.1 hmid (hfaithful.mid hmid) hnext hp htells
          · exact .append (.inr ⟨pre', m, post', u, rfl, hu, hspawn⟩)
          · rw [append_assoc]
            refine .append (ih _ ?_ hfaithful.append.1.append.1 hplain.append.1.append.1 hu hknown rfl)
            rw [length_append] at hshort
            omega
      · have hother : Function.update mid.manager l.1 net' i = mid.manager i :=
          Function.update_of_ne (Ne.symm hi) ..
        dsimp only at hknows
        rw [hother] at hknows
        exact hbefore hknows

/-- What leaves a table was destroyed. -/
theorem gone_destroyed {run post : List (ℕ × Call σ)} {u : Managers σ} (hway : onWay s.world = ∅)
    (hfaithful : Run.Admits (step T) (Faithful onWay) s (run ++ post))
    (hplain : Run.Admits (step T) Plain s (run ++ post)) (hu : Run.exec (step T) s run = some u)
    (h : Run.exec (step T) u post = some s') {i : ℕ} {entity : NetworkId}
    (hthere : (u.manager i).HasEntity entity) (hgone : ¬(s'.manager i).HasEntity entity) :
    ∃ j announce, (j, .destroy entity announce) ∈ run ++ post := by
  induction post generalizing u run with
  | nil =>
    cases h
    exact absurd hthere hgone
  | cons l post ih =>
    obtain ⟨next, hnext, h⟩ := Option.bind_eq_some_iff.mp h
    have hrun : run ++ l :: post = (run ++ [l]) ++ post := by rw [append_assoc, singleton_append]
    by_cases hstay : (next.manager i).HasEntity entity
    · rw [hrun] at hfaithful hplain ⊢
      refine ih hfaithful hplain ?_ h hstay
      rw [Run.exec_append, hu]
      show (u.step T l).bind _ = some next
      rw [hnext]
      rfl
    · obtain ⟨net', hnet, rfl⟩ := Option.map_eq_some_iff.mp hnext
      have hi : l.1 = i := by
        by_contra hi
        have hother : Function.update u.manager l.1 net' i = u.manager i :=
          Function.update_of_ne (Ne.symm hi) ..
        dsimp only at hstay
        rw [hother] at hstay
        exact hstay hthere
      subst hi
      have hself : Function.update u.manager l.1 net' l.1 = net' := Function.update_self ..
      dsimp only at hstay
      rw [hself] at hstay
      rcases gone_step hnet hthere with hmem | ⟨announce, hcall⟩ | ⟨p, hp, htells⟩
      · exact absurd hmem hstay
      · exact ⟨l.1, announce, mem_append_right _ (by rw [← hcall]; exact mem_cons_self)⟩
      · obtain ⟨j, announce, hmem⟩ := told_destroy hT hway hfaithful.append.1 hplain.append.1 hu
          (hfaithful.mid hu) hnext hp htells
        exact ⟨j, announce, mem_append_left _ hmem⟩

end

/-- No manager's table has an entity that no application has spawned, or with another prefab, and what
leaves a table some application has destroyed, whatever the network loses, doubles and delays, as long as
no application passes a message that looks like one of the system's. -/
theorem genuine_entities (T : ℕ → ITransport σ) {addr : ℕ → σ → Address}
    {onWay : σ → Set (Address × Bytes)} (hT : Carries T addr onWay) (s s' : Managers σ)
    (run : List (ℕ × Call σ)) (hway : onWay s.world = ∅) (h : Run.exec (step T) s run = some s')
    (hfaithful : Run.Admits (step T) (Faithful onWay) s run) (hplain : Run.Admits (step T) Plain s run)
    (i : ℕ) (entity : NetworkId) :
    (∀ prefabId, (s'.manager i).Knows entity prefabId → s.Origin T run entity prefabId) ∧
      ∀ pre post u, run = pre ++ post → Run.exec (step T) s pre = some u →
        (u.manager i).HasEntity entity → ¬(s'.manager i).HasEntity entity →
        ∃ j announce, (j, .destroy entity announce) ∈ run := by
  refine ⟨fun prefabId hknows => knows_origin hT hway hfaithful hplain h hknows, ?_⟩
  rintro pre post u rfl hu hthere hgone
  rw [Run.exec_append, hu] at h
  exact gone_destroyed hT hway hfaithful hplain hu h hthere hgone

open LoopbackTransport

theorem knows_of_prefab {net : NetworkManager σ} {entity : NetworkId} {prefabId : PrefabId}
    (h : (net.entityManager.bind fun em => (em.find entity).map Entity.prefabId) = some prefabId) :
    net.Knows entity prefabId := by
  obtain ⟨em, hem, h⟩ := Option.bind_eq_some_iff.mp h
  obtain ⟨ent, hent, rfl⟩ := Option.map_eq_some_iff.mp h
  exact ⟨em, hem, ent, lookup_mem hent, lookup_key hent, rfl⟩

/-- The server spawns an entity, and the client hears of it. -/
def birth : List (ℕ × Call LoopbackHub) := meeting ++ [(0, .spawn 3 [7] 9 true), (1, pollCall 1)]

/-- The server destroys the entity, and the client hears of that too. -/
def death : List (ℕ × Call LoopbackHub) := birth ++ [(0, .destroy 1 true), (1, pollCall 1)]

theorem genuine_entities_death : ∃ u s', Run.exec (step loopback) tables birth = some u ∧
    Run.exec (step loopback) tables death = some s' ∧ (u.manager 1).Knows 1 3 ∧
    ¬(s'.manager 1).HasEntity 1 ∧ tables.Origin loopback birth 1 3 ∧
    ∃ j announce, (j, .destroy 1 announce) ∈ death := by
  have hbirth : (Run.exec (step loopback) tables birth).map (fun u =>
      (u.manager 1).entityManager.bind fun em => (em.find 1).map Entity.prefabId) = some (some 3) := by
    decide +kernel
  have hdeath : (Run.exec (step loopback) tables death).map (fun s' =>
      ((s'.manager 1).entityManager.map fun em => em.entities.map Entity.netId)) = some (some []) := by
    decide +kernel
  obtain ⟨u, hu, hprefab⟩ := Option.map_eq_some_iff.mp hbirth
  obtain ⟨s', h, hempty⟩ := Option.map_eq_some_iff.mp hdeath
  have hknows : (u.manager 1).Knows 1 3 := knows_of_prefab hprefab
  have hgone : ¬(s'.manager 1).HasEntity 1 := by
    rintro ⟨em, hem, hmem⟩
    rw [hem] at hempty
    have hnone : em.entities.map Entity.netId = [] := Option.some.inj hempty
    rw [hnone] at hmem
    cases hmem
  obtain ⟨hfaithful, hplain⟩ := admits_calls (show ∀ l ∈ death, ownAccount l.2 by decide) tables
  have hthere : (u.manager 1).HasEntity 1 := by
    obtain ⟨em, hem, ent, hent, hid, -⟩ := hknows
    exact ⟨em, hem, mem_map.mpr ⟨ent, hent, hid⟩⟩
  refine ⟨u, s', hu, h, hknows, hgone, ?_, ?_⟩
  · exact (genuine_entities loopback carries tables u birth onWay_start hu hfaithful.append.1
      hplain.append.1 1 1).1 3 hknows
  · exact (genuine_entities loopback carries tables s' death onWay_start h hfaithful hplain 1 1).2 birth _ u
      rfl hu hthere hgone

end Managers

end CampelloNet
