import CampelloNet.Entity.Convergence

/-!
# What a late joiner sees

The full state that is sent to a late joiner is a spawn message for each entity, without the initial
data that the first clients were sent, and no owner is sent to anybody. So a late joiner sees what an
early client sees exactly when there was no initial data and there are no owners.
-/

namespace CampelloNet

open Lib NetworkEntityManager

namespace EntityNet

/-! ### What the game of a client was told -/

def spawnArgs : AppCall → Option (NetworkId × PrefabId × Bytes)
  | .spawn prefabId id initData => some (id, prefabId, initData)
  | _ => none

/-- The arguments of the last `bridge->spawn` for an id. -/
def spawnedWith (id : NetworkId) (calls : List AppCall) : Option (PrefabId × Bytes) :=
  (lookup Prod.fst id (calls.filterMap spawnArgs).reverse).map Prod.snd

/-- Each entity of a client with the arguments that it was spawned with. -/
def known (em : NetworkEntityManager) (calls : List AppCall) :
    Table NetworkId (Option (PrefabId × Bytes)) :=
  fun id => (em.find id).map fun _ => spawnedWith id calls

/-- The client has the entity, and its game was told to spawn it with the arguments. -/
def Holds (c : EntityClient) (id : NetworkId) (args : PrefabId × Bytes) : Prop :=
  (c.manager.find id).isSome = true ∧ spawnedWith id c.calls = some args

/-- Both clients have the entity, and their games were told to spawn it with the same arguments. -/
def SameSpawn (early late : EntityClient) (id : NetworkId) : Prop :=
  (early.manager.find id).isSome = true ∧ (late.manager.find id).isSome = true ∧
    (spawnedWith id early.calls).isSome = true ∧
    spawnedWith id late.calls = spawnedWith id early.calls

/-- The late client has every entity of the server as the early one has it, and both know its owner. -/
def SeesSame (s : EntityNet) (early late : ℕ) : Prop :=
  ∀ ent ∈ s.server.entities, SameSpawn (s.client early) (s.client late) ent.netId ∧
    (s.client early).manager.owner ent.netId = s.server.owner ent.netId ∧
    (s.client late).manager.owner ent.netId = s.server.owner ent.netId

instance (early late : EntityClient) (id : NetworkId) : Decidable (SameSpawn early late id) :=
  inferInstanceAs (Decidable (_ ∧ _ ∧ _ ∧ _))

instance (s : EntityNet) (early late : ℕ) : Decidable (SeesSame s early late) :=
  inferInstanceAs (Decidable (∀ ent ∈ _, _))

/-- What each entity was spawned with when its id was entered into the server's table. -/
def opened (s : EntityNet) (history : List Call) : Table NetworkId (PrefabId × Bytes) :=
  (Run.gather step update s history).foldl Table.edit .empty

/-- No entity has an owner, and each was spawned with its prefab and with initial data that its message
gives no length of. -/
def Bare (server : NetworkEntityManager) (opened : Table NetworkId (PrefabId × Bytes)) : Prop :=
  ∀ ent ∈ server.entities, ent.ownerId = 0 ∧
    ∃ args ∈ opened ent.netId, args.1 = ent.prefabId ∧ args.2.length % 2 ^ 16 = 0

instance (server : NetworkEntityManager) (opened : Table NetworkId (PrefabId × Bytes)) :
    Decidable (Bare server opened) := inferInstanceAs (Decidable (∀ ent ∈ _, _))

/-- The server's calls, and the arrivals of messages. -/
def Historic : Call → Prop
  | .join _ | .sendFullState _ _ => False
  | _ => True

def Delivery : Call → Prop
  | .deliver _ _ => True
  | _ => False

variable {s t : EntityNet} {i : ℕ} {call : Call} {em : NetworkEntityManager} {calls : List AppCall}
  {id k : NetworkId} {args : PrefabId × Bytes} {c : EntityClient}

theorem holds_iff : Holds c id args ↔ known c.manager c.calls id = some (some args) := by
  unfold Holds known
  rcases c.manager.find id with _ | ent
  · simp
  · simp

theorem sameSpawn_iff {early late : EntityClient} :
    SameSpawn early late id ↔ ∃ args, Holds early id args ∧ Holds late id args := by
  constructor
  · rintro ⟨hearly, hlate, hsome, hsame⟩
    obtain ⟨args, hargs⟩ := Option.isSome_iff_exists.mp hsome
    exact ⟨args, ⟨hearly, hargs⟩, hlate, hsame.trans hargs⟩
  · rintro ⟨args, ⟨hearly, hargs⟩, hlate, hargs'⟩
    exact ⟨hearly, hlate, by rw [hargs]; rfl, hargs'.trans hargs.symm⟩

theorem spawnedWith_spawn (prefabId : PrefabId) (initData : Bytes) :
    spawnedWith k (calls ++ [.spawn prefabId id initData]) =
      if k = id then some (prefabId, initData) else spawnedWith k calls := by
  unfold spawnedWith
  rw [List.filterMap_append, List.reverse_append]
  show (lookup Prod.fst k ((id, prefabId, initData) :: _)).map Prod.snd = _
  rw [lookup_cons]
  by_cases h : k = id
  · rw [if_pos h.symm, if_pos h]
    rfl
  · rw [if_neg fun heq => h heq.symm, if_neg h]
    rfl

theorem spawnedWith_destroy (handle : EntityHandle) :
    spawnedWith k (calls ++ [.destroy handle]) = spawnedWith k calls := by
  unfold spawnedWith
  rw [List.filterMap_append]
  show (lookup Prod.fst k (_ ++ []).reverse).map Prod.snd = _
  rw [List.append_nil]

/-- What a message does to a client's entities and to what its game was told. -/
theorem known_receive (u : Update) (handle : EntityHandle) (hlimit : em.maxEntities = 0)
    (hbridge : em.hasBridge = true) :
    known (em.receive (message u) handle).1 (calls ++ (em.receive (message u) handle).2) =
      (known em calls).edit (u.map fun args => some (args.1, carried args.2)) := by
  cases u with
  | enter id args =>
    have hfull : ¬em.full = true := by simp [full, hlimit]
    rw [receive_enter]
    show _ = (known em calls).enter id (some (args.1, carried args.2))
    split_ifs with hfind
    · obtain ⟨ent, hent⟩ := Option.isSome_iff_exists.mp hfind
      have hknown : known em calls id = some (spawnedWith id calls) := by
        unfold known
        rw [hent]
        rfl
      rw [List.append_nil, Table.enter_of_some hknown]
    · have hnone : known em calls id = none := by
        unfold known
        rw [Option.not_isSome_iff_eq_none.mp hfind]
        rfl
      funext k
      rw [Table.enter_of_none hnone]
      unfold create
      rw [if_pos hbridge]
      unfold known
      rw [find_put, spawnedWith_spawn]
      dsimp only
      split_ifs <;> rfl
  | leave id =>
    rw [receive_leave]
    funext k
    show _ = (known em calls).leave id k
    unfold NetworkEntityManager.destroy Table.leave
    rcases hfind : em.find id with _ | ent
    · dsimp only
      rw [List.append_nil]
      split_ifs with h
      · unfold known
        rw [h, hfind]
        rfl
      · rfl
    · have hid : ent.netId = id := lookup_key hfind
      unfold remove
      dsimp only
      rw [if_pos hbridge]
      unfold known
      rw [find_erase, spawnedWith_destroy, hid]
      split_ifs <;> rfl

/-- No message gives an entity an owner. -/
theorem unowned_receive (u : Update) (handle : EntityHandle) (h : ∀ ent ∈ em.entities, ent.ownerId = 0) :
    ∀ ent ∈ (em.receive (message u) handle).1.entities, ent.ownerId = 0 := by
  cases u with
  | enter id args =>
    rw [receive_enter]
    split_ifs
    · exact h
    · exact h
    · obtain ⟨ent, -, -, howner, hput⟩ := @create_fst em id args.1 (carried args.2) handle
      rw [hput]
      intro e he
      rcases mem_upsert he with rfl | he
      · exact howner
      · exact h e he
  | leave id =>
    rw [receive_leave]
    unfold NetworkEntityManager.destroy
    split
    · exact h
    · exact fun e he => h e (List.mem_of_mem_filter he)

theorem owner_of_unowned (h : ∀ ent ∈ em.entities, ent.ownerId = 0) (id : NetworkId) :
    em.owner id = 0 := by
  unfold owner
  rcases hfind : em.find id with _ | ent
  · rfl
  · exact h ent (lookup_mem hfind)

theorem hasBridge_receive (u : Update) (handle : EntityHandle) :
    (em.receive (message u) handle).1.hasBridge = em.hasBridge := by
  cases u with
  | enter id args =>
    rw [receive_enter]
    split_ifs
    · rfl
    · rfl
    · obtain ⟨ent, -, -, -, hput⟩ := @create_fst em id args.1 (carried args.2) handle
      rw [hput]
      rfl
  | leave id =>
    rw [receive_leave]
    unfold NetworkEntityManager.destroy
    split <;> rfl

/-! ### The early client -/

/-- What is known of an entity that was spawned with the arguments. -/
def value (args : PrefabId × Bytes) : Option (PrefabId × Bytes) := some (args.1, carried args.2)

def tell (table : Table NetworkId (Option (PrefabId × Bytes))) (u : Update) :
    Table NetworkId (Option (PrefabId × Bytes)) := table.edit (u.map value)

/-- After all that is on the way to it, the client will know the table. -/
structure Knows (table : Table NetworkId (Option (PrefabId × Bytes))) (s : EntityNet) (i : ℕ) :
    Prop where
  connected : (s.client i).connected = true
  limit : (s.client i).manager.maxEntities = 0
  bridge : (s.client i).manager.hasBridge = true
  unowned : ∀ ent ∈ (s.client i).manager.entities, ent.ownerId = 0
  trails : ∃ queue : List Update, (s.client i).inFlight = queue.map message ∧
    Trails tell Eq table (known (s.client i).manager (s.client i).calls) queue

variable {table : Table NetworkId (Option (PrefabId × Bytes))}

theorem knows_step (hk : Knows table s i) (h : step s call = some t) (updates : List Update)
    (hsent : s.sent i call = updates.map message) : Knows (updates.foldl tell table) t i := by
  have hstep := clientStep h i
  rw [hsent] at hstep
  have hqueue : ∃ queue : List Update, (s.client i).inFlight = queue.map message :=
    hk.trails.imp fun queue h => h.1
  refine ⟨hstep.connected hk.connected, ?_, ?_, ?_, ?_⟩
  · refine hstep.manager (I := fun em => em.maxEntities = 0) hqueue hk.limit fun u _ => ?_
    exact (maxEntities_receive u).trans hk.limit
  · refine hstep.manager (I := fun em => em.hasBridge = true) hqueue hk.bridge fun u handle => ?_
    exact (hasBridge_receive u handle).trans hk.bridge
  · exact hstep.manager (I := fun em => ∀ ent ∈ em.entities, ent.ownerId = 0) hqueue hk.unowned
      fun u handle => unowned_receive u handle hk.unowned
  · refine hstep.trails known hk.connected
      (fun u handle => known_receive u handle hk.limit hk.bridge) hk.trails ?_
    rintro _ rfl
    rfl

theorem Knows.holds (hk : Knows table s i) (hquiet : (s.client i).inFlight = []) :
    Holds (s.client i) id args ↔ table id = some (some args) := by
  obtain ⟨queue, hqueue, htrails⟩ := hk.trails
  rw [hquiet] at hqueue
  rw [List.map_eq_nil_iff.mp hqueue.symm] at htrails
  rw [holds_iff, trails_nil.mp htrails]

theorem knows_history {opened : Table NetworkId (PrefabId × Bytes)} {history : List Call}
    (hk : Knows (opened.map value) s i) (h : Run.exec step s history = some t)
    (hhistoric : ∀ call ∈ history, Historic call) :
    Knows (((Run.gather step update s history).foldl Table.edit opened).map value) t i := by
  induction history generalizing s opened with
  | nil =>
    cases h
    exact hk
  | cons call history ih =>
    obtain ⟨u, hu, h⟩ := Option.bind_eq_some_iff.mp h
    have hsent : s.sent i call = (s.update call).map message :=
      sent_eq fun order heq => by simpa [heq, Historic] using hhistoric call List.mem_cons_self
    have hnext := knows_step hk hu _ hsent
    rw [Run.gather_cons hu, List.foldl_append]
    refine ih ?_ h fun c hc => hhistoric c (List.mem_cons_of_mem _ hc)
    rw [Table.map_foldl_edit]
    exact hnext

theorem knows_deliveries {deliveries : List Call} (hk : Knows table s i)
    (h : Run.exec step s deliveries = some t) (hdeliver : ∀ call ∈ deliveries, Delivery call) :
    Knows table t i ∧ t.server = s.server := by
  induction deliveries generalizing s with
  | nil =>
    cases h
    exact ⟨hk, rfl⟩
  | cons call deliveries ih =>
    obtain ⟨u, hu, hrest⟩ := Option.bind_eq_some_iff.mp h
    cases call with
    | deliver j handle =>
      have hnext : Knows table u i := knows_step hk hu [] rfl
      have hserver : u.server = s.server := by
        obtain ⟨message, rest, -, rfl⟩ := deliver_eq_some hu
        rfl
      obtain ⟨hknows, hsame⟩ := ih hnext hrest fun c hc => hdeliver c (List.mem_cons_of_mem _ hc)
      exact ⟨hknows, hsame.trans hserver⟩
    | _ => exact absurd (hdeliver _ List.mem_cons_self) id

/-! ### The late client -/

theorem client_history {history : List Call} (ho : Outside s i)
    (h : Run.exec step s history = some t) (hhistoric : ∀ call ∈ history, Historic call) :
    t.client i = s.client i := by
  induction history generalizing s with
  | nil =>
    cases h
    rfl
  | cons call history ih =>
    obtain ⟨u, hu, h⟩ := Option.bind_eq_some_iff.mp h
    have hsame : u.client i = s.client i := by
      refine (client_outside ho hu).resolve_right ?_
      rintro ⟨rfl, -⟩
      exact hhistoric _ List.mem_cons_self
    rw [ih (ho.of_client hsame) h fun c hc => hhistoric c (List.mem_cons_of_mem _ hc), hsame]

theorem distinct_run {run : List Call} (h : Run.exec step s run = some t) (hd : s.server.Distinct) :
    t.server.Distinct :=
  Run.invariant_exec (I := fun s => s.server.Distinct) h hd fun _ _ _ hd hs => distinct_server hs hd

/-- The full state spawns each entity with its prefab and without initial data. -/
theorem tell_fullState (hd : s.server.Distinct) {order : List Bytes}
    (horder : order.Perm s.server.fullStateMessages) : ∃ updates : List Update,
    order = updates.map message ∧ updates.foldl tell .empty =
      s.server.prefabs.map fun prefabId => some (prefabId, []) := by
  obtain ⟨l, hl, hentry⟩ := fullState_entries hd horder
  refine ⟨_, hl, ?_⟩
  have hmap : s.server.prefabs.map (fun prefabId => some (prefabId, [])) =
      ((l.map fun e => Edit.enter e.1 e.2).foldl Table.edit .empty).map
        fun prefabId => some (prefabId, ([] : Bytes)) := by
    rw [Table.within_empty.caught_up hentry]
  rw [hmap, Table.map_foldl_edit, Table.map_empty, List.foldl_map, List.foldl_map]
  rfl

/-- What a client knows that joins and is sent the full state. -/
theorem knows_late {order : List Bytes} (ho : Outside s i) (hd : s.server.Distinct)
    (hbridge : (s.client i).manager.hasBridge = true)
    (h : Run.exec step s [.join i, .sendFullState i order] = some t) :
    Knows (s.server.prefabs.map fun prefabId => some (prefabId, [])) t i ∧ t.server = s.server := by
  obtain ⟨u, hu, h⟩ := Option.bind_eq_some_iff.mp h
  obtain ⟨v, hv, h⟩ := Option.bind_eq_some_iff.mp h
  cases h
  cases hu
  obtain ⟨horder, -⟩ := sendFullState_eq_some.mp hv
  obtain ⟨updates, hupdates, htold⟩ := tell_fullState hd horder
  have hjoined : Knows .empty (s.setClient i { s.client i with connected := true }) i := by
    refine ⟨?_, ?_, ?_, ?_, [], ?_, ?_⟩ <;> rw [client_setClient]
    · exact ho.limit
    · exact hbridge
    · simp [ho.entities]
    · exact ho.inFlight
    · funext id
      simp [known, find, ho.entities, Table.empty]
  rw [← htold]
  exact ⟨knows_step hjoined hv _ ((if_pos rfl).trans hupdates), (server_sendFullState hv).trans rfl⟩

/-- After every history of spawns, changes of owners and destroys, a client that joins and is sent the
full state sees what a client sees that is connected from the start, if and only if no entity has an
owner and each was spawned with its prefab and without initial data. -/
theorem lateJoiner_sees_same_iff (s s' : EntityNet) (early late : ℕ) (history deliveries : List Call)
    (order : List Bytes) (hfresh : s.Fresh) (hearly : (s.client early).connected = true)
    (hlate : (s.client late).connected = false)
    (hbridge : ∀ i, (s.client i).manager.hasBridge = true)
    (hhistory : ∀ call ∈ history, Historic call) (hdeliver : ∀ call ∈ deliveries, Delivery call)
    (h : Run.exec step s (history ++ .join late :: .sendFullState late order :: deliveries) = some s')
    (hquiet : (s'.client early).inFlight = [] ∧ (s'.client late).inFlight = []) :
    SeesSame s' early late ↔ Bare s'.server (opened s history) := by
  have hne : early ≠ late := by
    rintro rfl
    rw [hearly] at hlate
    cases hlate
  rw [Run.exec_append] at h
  obtain ⟨t, ht, h⟩ := Option.bind_eq_some_iff.mp h
  have hsplit : Run.exec step t ([.join late, .sendFullState late order] ++ deliveries) = some s' := h
  rw [Run.exec_append] at hsplit
  obtain ⟨u, hu, hs'⟩ := Option.bind_eq_some_iff.mp hsplit
  have hd : t.server.Distinct := distinct_run ht hfresh.distinct
  have hsame := client_history (hfresh.outside hlate) ht hhistory
  -- the early client
  have hstart : Knows (Table.empty.map value) s early := by
    obtain ⟨hentities, hlimit⟩ := hfresh.clients early
    refine ⟨hearly, hlimit, hbridge early, by simp [hentities], [], hfresh.inFlight early, ?_⟩
    funext id
    simp [known, find, hentities, Table.map, Table.empty]
  have hknows : Knows ((opened s history).map value) u early := by
    have hhistoric := knows_history hstart ht hhistory
    obtain ⟨v, hv, hu⟩ := Option.bind_eq_some_iff.mp hu
    obtain ⟨w, hw, hu⟩ := Option.bind_eq_some_iff.mp hu
    cases hu
    have hjoin := knows_step hhistoric hv [] rfl
    exact knows_step hjoin hw [] (if_neg hne)
  obtain ⟨hknows, -⟩ := knows_deliveries hknows hs' hdeliver
  -- the late client
  have houtside := (hfresh.outside hlate).of_client hsame
  obtain ⟨hjoined, hserver⟩ := knows_late houtside hd (by rw [hsame]; exact hbridge late) hu
  obtain ⟨hjoined, hserver'⟩ := knows_deliveries hjoined hs' hdeliver
  rw [hserver] at hserver'
  refine forall₂_congr fun ent hent => ?_
  have hfind : s'.server.find ent.netId = some ent :=
    lookup_of_mem (by rw [hserver']; exact hd) hent
  have howner : s'.server.owner ent.netId = ent.ownerId := by
    unfold owner
    rw [hfind]
  have hprefab : t.server.prefabs ent.netId = some ent.prefabId := by
    rw [← hserver', prefabs, hfind]
    rfl
  have hlates : ∀ args, Holds (s'.client late) ent.netId args ↔ (ent.prefabId, []) = args := by
    intro args
    rw [hjoined.holds hquiet.2, Table.map, hprefab]
    simp
  rw [sameSpawn_iff, owner_of_unowned hknows.unowned, owner_of_unowned hjoined.unowned, howner, and_self,
    and_comm, eq_comm]
  refine and_congr_right fun _ => ?_
  constructor
  · rintro ⟨args, hholds, hholds'⟩
    obtain rfl := (hlates args).mp hholds'
    obtain ⟨a, ha, hvalue⟩ := Option.map_eq_some_iff.mp ((hknows.holds hquiet.1).mp hholds)
    obtain ⟨prefabId, initData⟩ := a
    simp only [value, Option.some.injEq, Prod.mk.injEq] at hvalue
    obtain ⟨rfl, hcarried⟩ := hvalue
    exact ⟨_, ha, rfl, carried_eq_nil_iff.mp hcarried⟩
  · rintro ⟨⟨prefabId, initData⟩, hopened, rfl, hlength⟩
    refine ⟨(ent.prefabId, []), (hknows.holds hquiet.1).mpr ?_, (hlates _).mpr rfl⟩
    rw [Table.map, hopened, Option.map_some, value, carried_eq_nil_iff.mpr hlength]

/-- A server and clients with bridges, of which the first is connected. -/
def bridged : EntityNet := { client := fun i => { manager := { hasBridge := true }, connected := i = 0 } }

theorem bridged_fresh : bridged.Fresh := ⟨rfl, rfl, fun _ => ⟨rfl, rfl⟩, fun _ => rfl, fun _ => rfl⟩

def plainHistory : List Call :=
  [.spawn 7 [] 0, .spawn 8 [1] 0, .deliver 0 1, .destroy 2, .deliver 0 2, .deliver 0 0]

theorem lateJoiner_sees_same_plain : ∃ s', Run.exec step bridged (plainHistory ++ .join 1 ::
    .sendFullState 1 [spawnMessage 1 7 []] :: [.deliver 1 3]) = some s' ∧ SeesSame s' 0 1 := by
  obtain ⟨s', h, hs'⟩ := (Option.any_eq_true (fun s' => (s'.client 0).inFlight.isEmpty &&
      (s'.client 1).inFlight.isEmpty && decide (Bare s'.server (opened bridged plainHistory)))
    (Run.exec step bridged (plainHistory ++ .join 1 :: .sendFullState 1 [spawnMessage 1 7 []] ::
      [.deliver 1 3]))).mp (by decide +kernel)
  simp only [Bool.and_eq_true, List.isEmpty_iff, decide_eq_true_eq] at hs'
  refine ⟨s', h, (lateJoiner_sees_same_iff _ _ 0 1 _ _ _ bridged_fresh rfl rfl (fun _ => rfl) ?_ ?_ h
    hs'.1).mpr hs'.2⟩
  · intro call hcall
    simp only [plainHistory, List.mem_cons, List.not_mem_nil, or_false] at hcall
    rcases hcall with rfl | rfl | rfl | rfl | rfl | rfl <;> trivial
  · intro call hcall
    rw [List.mem_singleton.mp hcall]
    trivial

/-- The late joiner is not told the initial data, and neither client is told the owner. -/
theorem lateJoiner_differs :
    (∃ s', Run.exec step bridged ([.spawn 7 [1] 0, .deliver 0 1] ++ .join 1 ::
        .sendFullState 1 [spawnMessage 1 7 []] :: [.deliver 1 2]) = some s' ∧
      (s'.client 0).inFlight = [] ∧ (s'.client 1).inFlight = [] ∧ ¬SeesSame s' 0 1) ∧
    ∃ s', Run.exec step bridged ([.spawn 7 [] 0, .deliver 0 1, .setOwner 1 5] ++ .join 1 ::
        .sendFullState 1 [spawnMessage 1 7 []] :: [.deliver 1 2]) = some s' ∧
      (s'.client 0).inFlight = [] ∧ (s'.client 1).inFlight = [] ∧ ¬SeesSame s' 0 1 := by
  have hdiffers : ∀ run, (Run.exec step bridged run).any (fun s' => (s'.client 0).inFlight.isEmpty &&
      (s'.client 1).inFlight.isEmpty && decide (¬SeesSame s' 0 1)) = true →
      ∃ s', Run.exec step bridged run = some s' ∧ (s'.client 0).inFlight = [] ∧
        (s'.client 1).inFlight = [] ∧ ¬SeesSame s' 0 1 := by
    intro run h
    obtain ⟨s', hs', hall⟩ := (Option.any_eq_true _ _).mp h
    simp only [Bool.and_eq_true, List.isEmpty_iff, decide_eq_true_eq] at hall
    exact ⟨s', hs', hall.1.1, hall.1.2, hall.2⟩
  exact ⟨hdiffers _ (by decide +kernel), hdiffers _ (by decide +kernel)⟩

end EntityNet

end CampelloNet
