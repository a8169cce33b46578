import CampelloNet.Entity.Tables

/-!
# A server's entities reach its clients

A step is a call at the server, a client that joins, the sending of the full state to a client, or the
arrival of the oldest message on its way to a client. Once a client is up to date, what it will hold
after all that is on the way is what the server holds.
-/

namespace CampelloNet

open Lib NetworkEntityManager

/-- A client, the messages on the way to it and the calls it has made into the game. -/
structure EntityClient where
  manager : NetworkEntityManager := {}
  connected : Bool := false
  inFlight : List Bytes := []
  calls : List AppCall := []

structure EntityNet where
  server : NetworkEntityManager := {}
  client : ℕ → EntityClient := fun _ => {}

namespace EntityNet

inductive Call
  | spawn (prefabId : PrefabId) (initData : Bytes) (handle : EntityHandle)
  | destroy (id : NetworkId)
  | setOwner (id : NetworkId) (owner : ClientId)
  | join (i : ℕ)
  | sendFullState (i : ℕ) (order : List Bytes)
  | deliver (i : ℕ) (handle : EntityHandle)

/-- Messages to a client that is connected. -/
def push (messages : List Bytes) (c : EntityClient) : EntityClient :=
  if c.connected then { c with inFlight := c.inFlight ++ messages } else c

/-- `net.broadcast` -/
def broadcast (message : Bytes) (s : EntityNet) : EntityNet :=
  { s with client := fun i => push [message] (s.client i) }

def setClient (i : ℕ) (c : EntityClient) (s : EntityNet) : EntityNet :=
  { s with client := Function.update s.client i c }

theorem client_setClient (i : ℕ) (c : EntityClient) (s : EntityNet) : (s.setClient i c).client i = c := by
  simp [setClient]

/-- `spawn` with a `net` argument. -/
def spawn (prefabId : PrefabId) (initData : Bytes) (handle : EntityHandle) (s : EntityNet) :
    EntityNet :=
  let (server, _, id) := s.server.spawn prefabId initData handle
  let s' := { s with server := server }
  if s.server.full then s' else s'.broadcast (spawnMessage id prefabId initData)

/-- `destroy` with a `net` argument. -/
def destroy (id : NetworkId) (s : EntityNet) : EntityNet :=
  let s' := { s with server := (s.server.destroy id).1 }
  if (s.server.find id).isSome then s'.broadcast (destroyMessage id) else s'

def sendFullState (i : ℕ) (order : List Bytes) (s : EntityNet) : Option EntityNet :=
  if order.Perm s.server.fullStateMessages then some (s.setClient i (push order (s.client i))) else none

def deliver (i : ℕ) (handle : EntityHandle) (s : EntityNet) : Option EntityNet :=
  match (s.client i).inFlight with
  | [] => none
  | message :: rest =>
    let (manager, calls) := (s.client i).manager.receive message handle
    some (s.setClient i { s.client i with
      manager := manager
      inFlight := rest
      calls := (s.client i).calls ++ calls })

def step (s : EntityNet) : Call → Option EntityNet
  | .spawn prefabId initData handle => some (s.spawn prefabId initData handle)
  | .destroy id => some (s.destroy id)
  | .setOwner id owner => some { s with server := s.server.setOwner id owner }
  | .join i => some (s.setClient i { s.client i with connected := true })
  | .sendFullState i order => s.sendFullState i order
  | .deliver i handle => s.deliver i handle

/-- The change of the server's table that a call announces. -/
def update (s : EntityNet) : Call → List Update
  | .spawn prefabId initData _ =>
    if s.server.full then [] else [.enter s.server.nextId (prefabId, initData)]
  | .destroy id => if (s.server.find id).isSome then [.leave id] else []
  | _ => []

/-- A spawn does not take the id of an entity that exists. -/
def Unused (s : EntityNet) : Call → Prop
  | .spawn _ _ _ => s.server.full = true ∨ s.server.find s.server.nextId = none
  | _ => True

instance (s : EntityNet) : DecidablePred s.Unused
  | .spawn _ _ _ => inferInstanceAs (Decidable (_ ∨ _))
  | .destroy _ | .setOwner _ _ | .join _ | .sendFullState _ _ | .deliver _ _ => isTrue trivial

/-- Nothing has been spawned or sent yet, and the clients have no limit. -/
structure Fresh (s : EntityNet) : Prop where
  server : s.server.entities = []
  nextId : s.server.nextId = 1
  clients : ∀ i, (s.client i).manager.entities = [] ∧ (s.client i).manager.maxEntities = 0
  inFlight : ∀ i, (s.client i).inFlight = []
  calls : ∀ i, (s.client i).calls = []

/-- The client is connected from the start, or its full state was sent to it after it had joined. -/
def CaughtUp (s : EntityNet) (i : ℕ) (calls : List Call) : Prop :=
  (s.client i).connected = true ∨ ∃ before order after t, calls = before ++ .sendFullState i order :: after ∧
    Run.exec step s before = some t ∧ (t.client i).connected = true

variable {s t : EntityNet} {i : ℕ} {call : Call} {messages : List Bytes}

theorem spawn_full {prefabId : PrefabId} {initData : Bytes} {handle : EntityHandle}
    (hfull : s.server.full = true) : s.spawn prefabId initData handle = s := by
  unfold EntityNet.spawn NetworkEntityManager.spawn
  rw [if_pos hfull]
  exact if_pos hfull

theorem spawn_room {prefabId : PrefabId} {initData : Bytes} {handle : EntityHandle}
    (hfull : ¬s.server.full = true) : s.spawn prefabId initData handle =
      ({ s with server := (s.server.spawn prefabId initData handle).1 } : EntityNet).broadcast
        (spawnMessage s.server.nextId prefabId initData) := by
  unfold EntityNet.spawn NetworkEntityManager.spawn
  rw [if_neg hfull]
  exact if_neg hfull

theorem server_destroy (id : NetworkId) : (s.destroy id).server = (s.server.destroy id).1 := by
  unfold EntityNet.destroy
  dsimp only
  split_ifs <;> rfl

theorem sendFullState_eq_some {order : List Bytes} : s.sendFullState i order = some t ↔
    order.Perm s.server.fullStateMessages ∧ s.setClient i (push order (s.client i)) = t := by
  unfold sendFullState
  split_ifs with h <;> simp [h]

theorem deliver_eq_some {handle : EntityHandle} (h : s.deliver i handle = some t) :
    ∃ message rest, (s.client i).inFlight = message :: rest ∧ t = s.setClient i { s.client i with
      manager := ((s.client i).manager.receive message handle).1
      inFlight := rest
      calls := (s.client i).calls ++ ((s.client i).manager.receive message handle).2 } := by
  unfold deliver at h
  split at h
  · cases h
  · rename_i message rest hqueue
    exact ⟨message, rest, hqueue, (Option.some.inj h).symm⟩

/-! ### What a step does to a client -/

/-- What a step does to one client: nothing, joining, messages for it if it is connected, or the arrival
of the message that was sent first. -/
inductive ClientStep (joins : Prop) (messages : List Bytes) (c : EntityClient) : EntityClient → Prop
  | push : ClientStep joins messages c (push messages c)
  | join : joins → messages = [] → ClientStep joins messages c { c with connected := true }
  | deliver {message : Bytes} {rest : List Bytes} (handle : EntityHandle) : messages = [] →
      c.inFlight = message :: rest → ClientStep joins messages c { c with
        manager := (c.manager.receive message handle).1
        inFlight := rest
        calls := c.calls ++ (c.manager.receive message handle).2 }

/-- The messages that a call sends to client `i`. -/
def sent (s : EntityNet) (i : ℕ) : Call → List Bytes
  | .sendFullState j order => if i = j then order else []
  | call => (s.update call).map message

theorem push_nil (c : EntityClient) : push [] c = c := by
  unfold push
  split_ifs
  · rw [List.append_nil]
  · rfl

theorem clientStep_same {joins : Prop} (c : EntityClient) : ClientStep joins [] c c := by
  have hpush : ClientStep joins [] c (push [] c) := .push
  rwa [push_nil] at hpush

theorem clientStep (h : step s call = some t) (i : ℕ) :
    ClientStep (call = .join i) (s.sent i call) (s.client i) (t.client i) := by
  cases call with
  | spawn prefabId initData handle =>
    cases h
    unfold sent update
    dsimp only
    by_cases hfull : s.server.full = true
    · rw [if_pos hfull, spawn_full hfull]
      exact clientStep_same _
    · rw [if_neg hfull, spawn_room hfull]
      exact .push
  | destroy id =>
    cases h
    unfold sent update EntityNet.destroy
    dsimp only
    by_cases hfind : (s.server.find id).isSome = true
    · rw [if_pos hfind, if_pos hfind]
      exact .push
    · rw [if_neg hfind, if_neg hfind]
      exact clientStep_same _
  | setOwner id owner =>
    cases h
    exact clientStep_same _
  | join j =>
    cases h
    show ClientStep _ [] _ (Function.update s.client j _ i)
    by_cases hij : i = j
    · subst hij
      rw [Function.update_self]
      exact .join rfl rfl
    · rw [Function.update_of_ne hij]
      exact clientStep_same _
  | sendFullState j order =>
    obtain ⟨-, h⟩ := sendFullState_eq_some.mp h
    subst h
    show ClientStep _ (if i = j then order else []) _ (Function.update s.client j _ i)
    split_ifs with hij
    · subst hij
      rw [Function.update_self]
      exact .push
    · rw [Function.update_of_ne hij]
      exact clientStep_same _
  | deliver j handle =>
    obtain ⟨message, rest, hqueue, h⟩ := deliver_eq_some h
    subst h
    show ClientStep _ [] _ (Function.update s.client j _ i)
    by_cases hij : i = j
    · subst hij
      rw [Function.update_self]
      exact .deliver handle rfl hqueue
    · rw [Function.update_of_ne hij]
      exact clientStep_same _

section
variable {joins : Prop} {c c' : EntityClient} {updates : List Update} {α β : Type*}
  {apply : β → Update → β} {R R' : α → β → Prop}
  {a a' : α}

theorem ClientStep.connected (h : ClientStep joins messages c c') (hc : c.connected = true) :
    c'.connected = true := by
  cases h with
  | push =>
    rw [EntityNet.push, if_pos hc]
    exact hc
  | join => rfl
  | deliver => exact hc

/-- A client changes only with a message that it takes. -/
theorem ClientStep.manager {I : NetworkEntityManager → Prop} (h : ClientStep joins messages c c')
    (hqueue : ∃ queue : List Update, c.inFlight = queue.map message) (hc : I c.manager)
    (htake : ∀ u handle, I (c.manager.receive (message u) handle).1) : I c'.manager := by
  cases h with
  | push =>
    unfold EntityNet.push
    split_ifs <;> exact hc
  | join => exact hc
  | deliver handle hnil hmessage =>
    obtain ⟨queue, hqueue⟩ := hqueue
    rw [hmessage] at hqueue
    obtain ⟨u, rest, rfl, rfl, hrest⟩ := List.map_eq_cons_iff.mp hqueue.symm
    exact htake u handle

/-- What a client will be after all that is on the way changes only by what is sent. -/
theorem ClientStep.trails (view : NetworkEntityManager → List AppCall → β)
    (h : ClientStep joins (updates.map message) c c') (hc : c.connected = true)
    (htake : ∀ u handle, view (c.manager.receive (message u) handle).1
      (c.calls ++ (c.manager.receive (message u) handle).2) = apply (view c.manager c.calls) u)
    (htrails : ∃ queue, c.inFlight = queue.map message ∧
      Trails apply R a (view c.manager c.calls) queue)
    (hR : ∀ b, R a b → R' a' (updates.foldl apply b)) :
    ∃ queue, c'.inFlight = queue.map message ∧
      Trails apply R' a' (view c'.manager c'.calls) queue := by
  obtain ⟨queue, hqueue, htrails⟩ := htrails
  cases h with
  | push =>
    rw [EntityNet.push, if_pos hc]
    refine ⟨queue ++ updates, ?_, htrails.send hR⟩
    rw [List.map_append, ← hqueue]
  | join hjoins hnil =>
    rw [List.map_eq_nil_iff.mp hnil] at hR
    exact ⟨queue, hqueue, hR _ htrails⟩
  | deliver handle hnil hmessage =>
    rw [List.map_eq_nil_iff.mp hnil] at hR
    rw [hmessage] at hqueue
    obtain ⟨u, rest, rfl, rfl, hrest⟩ := List.map_eq_cons_iff.mp hqueue.symm
    refine ⟨rest, hrest.symm, ?_⟩
    dsimp only
    rw [htake u handle]
    exact hR _ htrails.take

end

/-! ### What a step does to the server -/

theorem prefabs_server (h : step s call = some t) (hunused : s.Unused call) :
    t.server.prefabs = (s.update call).foldl (fun table u => table.edit (u.map Prod.fst))
      s.server.prefabs := by
  cases call with
  | spawn prefabId initData handle =>
    cases h
    unfold update
    dsimp only
    by_cases hfull : s.server.full = true
    · rw [if_pos hfull, spawn_full hfull]
      rfl
    · rw [if_neg hfull, spawn_room hfull]
      have hnone : s.server.prefabs s.server.nextId = none := by
        unfold prefabs
        rw [hunused.resolve_left hfull]
        rfl
      funext k
      show (s.server.spawn prefabId initData handle).1.prefabs k =
        s.server.prefabs.enter s.server.nextId prefabId k
      rw [prefabs_spawn (by simpa using hfull), Table.enter_of_none hnone]
  | destroy id =>
    cases h
    unfold update
    dsimp only
    rw [server_destroy]
    split_ifs with hfind
    · exact prefabs_destroy
    · unfold NetworkEntityManager.destroy
      rw [Option.not_isSome_iff_eq_none.mp hfind]
      rfl
  | setOwner id owner =>
    cases h
    exact prefabs_setOwner
  | join j =>
    cases h
    rfl
  | sendFullState j order =>
    obtain ⟨-, h⟩ := sendFullState_eq_some.mp h
    subst h
    rfl
  | deliver j handle =>
    obtain ⟨message, rest, -, h⟩ := deliver_eq_some h
    subst h
    rfl

theorem distinct_server (h : step s call = some t) (hd : s.server.Distinct) : t.server.Distinct := by
  cases call with
  | spawn prefabId initData handle =>
    cases h
    by_cases hfull : s.server.full = true
    · rw [spawn_full hfull]
      exact hd
    · rw [spawn_room hfull]
      exact distinct_spawn hd
  | destroy id =>
    cases h
    rw [server_destroy]
    exact distinct_destroy hd
  | setOwner id owner =>
    cases h
    exact distinct_setOwner hd
  | join j =>
    cases h
    exact hd
  | sendFullState j order =>
    obtain ⟨-, h⟩ := sendFullState_eq_some.mp h
    subst h
    exact hd
  | deliver j handle =>
    obtain ⟨message, rest, -, h⟩ := deliver_eq_some h
    subst h
    exact hd

/-! ### The ids -/

def IsSpawn : Call → Bool
  | .spawn _ _ _ => true
  | _ => false

/-- The first `n` ids have been handed out. -/
structure Issued (n : ℕ) (s : EntityNet) : Prop where
  nextId : s.server.nextId.toNat = n + 1
  known : ∀ ent ∈ s.server.entities, ent.netId.toNat ≤ n

theorem Issued.unused {n : ℕ} (hi : Issued n s) : s.server.find s.server.nextId = none := by
  refine List.find?_eq_none.mpr fun ent hent hid => ?_
  have hle := hi.known ent hent
  have hkey : ent.netId = s.server.nextId := by simpa using hid
  rw [hkey, hi.nextId] at hle
  omega

theorem issued_step {n : ℕ} (hi : Issued n s) (h : step s call = some t)
    (hn : IsSpawn call = true → n + 2 < 2 ^ 64) :
    Issued (if IsSpawn call ∧ s.server.full = false then n + 1 else n) t := by
  cases call with
  | spawn prefabId initData handle =>
    cases h
    by_cases hfull : s.server.full = true
    · rw [spawn_full hfull, if_neg (by simp [hfull])]
      exact hi
    · rw [spawn_room hfull, if_pos ⟨rfl, by simpa using hfull⟩]
      obtain ⟨ent, hid, -, -, hput⟩ := @create_fst { s.server with nextId := s.server.nextId + 1 }
        s.server.nextId prefabId initData handle
      have hserver : (s.server.spawn prefabId initData handle).1 =
          NetworkEntityManager.put ent { s.server with nextId := s.server.nextId + 1 } := by
        rw [spawn_fst, if_neg hfull, hput]
      constructor
      · show (s.server.spawn prefabId initData handle).1.nextId.toNat = _
        rw [hserver]
        show (s.server.nextId + 1).toNat = _
        rw [UInt64.toNat_add, hi.nextId]
        exact Nat.mod_eq_of_lt (hn rfl)
      · intro e he
        replace he : e ∈ (s.server.spawn prefabId initData handle).1.entities := he
        rw [hserver] at he
        rcases mem_upsert he with rfl | he
        · rw [hid, hi.nextId]
        · exact (hi.known e he).trans (Nat.le_succ n)
  | destroy id =>
    cases h
    refine ⟨?_, fun ent hent => hi.known ent ?_⟩
    · rw [server_destroy]
      unfold NetworkEntityManager.destroy
      split <;> exact hi.nextId
    · rw [server_destroy] at hent
      unfold NetworkEntityManager.destroy at hent
      split at hent
      · exact hent
      · exact List.mem_of_mem_filter hent
  | setOwner id owner =>
    cases h
    rw [if_neg (by simp [IsSpawn])]
    constructor
    · show (s.server.setOwner id owner).nextId.toNat = _
      unfold setOwner
      split <;> exact hi.nextId
    · intro ent hent
      replace hent : ent ∈ (s.server.setOwner id owner).entities := hent
      unfold setOwner at hent
      split at hent
      · exact hi.known ent hent
      · rename_i old hold
        rcases mem_upsert hent with rfl | hent
        · exact hi.known old (lookup_mem hold)
        · exact hi.known ent hent
  | join j =>
    cases h
    exact ⟨hi.nextId, hi.known⟩
  | sendFullState j order =>
    obtain ⟨-, rfl⟩ := sendFullState_eq_some.mp h
    exact ⟨hi.nextId, hi.known⟩
  | deliver j handle =>
    obtain ⟨message, rest, -, rfl⟩ := deliver_eq_some h
    exact ⟨hi.nextId, hi.known⟩

/-- It takes 2^64 spawns to hand out an id twice. -/
theorem unused_of_issued {n : ℕ} {run : List Call} (hi : Issued n s)
    (hn : n + run.countP IsSpawn + 1 < 2 ^ 64) : Run.Admits step Unused s run := by
  induction run generalizing s n with
  | nil => trivial
  | cons call run ih =>
    rw [List.countP_cons] at hn
    refine ⟨?_, fun t h => ?_⟩
    · cases call with
      | spawn prefabId initData handle => exact .inr hi.unused
      | _ => trivial
    · by_cases hcall : IsSpawn call = true
      · rw [if_pos hcall] at hn
        refine ih (issued_step hi h fun _ => by omega) ?_
        split_ifs <;> omega
      · rw [if_neg hcall] at hn
        refine ih (issued_step hi h fun hspawn => absurd hspawn hcall) ?_
        rw [if_neg fun hspawn => hcall hspawn.1]
        exact hn

theorem unused_of_short {run : List Call} (hfresh : s.Fresh) (hn : run.countP IsSpawn + 1 < 2 ^ 64) :
    Run.Admits step Unused s run :=
  unused_of_issued ⟨by rw [hfresh.nextId]; rfl, by simp [hfresh.server]⟩ (by omega)

/-! ### The client and the messages on the way to it -/

/-- A client's table after a message. -/
def follow (table : Table NetworkId PrefabId) (u : Update) : Table NetworkId PrefabId :=
  table.edit (u.map Prod.fst)

/-- The server's table stands in `R` to what the client's will be after all that is on the way. -/
structure Follows (R : Table NetworkId PrefabId → Table NetworkId PrefabId → Prop) (s : EntityNet)
    (i : ℕ) : Prop where
  connected : (s.client i).connected = true
  distinct : (s.client i).manager.Distinct
  limit : (s.client i).manager.maxEntities = 0
  trails : ∃ queue : List Update, (s.client i).inFlight = queue.map message ∧
    Trails follow R s.server.prefabs (s.client i).manager.prefabs queue

/-- A client that has not joined. -/
structure Outside (s : EntityNet) (i : ℕ) : Prop where
  connected : (s.client i).connected = false
  entities : (s.client i).manager.entities = []
  limit : (s.client i).manager.maxEntities = 0
  inFlight : (s.client i).inFlight = []
  calls : (s.client i).calls = []

variable {R R' : Table NetworkId PrefabId → Table NetworkId PrefabId → Prop}

/-- The step lemma: the relation need only be kept by what the call sends. -/
theorem follows_step (hf : Follows R s i) (h : step s call = some t) (updates : List Update)
    (hsent : s.sent i call = updates.map message)
    (hR : ∀ table, R s.server.prefabs table → R' t.server.prefabs (updates.foldl follow table)) :
    Follows R' t i := by
  have hstep := clientStep h i
  rw [hsent] at hstep
  have hqueue : ∃ queue : List Update, (s.client i).inFlight = queue.map message :=
    hf.trails.imp fun queue h => h.1
  refine ⟨hstep.connected hf.connected, ?_, ?_, ?_⟩
  · exact hstep.manager hqueue hf.distinct fun u _ => distinct_receive u hf.distinct
  · refine hstep.manager (I := fun em => em.maxEntities = 0) hqueue hf.limit fun u _ => ?_
    exact (maxEntities_receive u).trans hf.limit
  · exact hstep.trails (fun em _ => em.prefabs) hf.connected
      (fun u _ => prefabs_receive u hf.limit) hf.trails hR

/-- What is sent, other than the full state, is the change of the server's table. -/
theorem sent_eq (hcall : ∀ order, call ≠ .sendFullState i order) :
    s.sent i call = (s.update call).map message := by
  cases call with
  | sendFullState j order =>
    have hij : i ≠ j := fun heq => hcall order (heq ▸ rfl)
    exact if_neg hij
  | _ => rfl

theorem within_update (h : step s call = some t) (hunused : s.Unused call)
    {table : Table NetworkId PrefabId} (hw : Table.Within s.server.prefabs table) :
    Table.Within t.server.prefabs ((s.update call).foldl follow table) := by
  rw [prefabs_server h hunused]
  cases call with
  | spawn prefabId initData handle =>
    unfold update
    dsimp only
    split_ifs with hfull
    · exact hw
    · have hnone : s.server.prefabs s.server.nextId = none := by
        unfold prefabs
        rw [hunused.resolve_left hfull]
        rfl
      exact hw.enter hnone
  | destroy id =>
    unfold update
    dsimp only
    split_ifs
    · exact hw.leave
    · exact hw
  | _ => exact hw

/-- The messages of the full state, in any order, are those of the entries of the server's table. -/
theorem fullState_entries (hd : s.server.Distinct) {order : List Bytes}
    (horder : order.Perm s.server.fullStateMessages) : ∃ l : List (NetworkId × PrefabId),
    order = (l.map fun e => .enter e.1 (e.2, [])).map message ∧
      ∀ k a, (k, a) ∈ l ↔ s.server.prefabs k = some a := by
  have hmessages : s.server.fullStateMessages =
      (s.server.entities.map fun ent => (ent.netId, ent.prefabId)).map
        fun e => message (.enter e.1 (e.2, [])) := by
    rw [List.map_map]
    rfl
  have hsplit : Relation.Comp (fun a b => a = b.map fun e => message (.enter e.1 (e.2, []))) List.Perm
      order (s.server.entities.map fun ent => (ent.netId, ent.prefabId)) := by
    rw [List.eq_map_comp_perm]
    show order.Perm _
    rw [← hmessages]
    exact horder
  obtain ⟨l, hl, hperm⟩ := hsplit
  refine ⟨l, by rw [hl, List.map_map]; rfl, fun k a => ?_⟩
  rw [← mem_pairs hd, hperm.mem_iff]
  exact List.mem_toFinset.symm

/-- The full state brings a client up to date that knows nothing of its own. -/
theorem follow_fullState (hd : s.server.Distinct) {order : List Bytes}
    (horder : order.Perm s.server.fullStateMessages) : ∃ updates : List Update,
    order = updates.map message ∧ ∀ table, Table.Within s.server.prefabs table →
      s.server.prefabs = updates.foldl follow table := by
  obtain ⟨l, hl, hentry⟩ := fullState_entries hd horder
  refine ⟨_, hl, fun table hw => ?_⟩
  rw [← hw.caught_up hentry, List.foldl_map, List.foldl_map]
  rfl

theorem server_sendFullState {order : List Bytes} (h : step s (.sendFullState i order) = some t) :
    t.server = s.server := by
  obtain ⟨-, rfl⟩ := sendFullState_eq_some.mp h
  rfl

/-- A client that is sent the full state is up to date from then on. -/
theorem Follows.fullState {order : List Bytes} (hf : Follows Table.Within s i)
    (h : step s (.sendFullState i order) = some t) (hd : s.server.Distinct) : Follows Eq t i := by
  obtain ⟨updates, hupdates, hcaught⟩ := follow_fullState hd (sendFullState_eq_some.mp h).1
  refine follows_step hf h updates ((if_pos rfl).trans hupdates) ?_
  rw [server_sendFullState h]
  exact hcaught

theorem Follows.within (hf : Follows Eq s i) : Follows Table.Within s i := by
  obtain ⟨queue, hqueue, htrails⟩ := hf.trails
  refine ⟨hf.connected, hf.distinct, hf.limit, queue, hqueue, ?_⟩
  unfold Trails at htrails ⊢
  rw [← htrails]
  exact .refl

/-- The client has not joined, or it knows nothing of its own. -/
def Behind (s : EntityNet) (i : ℕ) : Prop :=
  s.server.Distinct ∧ (Outside s i ∨ Follows Table.Within s i)

def Level (s : EntityNet) (i : ℕ) : Prop := s.server.Distinct ∧ Follows Eq s i

/-- A client that has not joined stays as it is until it joins. -/
theorem client_outside (ho : Outside s i) (h : step s call = some t) : t.client i = s.client i ∨
    call = .join i ∧ t.client i = { s.client i with connected := true } := by
  have hstep := clientStep h i
  generalize hc : t.client i = c at hstep
  cases hstep with
  | push => exact .inl (by rw [push, if_neg (by simp [ho.connected])])
  | join hjoin => exact .inr ⟨hjoin, rfl⟩
  | deliver handle hnil hmessage =>
    rw [ho.inFlight] at hmessage
    cases hmessage

theorem Outside.of_client (ho : Outside s i) (hc : t.client i = s.client i) : Outside t i := by
  obtain ⟨hconnected, hentities, hlimit, hinFlight, hcalls⟩ := ho
  rw [← hc] at hconnected hentities hlimit hinFlight hcalls
  exact ⟨hconnected, hentities, hlimit, hinFlight, hcalls⟩

theorem outside_step (ho : Outside s i) (h : step s call = some t) :
    Outside t i ∨ Follows Table.Within t i := by
  rcases client_outside ho h with hc | ⟨-, hc⟩
  · exact .inl (ho.of_client hc)
  · right
    refine ⟨?_, ?_, ?_, [], ?_, ?_⟩ <;> rw [hc]
    · simp [Distinct, ho.entities]
    · exact ho.limit
    · exact ho.inFlight
    · intro k a ha
      simp [prefabs, find, ho.entities] at ha

theorem behind_step (hb : Behind s i) (h : step s call = some t) (hunused : s.Unused call) :
    Behind t i := by
  refine ⟨distinct_server h hb.1, ?_⟩
  rcases hb.2 with ho | hf
  · exact outside_step ho h
  · right
    by_cases hcall : ∃ order, call = .sendFullState i order
    · obtain ⟨order, rfl⟩ := hcall
      exact (hf.fullState h hb.1).within
    · exact follows_step hf h _ (sent_eq fun order heq => hcall ⟨order, heq⟩) fun table =>
        within_update h hunused

theorem level_step (hl : Level s i) (h : step s call = some t) (hunused : s.Unused call) :
    Level t i := by
  refine ⟨distinct_server h hl.1, ?_⟩
  by_cases hcall : ∃ order, call = .sendFullState i order
  · obtain ⟨order, rfl⟩ := hcall
    exact hl.2.within.fullState h hl.1
  · refine follows_step hl.2 h _ (sent_eq fun order heq => hcall ⟨order, heq⟩) ?_
    rintro table rfl
    exact prefabs_server h hunused

theorem Fresh.outside (hfresh : s.Fresh) (hc : (s.client i).connected = false) : Outside s i :=
  ⟨hc, (hfresh.clients i).1, (hfresh.clients i).2, hfresh.inFlight i, hfresh.calls i⟩

theorem Fresh.distinct (hfresh : s.Fresh) : s.server.Distinct := by
  simp [Distinct, hfresh.server]

theorem Fresh.level (hfresh : s.Fresh) (hc : (s.client i).connected = true) : Level s i := by
  obtain ⟨hentities, hlimit⟩ := hfresh.clients i
  refine ⟨hfresh.distinct, hc, ?_, hlimit, [], hfresh.inFlight i, ?_⟩
  · simp [Distinct, hentities]
  · show s.server.prefabs = (s.client i).manager.prefabs
    unfold prefabs find
    rw [hfresh.server, hentities]

theorem level_of_caughtUp {run : List Call} (hfresh : s.Fresh) (h : Run.exec step s run = some t)
    (hunused : Run.Admits step Unused s run) (hcaught : CaughtUp s i run) : Level t i := by
  rcases hcaught with hc | ⟨before, order, after, u, rfl, hbefore, hc⟩
  · exact (Run.of_exec run h hunused).invariant (hfresh.level hc) fun _ _ _ hl hok hs => level_step hl hs hok
  · obtain ⟨hub, hua⟩ := hunused.append
    have hbehind : Behind u i := by
      refine (Run.of_exec before hbefore hub).invariant ⟨hfresh.distinct, ?_⟩
        fun _ _ _ hb hok hs => behind_step hb hs hok
      by_cases hcs : (s.client i).connected = true
      · exact .inr (hfresh.level hcs).2.within
      · exact .inl (hfresh.outside (by simpa using hcs))
    have hfollows : Follows Table.Within u i := hbehind.2.resolve_left fun ho => by
      rw [ho.connected] at hc
      cases hc
    rw [Run.exec_append, hbefore, Option.bind_some] at h
    obtain ⟨v, hv, h⟩ := Option.bind_eq_some_iff.mp h
    have hlevel : Level v i := ⟨distinct_server hv hbehind.1, hfollows.fullState hv hbehind.1⟩
    exact (Run.of_exec after h ((hua u hbefore).2 v hv)).invariant hlevel
      fun _ _ _ hl hok hs => level_step hl hs hok

/-- In every run in which no spawn takes the id of an entity that exists, a client that is connected
from the start, or that was sent the full state after it joined, holds the same entities with the same
prefabs as the server whenever no message is on the way to it. -/
theorem entityTables_converge (s s' : EntityNet) (run : List Call) (hfresh : s.Fresh)
    (h : Run.exec step s run = some s') (hunused : Run.Admits step Unused s run) (i : ℕ)
    (hcaught : CaughtUp s i run) (hquiet : (s'.client i).inFlight = []) :
    (s'.client i).manager.pairs = s'.server.pairs := by
  obtain ⟨hd, hf⟩ := level_of_caughtUp hfresh h hunused hcaught
  obtain ⟨queue, hqueue, htrails⟩ := hf.trails
  rw [hquiet] at hqueue
  rw [List.map_eq_nil_iff.mp hqueue.symm] at htrails
  exact pairs_eq hf.distinct hd (trails_nil.mp htrails).symm

/-! ### A late joiner -/

/-- A server and a client that is connected from the start; the others may join. -/
def start : EntityNet := { client := fun i => { connected := i = 0 } }

theorem start_fresh : start.Fresh := ⟨rfl, rfl, fun _ => ⟨rfl, rfl⟩, fun _ => rfl, fun _ => rfl⟩

def lateRun : List Call :=
  [.spawn 7 [1, 2] 0, .spawn 8 [] 0, .join 1, .spawn 9 [] 0, .destroy 1]

/-- An entity is spawned and one destroyed between the joining and the full state, which is sent in
another order than that of the spawns. -/
theorem entityTables_converge_late : ∃ s', Run.exec step start (lateRun ++
    .sendFullState 1 [spawnMessage 3 9 [], spawnMessage 2 8 []] :: List.replicate 4 (.deliver 1 0)) =
      some s' ∧ (s'.client 1).manager.pairs = s'.server.pairs := by
  obtain ⟨s', h, hquiet⟩ := (Option.any_eq_true (fun s' => (s'.client 1).inFlight.isEmpty)
    (Run.exec step start (lateRun ++ .sendFullState 1 [spawnMessage 3 9 [], spawnMessage 2 8 []] ::
      List.replicate 4 (.deliver 1 0)))).mp (by decide +kernel)
  refine ⟨s', h, entityTables_converge _ _ _ start_fresh h (by decide +kernel) 1 (.inr ?_)
    (List.isEmpty_iff.mp hquiet)⟩
  obtain ⟨t, ht, hc⟩ := (Option.any_eq_true (fun t => (t.client 1).connected)
    (Run.exec step start lateRun)).mp (by decide +kernel)
  exact ⟨lateRun, _, _, t, rfl, ht, hc⟩

/-! ### Ids that are handed out again -/

/-- The server and the first client hold entity 1 of prefab 1, and the server will hand out `id`. -/
structure Holding (id : NetworkId) (s : EntityNet) : Prop where
  server : s.server = { entities := [{ netId := 1, prefabId := 1 }], nextId := id }
  client : s.client 0 = { manager := { entities := [{ netId := 1, prefabId := 1 }] }, connected := true }

/-- An entity that comes and goes. -/
def round (id : NetworkId) : List Call := [.spawn 2 [] 0, .destroy id, .deliver 0 0, .deliver 0 0]

def rounds : ℕ → List Call
  | 0 => []
  | n + 1 => rounds n ++ round (UInt64.ofNat (n + 2))

theorem holding_round {id : NetworkId} (hid : id ≠ 1) (hs : Holding id s) :
    ∃ t, Run.exec step s (round id) = some t ∧ Holding (id + 1) t := by
  obtain ⟨server, client⟩ := s
  obtain ⟨hserver, hclient⟩ := hs
  subst hserver
  dsimp only at hclient
  have hid' : (1 : UInt64) ≠ id := fun h => hid h.symm
  have hspawn : NetworkEntityManager.spawn 2 [] 0 { entities := [⟨1, 1, 0, 0⟩], nextId := id } =
      ({ entities := [⟨1, 1, 0, 0⟩, ⟨id, 2, 0, 0⟩], nextId := id + 1 }, [], id) := by
    simp [NetworkEntityManager.spawn, full, create, put, upsert, hid']
  have hcreate : NetworkEntityManager.receive (message (.enter id (2, []))) 0
      { entities := [⟨1, 1, 0, 0⟩] } = ({ entities := [⟨1, 1, 0, 0⟩, ⟨id, 2, 0, 0⟩] }, []) := by
    rw [receive_enter]
    simp [full, create, put, upsert, hid', find, lookup_cons]
  have hdestroy : ∀ n, NetworkEntityManager.destroy id
      { entities := [⟨1, 1, 0, 0⟩, ⟨id, 2, 0, 0⟩], nextId := n } =
        ({ entities := [⟨1, 1, 0, 0⟩], nextId := n }, []) := by
    intro n
    simp [NetworkEntityManager.destroy, find, lookup_cons, remove, erase, hid']
  have hspawned : EntityNet.spawn 2 [] 0 ⟨{ entities := [⟨1, 1, 0, 0⟩], nextId := id }, client⟩ =
      ⟨{ entities := [⟨1, 1, 0, 0⟩, ⟨id, 2, 0, 0⟩], nextId := id + 1 },
        fun i => push [message (.enter id (2, []))] (client i)⟩ := by
    unfold EntityNet.spawn
    rw [hspawn]
    rfl
  have hdestroyed : EntityNet.destroy id
      ⟨{ entities := [⟨1, 1, 0, 0⟩, ⟨id, 2, 0, 0⟩], nextId := id + 1 },
        fun i => push [message (.enter id (2, []))] (client i)⟩ =
      ⟨{ entities := [⟨1, 1, 0, 0⟩], nextId := id + 1 },
        fun i => push [message (.leave id)] (push [message (.enter id (2, []))] (client i))⟩ := by
    unfold EntityNet.destroy
    rw [hdestroy, if_pos (by simp [find, lookup_cons, hid'])]
    rfl
  have hqueue : push [message (.leave id)] (push [message (.enter id (2, []))] (client 0)) =
      { manager := { entities := [⟨1, 1, 0, 0⟩] }, connected := true,
        inFlight := [message (.enter id (2, [])), message (.leave id)] } := by
    rw [hclient]
    rfl
  let told : EntityNet := ⟨{ entities := [⟨1, 1, 0, 0⟩], nextId := id + 1 },
    fun i => push [message (.leave id)] (push [message (.enter id (2, []))] (client i))⟩
  let entered : EntityClient :=
    ⟨{ entities := [⟨1, 1, 0, 0⟩, ⟨id, 2, 0, 0⟩] }, true, [message (.leave id)], []⟩
  let left : EntityClient := ⟨{ entities := [⟨1, 1, 0, 0⟩] }, true, [], []⟩
  have hexec : Run.exec step ⟨{ entities := [⟨1, 1, 0, 0⟩], nextId := id }, client⟩ (round id) =
      some (setClient 0 left (setClient 0 entered told)) := by
    simp only [round, Run.exec, step, Option.bind_some, hspawned, hdestroyed, deliver, hqueue, hcreate,
      setClient, Function.update_self, receive_leave, hdestroy]
    rfl
  exact ⟨_, hexec, rfl, client_setClient 0 left _⟩

theorem holding_rounds {n : ℕ} (hn : n < 2 ^ 64) (hs : Holding 2 s) :
    ∃ t, Run.exec step s (rounds n) = some t ∧ Holding (UInt64.ofNat (n + 2)) t := by
  induction n with
  | zero => exact ⟨s, rfl, hs⟩
  | succ n ih =>
    obtain ⟨t, ht, hheld⟩ := ih (Nat.lt_of_succ_lt hn)
    have hid : UInt64.ofNat (n + 2) ≠ 1 := by
      intro h
      have := congrArg UInt64.toNat h
      rw [UInt64.toNat_ofNat'] at this
      have h1 : (1 : UInt64).toNat = 1 := rfl
      omega
    obtain ⟨u, hu, hnext⟩ := holding_round hid hheld
    refine ⟨u, ?_, ?_⟩
    · rw [rounds, Run.exec_append, ht, Option.bind_some, hu]
    · have hofNat : UInt64.ofNat (n + 1 + 2) = UInt64.ofNat (n + 2) + 1 := by
        rw [show n + 1 + 2 = n + 2 + 1 from rfl, UInt64.ofNat_add]
        rfl
      rwa [hofNat]

/-- 2^64 spawns, all but the first destroyed at once, and one more. -/
def recycling : List Call :=
  [.spawn 1 [] 0, .deliver 0 0] ++ (rounds (2 ^ 64 - 1) ++ [.spawn 3 [] 0, .deliver 0 0])

theorem holding_recycled (hs : Holding 1 s) : ∃ t, Run.exec step s [.spawn 3 [] 0, .deliver 0 0] = some t ∧
    (t.client 0).inFlight = [] ∧ (t.client 0).manager.pairs = {(1, 1)} ∧ t.server.pairs = {(1, 3)} := by
  obtain ⟨server, client⟩ := s
  obtain ⟨hserver, hclient⟩ := hs
  subst hserver
  dsimp only at hclient
  have hqueue : push [spawnMessage 1 3 []] (client 0) =
      ⟨{ entities := [⟨1, 1, 0, 0⟩] }, true, [spawnMessage 1 3 []], []⟩ := by
    rw [hclient]
    rfl
  have hreceive : NetworkEntityManager.receive (spawnMessage 1 3 []) 0
      { entities := [⟨1, 1, 0, 0⟩] } = ({ entities := [⟨1, 1, 0, 0⟩] }, []) := by decide +kernel
  let told : EntityNet := ⟨{ entities := [⟨1, 3, 0, 0⟩], nextId := 2 },
    fun i => push [spawnMessage 1 3 []] (client i)⟩
  let kept : EntityClient := ⟨{ entities := [⟨1, 1, 0, 0⟩] }, true, [], []⟩
  have hspawned : EntityNet.spawn 3 [] 0 ⟨{ entities := [⟨1, 1, 0, 0⟩], nextId := 1 }, client⟩ = told := rfl
  have hexec : Run.exec step ⟨{ entities := [⟨1, 1, 0, 0⟩], nextId := 1 }, client⟩
      [.spawn 3 [] 0, .deliver 0 0] = some (setClient 0 kept told) := by
    simp only [Run.exec, step, Option.bind_some, hspawned, deliver, told, hqueue, hreceive]
    rfl
  have hkept : (setClient 0 kept told).client 0 = kept := client_setClient 0 kept _
  refine ⟨_, hexec, ?_, ?_, rfl⟩
  · rw [hkept]
  · rw [hkept]
    rfl

/-- The client keeps the old prefab of an id that is handed out again. -/
theorem recycled_id : ∃ s', start.Fresh ∧ Run.exec step start recycling = some s' ∧
    CaughtUp start 0 recycling ∧ (s'.client 0).inFlight = [] ∧
    (s'.client 0).manager.pairs ≠ s'.server.pairs := by
  obtain ⟨s, hs, hheld⟩ : ∃ s, Run.exec step start [.spawn 1 [] 0, .deliver 0 0] = some s ∧ Holding 2 s :=
    ⟨_, rfl, rfl, rfl⟩
  obtain ⟨t, ht, hround⟩ := holding_rounds (n := 2 ^ 64 - 1) (by norm_num) hheld
  have hone : UInt64.ofNat (2 ^ 64 - 1 + 2) = 1 := rfl
  rw [hone] at hround
  obtain ⟨u, hu, hquiet, hclient, hserver⟩ := holding_recycled hround
  refine ⟨u, start_fresh, ?_, .inl rfl, hquiet, ?_⟩
  · rw [recycling, Run.exec_append, hs, Option.bind_some, Run.exec_append, ht, Option.bind_some, hu]
  · rw [hclient, hserver]
    decide

end EntityNet

end CampelloNet
