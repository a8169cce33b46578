import CampelloNet.Entity.Tables
import CampelloNet.Lib.Ledger

/-!
# Every handle is given back once

The entity manager gets a handle from `bridge->spawn` for each entity it enters and passes it to
`bridge->destroy` when it erases the entity, or in its destructor. It enters entities under ids of its
own and under ids that come from the network, and only the latter are looked up first. Hence each handle
is given back once exactly if no id of its own is taken when it is its turn (`destroyed_once_iff`).
-/

namespace CampelloNet

open Lib

namespace NetworkEntityManager

inductive Call
  | spawn (prefabId : PrefabId) (initData : Bytes) (handle : EntityHandle)
  | destroy (id : NetworkId)
  | receiveSpawn (data : Bytes) (handle : EntityHandle)
  | receiveDestroy (data : Bytes)

/-- The table after a call, and the calls of the bridge. -/
def call (em : NetworkEntityManager) : Call → NetworkEntityManager × List AppCall
  | .spawn prefabId initData handle =>
    let (em, calls, _) := em.spawn prefabId initData handle
    (em, calls)
  | .destroy id => em.destroy id
  | .receiveSpawn data handle => em.onReceiveSpawn data handle
  | .receiveDestroy data => em.onReceiveDestroy data

def step (em : NetworkEntityManager) (c : Call) : Option NetworkEntityManager := some (em.call c).1

/-- `~NetworkEntityManager` -/
def destructor (em : NetworkEntityManager) : List AppCall :=
  if em.hasBridge then em.entities.map fun ent => .destroy ent.localHandle else []

/-- What `bridge->spawn` answers if it is called. -/
def Call.handle : Call → EntityHandle
  | .spawn _ _ handle | .receiveSpawn _ handle => handle
  | .destroy _ | .receiveDestroy _ => 0

/-- The handles that calls of `bridge->spawn` return. -/
def returned (handle : EntityHandle) (calls : List AppCall) : List EntityHandle :=
  calls.filterMap fun
    | .spawn _ _ _ => some handle
    | _ => none

/-- The handles that are passed to `bridge->destroy`. -/
def destroyed (calls : List AppCall) : List EntityHandle :=
  calls.filterMap fun
    | .destroy handle => some handle
    | _ => none

/-- The handles of the entities that there are. -/
def handles (em : NetworkEntityManager) : List EntityHandle := em.entities.map Entity.localHandle

def spawnedBy (em : NetworkEntityManager) (c : Call) : List EntityHandle :=
  returned c.handle (em.call c).2

def destroyedBy (em : NetworkEntityManager) (c : Call) : List EntityHandle := destroyed (em.call c).2

/-- No call of the run writes over the entry of an entity that is there. -/
def NeverOverwrites (em : NetworkEntityManager) (calls : List Call) : Prop :=
  ∀ front c back u t, calls = front ++ c :: back → Run.exec step em front = some u → step u c = some t →
    ∀ id ent, u.find id = some ent → t.find id = some ent ∨ t.find id = none

/-- Each handle that was returned is passed to `destroy` once, in the run or by the destructor after
it, and no entry of an entity that is there is written over. -/
structure DestroyedOnce (em : NetworkEntityManager) (calls : List Call) : Prop where
  once : ∀ t ∈ Run.exec step em calls, (Run.gather step spawnedBy em calls).Perm
    (Run.gather step destroyedBy em calls ++ destroyed t.destructor)
  kept : NeverOverwrites em calls

/-- The id that `spawn` takes next is not that of an entity that is there. -/
def Unclashed (em : NetworkEntityManager) : Call → Prop
  | .spawn _ _ _ => em.full = true ∨ em.find em.nextId = none
  | _ => True

instance (em : NetworkEntityManager) : DecidablePred em.Unclashed
  | .spawn _ _ _ => inferInstanceAs (Decidable (_ ∨ _))
  | .destroy _ | .receiveSpawn _ _ | .receiveDestroy _ => isTrue trivial

/-- The handle of the entity that a call writes over. -/
def leakedBy (em : NetworkEntityManager) : Call → List EntityHandle
  | .spawn _ _ _ => if em.full then [] else ((em.find em.nextId).map Entity.localHandle).toList
  | _ => []

variable {em t : NetworkEntityManager} {c : Call} {calls : List Call}

/-! ### One call -/

/-- A table with a bridge, its keys distinct. -/
structure Bridged (em : NetworkEntityManager) : Prop where
  bridge : em.hasBridge = true
  distinct : em.Distinct

theorem call_create (h : em.hasBridge = true) (prefabId : PrefabId) (id : NetworkId) (initData : Bytes)
    (handle : EntityHandle) : em.create prefabId id initData handle =
      (em.put { netId := id, prefabId := prefabId, localHandle := handle },
        [.spawn prefabId id initData]) := if_pos h

/-- What is entered, what is written over. -/
theorem handles_put (ent : Entity) :
    (((em.find ent.netId).map Entity.localHandle).toList ++ (em.put ent).handles).Perm
      (em.handles ++ [ent.localHandle]) := by
  have hperm : ((em.find ent.netId).toList ++ (em.put ent).entities).Perm (em.entities ++ [ent]) :=
    perm_upsert ent em.entities
  have hmap := hperm.map Entity.localHandle
  rw [List.map_append, List.map_append, ← Option.toList_map] at hmap
  exact hmap

theorem handles_erase (h : em.Distinct) {id : NetworkId} {ent : Entity} (hfind : em.find id = some ent) :
    ([ent.localHandle] ++ (em.erase ent.netId).handles).Perm em.handles :=
  (perm_cons_filter h (lookup_mem hfind)).map Entity.localHandle

theorem leakedBy_eq_nil_iff : leakedBy em c = [] ↔ em.Unclashed c := by
  cases c with
  | spawn prefabId initData handle =>
    show (if _ then _ else _) = [] ↔ _ ∨ _
    split_ifs with hfull
    · exact iff_of_true rfl (.inl hfull)
    · rw [Option.toList_eq_nil_iff, Option.map_eq_none_iff, or_iff_right hfull]
  | _ => exact iff_of_true rfl trivial

/-- A call leaves the table as it is, enters an entity or erases one. -/
inductive Effect (em : NetworkEntityManager) (c : Call) : NetworkEntityManager × List AppCall → Prop
  | idle (hleak : em.leakedBy c = []) : Effect em c (em, [])
  | entered (ent : Entity) (next : NetworkId) (initData : Bytes) (hhandle : ent.localHandle = c.handle)
      (hleak : em.leakedBy c = ((em.find ent.netId).map Entity.localHandle).toList) :
      Effect em c ({ em.put ent with nextId := next }, [.spawn ent.prefabId ent.netId initData])
  | erased (ent : Entity) (hfind : em.find ent.netId = some ent) (hleak : em.leakedBy c = []) :
      Effect em c (em.erase ent.netId, [.destroy ent.localHandle])

theorem destroy_effect (h : em.hasBridge = true) (hleak : em.leakedBy c = []) (id : NetworkId) :
    Effect em c (em.destroy id) := by
  unfold destroy
  rcases hfind : em.find id with _ | ent
  · exact .idle hleak
  · dsimp only
    rw [remove, if_pos h]
    have hid : ent.netId = id := lookup_key hfind
    rw [← hid] at hfind
    exact .erased ent hfind hleak

theorem call_effect (h : em.hasBridge = true) (c : Call) : Effect em c (em.call c) := by
  cases c with
  | spawn prefabId initData handle =>
    unfold call spawn
    dsimp only
    split_ifs with hfull
    · exact .idle (if_pos hfull)
    · rw [call_create (by exact h)]
      have hleak : em.leakedBy (.spawn prefabId initData handle) =
          ((em.find em.nextId).map Entity.localHandle).toList := if_neg hfull
      exact Effect.entered { netId := em.nextId, prefabId := prefabId, localHandle := handle }
        (em.nextId + 1) initData rfl hleak
  | destroy id => exact destroy_effect h rfl id
  | receiveSpawn data handle =>
    show Effect em _ (em.onReceiveSpawn data handle)
    unfold onReceiveSpawn
    dsimp only
    split_ifs with hlen hinit hfind hfull
    · exact .idle rfl
    · exact .idle rfl
    · exact .idle rfl
    · exact .idle rfl
    · rw [call_create h]
      have hnone : em.find (readBe64 data) = none := Option.not_isSome_iff_eq_none.mp hfind
      refine Effect.entered { netId := readBe64 data, prefabId := readBe32 (data.drop 8), localHandle := handle }
        em.nextId _ rfl ?_
      rw [hnone]
      rfl
  | receiveDestroy data =>
    show Effect em _ (em.onReceiveDestroy data)
    unfold onReceiveDestroy
    split_ifs
    · exact .idle rfl
    · exact destroy_effect h rfl _

theorem bridged_step (h : em.Bridged) (hstep : em.step c = some t) : t.Bridged := by
  cases hstep
  have heffect := call_effect h.bridge c
  generalize em.call c = out at heffect ⊢
  cases heffect with
  | idle => exact h
  | entered ent next initData => exact ⟨h.bridge, distinct_put ent h.distinct⟩
  | erased ent => exact ⟨h.bridge, h.distinct.sublist (List.filter_sublist.map _)⟩

/-- The handles balance: what a call destroys or loses and what is left, against what was there and what
it got. -/
theorem handles_step (h : em.Bridged) (hstep : em.step c = some t) :
    (em.destroyedBy c ++ em.leakedBy c ++ t.handles).Perm (em.handles ++ em.spawnedBy c) := by
  cases hstep
  have heffect := call_effect h.bridge c
  unfold destroyedBy spawnedBy
  generalize em.call c = out at heffect ⊢
  cases heffect with
  | idle hleak =>
    rw [hleak]
    exact .of_eq (List.append_nil _).symm
  | entered ent next initData hhandle hleak =>
    rw [hleak]
    have hreturned : returned c.handle [.spawn ent.prefabId ent.netId initData] = [ent.localHandle] := by
      rw [hhandle]
      rfl
    rw [hreturned]
    exact handles_put ent
  | erased ent hfind hleak =>
    rw [hleak]
    refine (handles_erase h.distinct hfind).trans (.of_eq ?_)
    exact (List.append_nil _).symm

/-- A call that writes over nothing keeps the entries that it does not erase. -/
theorem kept_step (h : em.Bridged) (hstep : em.step c = some t) (hclash : em.Unclashed c)
    {id : NetworkId} {ent : Entity} (hfind : em.find id = some ent) :
    t.find id = some ent ∨ t.find id = none := by
  cases hstep
  have heffect := call_effect h.bridge c
  generalize em.call c = out at heffect ⊢
  cases heffect with
  | idle => exact .inl hfind
  | entered ent' next initData hhandle hleak =>
    left
    rw [leakedBy_eq_nil_iff.mpr hclash] at hleak
    have hnone : em.find ent'.netId = none := by simpa using hleak.symm
    have hne : id ≠ ent'.netId := by
      rintro rfl
      rw [hnone] at hfind
      cases hfind
    show (em.put ent').find id = some ent
    rw [find_put, if_neg hne, hfind]
  | erased ent' =>
    show (em.erase _).find id = _ ∨ (em.erase _).find id = _
    rw [find_erase]
    split_ifs
    · exact .inr rfl
    · exact .inl hfind

/-! ### Runs -/

theorem exec_isSome (em : NetworkEntityManager) (calls : List Call) :
    ∃ t, Run.exec step em calls = some t := by
  induction calls generalizing em with
  | nil => exact ⟨em, rfl⟩
  | cons c calls ih => exact ih _

/-- What is lost in a run is what was returned, less what was destroyed and what the destructor
destroys. -/
theorem handles_run (h : em.Bridged) (hempty : em.entities = []) (hrun : Run.exec step em calls = some t) :
    (Run.gather step (fun em c => em.destroyedBy c ++ em.leakedBy c) em calls ++ t.handles).Perm
      (Run.gather step spawnedBy em calls) := by
  have hperm := Run.gather_perm handles (fun _ _ _ h hstep => bridged_step h hstep)
    (fun _ _ _ h hstep => handles_step h hstep) h hrun
  have hnone : em.handles = [] := by
    rw [handles, hempty]
    rfl
  rwa [hnone] at hperm

theorem destroyed_destructor (h : em.hasBridge = true) : destroyed em.destructor = em.handles := by
  rw [destructor, if_pos h, destroyed, List.filterMap_map]
  exact congrFun List.filterMap_eq_map _

/-- In a run from an empty table with a bridge, every handle is given back exactly once and no entry is
written over, if and only if no id that `spawn` takes is that of an entity that is there. -/
theorem destroyed_once_iff (em : NetworkEntityManager) (calls : List Call) (hbridge : em.hasBridge = true)
    (hempty : em.entities = []) : em.DestroyedOnce calls ↔ Run.Admits step Unclashed em calls := by
  have hbridged : em.Bridged := ⟨hbridge, by rw [Distinct, hempty]; exact List.nodup_nil⟩
  obtain ⟨t, hrun⟩ := exec_isSome em calls
  have ht : t.Bridged := Run.invariant_exec hrun hbridged fun _ _ _ h hstep => bridged_step h hstep
  have hperm := handles_run hbridged hempty hrun
  constructor
  · -- what is lost in the run is missing at its end
    rintro ⟨honce, -⟩
    have hlen := (honce t hrun).length_eq
    rw [destroyed_destructor ht.bridge, ← hperm.length_eq, List.length_append, List.length_append] at hlen
    have hweight : ((Run.gather step destroyedBy em calls).map fun _ => 1).sum =
          ((Run.gather step (fun em c => em.destroyedBy c ++ em.leakedBy c) em calls).map fun _ => 1).sum ↔
        Run.Admits step Unclashed em calls :=
      (Run.weight_gather (fun _ => 1) (fun em c => by simp)
        (fun em c => by simp [leakedBy_eq_nil_iff]) em calls).2
    rw [← hweight, List.map_const', List.map_const', List.sum_replicate_nat, List.sum_replicate_nat]
    omega
  · intro hadmits
    constructor
    · intro u hu
      obtain rfl : t = u := Option.some.inj (hrun.symm.trans hu)
      rw [destroyed_destructor ht.bridge]
      have hsame : Run.gather step destroyedBy em calls =
          Run.gather step (fun em c => em.destroyedBy c ++ em.leakedBy c) em calls :=
        Run.gather_congr (fun em c hok => by rw [leakedBy_eq_nil_iff.mpr hok, List.append_nil]) hadmits
      rw [hsame]
      exact hperm.symm
    · rintro front c back u v rfl hu hstep id ent hfind
      have hbridged' : u.Bridged :=
        Run.invariant_exec hu hbridged fun _ _ _ h hstep => bridged_step h hstep
      exact kept_step hbridged' hstep (hadmits.mid hu) hfind

theorem destroyed_once_mixed : ({ hasBridge := true, nextId := 5 } : NetworkEntityManager).DestroyedOnce
    [.spawn 1 [] 10, .receiveSpawn (be64 9 ++ be32 1 ++ be16 0) 11, .destroy 5] :=
  (destroyed_once_iff _ _ rfl rfl).mpr (by decide +kernel)

/-- Whatever is spawned and received, each handle is given back once. -/
def AlwaysDestroyedOnce : Prop :=
  ∀ (em : NetworkEntityManager) (calls : List Call), em.hasBridge = true → em.entities = [] →
    em.DestroyedOnce calls

/-- The network enters the id that `spawn` takes next. -/
theorem not_alwaysDestroyedOnce : ¬AlwaysDestroyedOnce := by
  intro h
  have honce := h { hasBridge := true } [.receiveSpawn (be64 1 ++ be32 1 ++ be16 0) 10, .spawn 1 [] 11] rfl rfl
  rw [destroyed_once_iff _ _ rfl rfl] at honce
  revert honce
  decide +kernel

end NetworkEntityManager

end CampelloNet
