import CampelloNet.Serialization.Tape

/-!
# Replicated variables and their deltas

`NetworkVariable`: a value is sent as a bit that says whether it differs from a baseline, and the value
only if it does. What is sent for a list of variables, of whatever types, is received as it was sent by
an end whose values are the same baselines, and a call that fails leaves its variable and its baseline
alone (`deltas_received`).
-/

namespace CampelloNet

open Lib Serialization BitStream

/-- What a variable needs of its type: `!=` and the overloads of `serialize` and `deserialize`. -/
structure VariableType where
  T : Type
  [eq : DecidableEq T]
  serialize : T → BitStream → BitStream
  deserialize : Reader T

attribute [instance] VariableType.eq

structure NetworkVariable (T : Type) where
  value : T
  dirty : Bool := true

namespace NetworkVariable

section
variable (type : VariableType)

def serialize (var : NetworkVariable type.T) : BitStream → BitStream := type.serialize var.value

def deserialize (var : NetworkVariable type.T) : StateM BitStream (Bool × NetworkVariable type.T) :=
  fun stream =>
    match type.deserialize stream with
    | (none, stream) => ((false, var), stream)
    | (some temp, stream) => ((true, { var with value := temp, dirty := true }), stream)

def serializeDelta (baseline : type.T) (var : NetworkVariable type.T) (stream : BitStream) : BitStream :=
  let changed := var.value ≠ baseline
  let stream := stream.writeBool changed
  if changed then var.serialize type stream else stream

/-- The result of the call, the variable and the baseline behind it. -/
def deserializeDelta (baseline : type.T) (var : NetworkVariable type.T) :
    StateM BitStream (Bool × NetworkVariable type.T × type.T) := fun stream =>
  match readBool stream with
  | (none, stream) => ((false, var, baseline), stream)
  | (some false, stream) => ((true, var, baseline), stream)
  | (some true, stream) =>
    match var.deserialize type stream with
    | ((false, var), stream) => ((false, var, baseline), stream)
    | ((true, var), stream) => ((true, var, var.value), stream)

end

end NetworkVariable

/-- A correct pair of overloads: wherever a value is written, it is read as it was written. -/
def VariableType.Correct (type : VariableType) : Prop :=
  ∀ x, ∃ e, tape.Codes e (type.serialize x) type.deserialize x

section
variable {ι : Type} (types : ι → VariableType)

/-- A variable of one of the types, with its baseline. -/
structure Replica where
  type : ι
  var : NetworkVariable (types type).T
  baseline : (types type).T

/-- A variable of one of the types at both ends. The receiver's value is the baseline. -/
structure SharedVariable where
  type : ι
  sender : NetworkVariable (types type).T
  receiver : NetworkVariable (types type).T
  baseline : (types type).T
  shared : receiver.value = baseline

end

section
variable {ι : Type} {types : ι → VariableType}

namespace Replica

def serializeDelta (r : Replica types) : BitStream → BitStream :=
  r.var.serializeDelta (types r.type) r.baseline

def deserializeDelta (r : Replica types) : StateM BitStream (Bool × Replica types) := fun stream =>
  match r.var.deserializeDelta (types r.type) r.baseline stream with
  | ((ok, var, baseline), stream) => ((ok, { r with var := var, baseline := baseline }), stream)

/-- The sender's calls. -/
def serializeDeltas (rs : List (Replica types)) (stream : BitStream) : BitStream :=
  rs.foldl (fun stream r => r.serializeDelta stream) stream

/-- The receiver's calls, up to the first that returns false, and what they return. -/
def deserializeDeltas : List (Replica types) → StateM BitStream (List Bool × List (Replica types))
  | [] => pure ([], [])
  | r :: rs => fun stream =>
    match r.deserializeDelta stream with
    | ((false, r), stream) => (([false], r :: rs), stream)
    | ((true, r), stream) =>
      match deserializeDeltas rs stream with
      | ((oks, rs), stream) => ((true :: oks, r :: rs), stream)

end Replica

namespace SharedVariable

def sent (v : SharedVariable types) : Replica types := ⟨v.type, v.sender, v.baseline⟩

def receiving (v : SharedVariable types) : Replica types := ⟨v.type, v.receiver, v.baseline⟩

/-- The receiver's variable and baseline with the sender's value. -/
def received (v : SharedVariable types) : Replica types :=
  ⟨v.type,
    { value := v.sender.value
      dirty := v.sender.value ≠ v.baseline ∨ v.receiver.dirty },
    v.sender.value⟩

end SharedVariable

/-! ### A call that fails -/

theorem NetworkVariable.deserializeDelta_of_false {type : VariableType} (var : NetworkVariable type.T)
    (baseline : type.T) (stream : BitStream)
    (h : (var.deserializeDelta type baseline stream).1.1 = false) :
    (var.deserializeDelta type baseline stream).1.2 = (var, baseline) := by
  revert h
  unfold deserializeDelta deserialize
  rcases readBool stream with ⟨_ | _ | _, stream'⟩
  · exact fun _ => rfl
  · exact fun _ => rfl
  · dsimp only
    rcases type.deserialize stream' with ⟨_ | temp, stream''⟩
    · exact fun _ => rfl
    · exact fun h => absurd h (by simp)

namespace Replica

theorem deserializeDelta_of_false (r : Replica types) (stream : BitStream)
    (h : (r.deserializeDelta stream).1.1 = false) : (r.deserializeDelta stream).1.2 = r := by
  have hkept := r.var.deserializeDelta_of_false r.baseline stream h
  unfold deserializeDelta
  rcases hrun : r.var.deserializeDelta (types r.type) r.baseline stream with ⟨⟨ok, var, baseline⟩, stream'⟩
  rw [hrun] at hkept
  obtain ⟨rfl, rfl⟩ := Prod.ext_iff.mp hkept
  rfl

theorem deserializeDeltas_of_false {r r' : Replica types} {rs : List (Replica types)}
    {stream stream' : BitStream} (h : r.deserializeDelta stream = ((false, r'), stream')) :
    deserializeDeltas (r :: rs) stream = (([false], r' :: rs), stream') := by
  simp only [deserializeDeltas, h]

theorem deserializeDeltas_of_true {r r' : Replica types} {rs : List (Replica types)}
    {stream stream' : BitStream} (h : r.deserializeDelta stream = ((true, r'), stream')) :
    deserializeDeltas (r :: rs) stream =
      ((true :: (deserializeDeltas rs stream').1.1, r' :: (deserializeDeltas rs stream').1.2),
        (deserializeDeltas rs stream').2) := by
  simp only [deserializeDeltas, h]
  rfl

/-- All calls before the one that fails succeed, and that one and those behind it change nothing. -/
theorem drop_deserializeDeltas (rs : List (Replica types)) (stream : BitStream) :
    let result := (deserializeDeltas rs stream).1
    false ∈ result.1 →
      ∃ n, result.1 = List.replicate n true ++ [false] ∧ result.2.drop n = rs.drop n := by
  induction rs generalizing stream with
  | nil => exact fun hfails => absurd hfails List.not_mem_nil
  | cons r rs ih =>
    have hkept := deserializeDelta_of_false r stream
    rcases hrun : r.deserializeDelta stream with ⟨⟨_ | _, r'⟩, stream'⟩
    · rw [hrun] at hkept
      obtain rfl := hkept rfl
      rw [deserializeDeltas_of_false hrun]
      exact fun _ => ⟨0, rfl, rfl⟩
    · rw [deserializeDeltas_of_true hrun]
      dsimp only
      intro hfails
      obtain ⟨n, hoks, hdrop⟩ := ih stream' (by simpa using hfails)
      refine ⟨n + 1, ?_, hdrop⟩
      rw [hoks, List.replicate_succ]
      rfl

end Replica

/-! ### A round trip -/

/-- What is sent of a value: whether it differs from the baseline, and the value if it does. -/
def deltaEncoding {type : VariableType} (baseline x : type.T) (e : Encoding Bool) : Encoding Bool :=
  if x = baseline then fun _ => [false] else Encoding.seq (fun _ => [true]) e

theorem NetworkVariable.codes_delta {type : VariableType} {sender receiver : NetworkVariable type.T}
    {baseline : type.T} {e : Encoding Bool} (hshared : receiver.value = baseline)
    (h : tape.Codes e (type.serialize sender.value) type.deserialize sender.value) :
    tape.Codes (deltaEncoding baseline sender.value e) (sender.serializeDelta type baseline)
      (OptionT.lift (receiver.deserializeDelta type baseline))
      (true, ⟨sender.value, sender.value ≠ baseline ∨ receiver.dirty⟩, sender.value) := by
  obtain ⟨value, dirty⟩ := receiver
  obtain rfl := hshared
  unfold deltaEncoding
  by_cases hsame : sender.value = value
  · have hwrite : sender.serializeDelta type value = writeBool false := by
      funext stream
      simp [serializeDelta, hsame]
    rw [if_pos hsame, hwrite]
    refine ⟨(tape_codes_bool false).writes, fun r past rest hr => ?_⟩
    obtain ⟨r', hflag, hr'⟩ := (tape_codes_bool false).reads r past rest hr
    refine ⟨r', ?_, hr'⟩
    rw [Medium.run_lift_eq_some]
    simp [deserializeDelta, hflag, hsame]
  · have hwrite : sender.serializeDelta type value = type.serialize sender.value ∘ writeBool true := by
      funext stream
      simp [serializeDelta, serialize, hsame]
    rw [if_neg hsame, hwrite]
    refine ⟨(tape_codes_bool true).writes.seq h.writes,
      (tape_codes_bool true).reads.seq h.reads fun r r' r'' hflag hvalue => ?_⟩
    rw [Medium.run_lift_eq_some]
    simp [deserializeDelta, deserialize, hflag, hvalue, hsame]

namespace SharedVariable

theorem codes_delta {v : SharedVariable types} (hcorrect : (types v.type).Correct) :
    ∃ e, tape.Codes e v.sent.serializeDelta (OptionT.lift v.receiving.deserializeDelta)
      (true, v.received) := by
  obtain ⟨e, he⟩ := hcorrect v.sender.value
  have hcodes := NetworkVariable.codes_delta v.shared he
  refine ⟨_, hcodes.writes, fun r past rest hr => ?_⟩
  obtain ⟨r', hread, hr'⟩ := hcodes.reads r past rest hr
  refine ⟨r', ?_, hr'⟩
  rw [Medium.run_lift_eq_some] at hread ⊢
  simp only [receiving, Replica.deserializeDelta, hread]
  rfl

/-- The induction is on the list: behind what one call reads stands what the next one was sent. -/
theorem codes_deltas (vs : List (SharedVariable types)) (hcorrect : ∀ v ∈ vs, (types v.type).Correct) :
    ∃ e, tape.Codes e (Replica.serializeDeltas (vs.map sent))
      (OptionT.lift (Replica.deserializeDeltas (vs.map receiving)))
      (List.replicate vs.length true, vs.map received) := by
  induction vs with
  | nil => exact ⟨Encoding.nil, Medium.writes_id, Medium.reads_pure _⟩
  | cons v vs ih =>
    obtain ⟨e, hfirst⟩ := codes_delta (hcorrect v List.mem_cons_self)
    obtain ⟨e', hrest⟩ := ih fun v' hmem => hcorrect v' (List.mem_cons_of_mem _ hmem)
    refine ⟨e.seq e', hfirst.writes.seq hrest.writes,
      hfirst.reads.seq hrest.reads fun r r' r'' hread hreads => ?_⟩
    rw [Medium.run_lift_eq_some] at hread hreads ⊢
    rw [List.map_cons, Replica.deserializeDeltas_of_true hread, hreads]
    rfl

end SharedVariable

/-- The deltas of a list of variables, written at any position and read there, all arrive, and leave the
receiver with the sender's values and these as its baselines. On any stream at all, the first call that
returns false leaves its variable and its baseline as they were. -/
theorem deltas_received (vs : List (SharedVariable types))
    (hcorrect : ∀ v ∈ vs, (types v.type).Correct) :
    (∃ e, tape.Codes e (Replica.serializeDeltas (vs.map SharedVariable.sent))
      (OptionT.lift (Replica.deserializeDeltas (vs.map SharedVariable.receiving)))
      (List.replicate vs.length true, vs.map SharedVariable.received)) ∧
    ∀ (rs : List (Replica types)) (stream : BitStream),
      let result := (Replica.deserializeDeltas rs stream).1
      false ∈ result.1 →
        ∃ n, result.1 = List.replicate n true ++ [false] ∧ result.2.drop n = rs.drop n :=
  ⟨SharedVariable.codes_deltas vs hcorrect, Replica.drop_deserializeDeltas⟩

end

/-! ### A word and a flag -/

/-- The overloads of a 32-bit number and of a flag. -/
def wordOrFlag : Bool → VariableType
  | false => { T := UInt32, serialize := writeUint32 .little, deserialize := readUint32 .little }
  | true => { T := Bool, serialize := writeBool, deserialize := readBool }

theorem correct_wordOrFlag (type : Bool) : (wordOrFlag type).Correct := by
  cases type with
  | false =>
    intro (v : UInt32)
    exact ⟨_, tape_codes_word (fun v => (toNet32 .little v).toUInt64)
      (fun w => toNet32 .little w.toUInt32) 32 (by omega) v
      (by simpa using (toNet32 .little v).toNat_lt) (by simp)⟩
  | true => exact fun b => ⟨_, tape_codes_bool b⟩

/-- A changed number between two flags, the last of which is changed. -/
def playerVariables : List (SharedVariable wordOrFlag) :=
  [⟨true, ⟨true, false⟩, ⟨true, false⟩, true, rfl⟩,
    ⟨false, ⟨(90 : UInt32), true⟩, ⟨(100 : UInt32), false⟩, (100 : UInt32), rfl⟩,
    ⟨true, ⟨false, true⟩, ⟨true, false⟩, true, rfl⟩]

theorem deltas_received_player :
    (∃ e, tape.Codes e (Replica.serializeDeltas (playerVariables.map SharedVariable.sent))
      (OptionT.lift (Replica.deserializeDeltas (playerVariables.map SharedVariable.receiving)))
      (List.replicate playerVariables.length true, playerVariables.map SharedVariable.received)) ∧
    ∀ (rs : List (Replica wordOrFlag)) (stream : BitStream),
      let result := (Replica.deserializeDeltas rs stream).1
      false ∈ result.1 →
        ∃ n, result.1 = List.replicate n true ++ [false] ∧ result.2.drop n = rs.drop n :=
  deltas_received playerVariables fun v _ => correct_wordOrFlag v.type

end CampelloNet
