import CampelloNet.Lib.Slot
import CampelloNet.Replication
import Mathlib.Logic.Function.Basic

/-!
# Buffered inputs

`InputBuffer` has a ring of 256 slots for each client. An empty slot has the tick 0, which is a tick
too. The buffer is the map that its documentation describes, for every tick but 0; tick 0 is as it
should be exactly if its slot holds an input that is to be there, or the client has no ring
(`bounded_map_iff`).
-/

namespace CampelloNet

open Lib Replication

/-! ### The buffer -/

namespace InputBuffer

def MAX_TICKS : ℕ := 256

structure Entry where
  tick : UInt16 := 0
  data : Bytes := []
  deriving DecidableEq

/-- `static_cast<std::int16_t>(a - b) >= 0` -/
def upTo (a b : UInt16) : Bool := (a - b).toNat < 2 ^ 15

def slotOf (tick : UInt16) : ℕ := tick.toNat % MAX_TICKS

end InputBuffer

open InputBuffer

/-- The rings by client. A ring has its size as soon as anything looks at it. -/
structure InputBuffer where
  buffers : List (ClientId × (ℕ → Entry)) := []

namespace InputBuffer

/-- The ring of a client, which `operator[]` makes if there is none. -/
def ring (client : ClientId) (b : InputBuffer) : ℕ → Entry :=
  ((lookup Prod.fst client b.buffers).map Prod.snd).getD fun _ => {}

def store (client : ClientId) (tick : UInt16) (data : Bytes) (b : InputBuffer) : InputBuffer where
  buffers := upsert Prod.fst (client, Function.update (b.ring client) (slotOf tick) ⟨tick, data⟩) b.buffers

def retrieve (client : ClientId) (tick : UInt16) (b : InputBuffer) : Option Bytes :=
  match lookup Prod.fst client b.buffers with
  | none => none
  | some (_, buf) => if (buf (slotOf tick)).tick ≠ tick then none else some (buf (slotOf tick)).data

def has (client : ClientId) (tick : UInt16) (b : InputBuffer) : Bool :=
  match lookup Prod.fst client b.buffers with
  | none => false
  | some (_, buf) => (buf (slotOf tick)).tick = tick

def pruneEntry (tick : UInt16) (entry : Entry) : Entry :=
  if entry.tick ≠ 0 ∧ upTo tick entry.tick then {} else entry

def pruneUpTo (tick : UInt16) (b : InputBuffer) : InputBuffer where
  buffers := b.buffers.map fun client => (client.1, fun i => pruneEntry tick (client.2 i))

def clearClient (client : ClientId) (b : InputBuffer) : InputBuffer where
  buffers := b.buffers.filter fun entry => entry.1 ≠ client

def lastReceivedTick (client : ClientId) (b : InputBuffer) : UInt16 :=
  match lookup Prod.fst client b.buffers with
  | none => 0
  | some (_, buf) => (List.range MAX_TICKS).foldl (fun max i =>
      if (buf i).tick ≠ 0 ∧ newer (buf i).tick max then (buf i).tick else max) 0

/-! ### Runs -/

inductive Call
  | store (client : ClientId) (tick : UInt16) (data : Bytes)
  | pruneUpTo (tick : UInt16)
  | clearClient (client : ClientId)

def call (b : InputBuffer) : Call → InputBuffer
  | .store client tick data => b.store client tick data
  | .pruneUpTo tick => b.pruneUpTo tick
  | .clearClient client => b.clearClient client

def run (calls : List Call) : InputBuffer := calls.foldl call {}

@[simp] theorem run_concat (calls : List Call) (c : Call) : run (calls ++ [c]) = (run calls).call c := by
  simp [run]

/-! ### The map -/

/-- The call takes the input of a client for a tick away. -/
def Removes (client : ClientId) (tick : UInt16) : Call → Prop
  | .store c t _ => c = client ∧ slotOf t = slotOf tick ∧ t ≠ tick
  | .pruneUpTo t => upTo t tick = true
  | .clearClient c => c = client

/-- The input was stored and not taken away. -/
def Holds (client : ClientId) (tick : UInt16) (calls : List Call) : Prop :=
  ∃ before data after, calls = before ++ .store client tick data :: after ∧
    ∀ c ∈ after, ¬Removes client tick c

/-- The data of the last store of an input that was not taken away. -/
def LastStored (client : ClientId) (tick : UInt16) (data : Bytes) (calls : List Call) : Prop :=
  ∃ before after, calls = before ++ .store client tick data :: after ∧
    ∀ c ∈ after, ¬Removes client tick c ∧ ∀ data', c ≠ .store client tick data'

/-- For a client and a tick the buffer is the map: an input is there if it was stored and not taken
away, and it is the one that was stored last. -/
structure IsMap (client : ClientId) (tick : UInt16) (calls : List Call) : Prop where
  retrieve : ((run calls).retrieve client tick).isSome ↔ Holds client tick calls
  has : (run calls).has client tick = true ↔ Holds client tick calls
  last : ∀ data ∈ (run calls).retrieve client tick, LastStored client tick data calls

/-- Something was stored for the client, and the client not cleared since. -/
def Present (client : ClientId) (calls : List Call) : Prop :=
  ∃ before tick data after, calls = before ++ .store client tick data :: after ∧
    Call.clearClient client ∉ after

/-! ### What is in a slot -/

/-- What a call does to a slot of the map. -/
def act (client : ClientId) (i : ℕ) : Call → SlotAct Entry
  | .store c tick data => if c = client ∧ slotOf tick = i then .put ⟨tick, data⟩ else .keep fun _ => true
  | .pruneUpTo tick => .keep fun entry => !upTo tick entry.tick
  | .clearClient c => .keep fun _ => c ≠ client

/-- What a call does to the ring of a client. -/
def actRing (client : ClientId) : Call → SlotAct Unit
  | .store c _ _ => if c = client then .put () else .keep fun _ => true
  | .pruneUpTo _ => .keep fun _ => true
  | .clearClient c => .keep fun _ => c ≠ client

variable {client : ClientId} {tick : UInt16} {calls : List Call} {c : Call} {e : Entry}

theorem act_eq_put (i : ℕ) (h : act client i c = .put e) :
    c = .store client e.tick e.data ∧ slotOf e.tick = i := by
  cases c with
  | store client' tick data =>
    rw [act] at h
    split_ifs at h with hslot
    obtain ⟨rfl, rfl⟩ := hslot
    obtain rfl := SlotAct.put.inj h
    exact ⟨rfl, rfl⟩
  | _ => cases h

theorem spares_iff : (act client (slotOf tick) c).Spares (fun e => e.tick = tick) ↔
    ¬Removes client tick c := by
  cases c with
  | store client' tick' data =>
    rw [act, Removes]
    split_ifs with hslot
    · simp only [SlotAct.Spares]
      tauto
    · simp only [SlotAct.Spares]
      tauto
  | pruneUpTo tick' =>
    unfold Removes
    constructor
    · intro h hupTo
      have hkept := h ⟨tick, []⟩ rfl
      simp [hupTo] at hkept
    · rintro h ⟨t, data⟩ rfl
      simpa using h
  | clearClient client' =>
    unfold Removes
    constructor
    · intro h hclient
      have hkept := h ⟨tick, []⟩ rfl
      simp only [decide_eq_true_eq] at hkept
      exact hkept hclient
    · intro h e _
      simpa using h

/-- The input is there if and only if its slot of the map has the tick. -/
theorem holds_iff : Holds client tick calls ↔
    ∃ e, e.tick = tick ∧ content (act client (slotOf tick)) calls = some e := by
  rw [exists_content_iff]
  · constructor
    · rintro ⟨before, data, after, rfl, hafter⟩
      exact ⟨before, _, after, ⟨tick, data⟩, rfl, if_pos ⟨rfl, rfl⟩, rfl,
        fun c hc => spares_iff.mpr (hafter c hc)⟩
    · rintro ⟨before, c, after, e, rfl, hc, rfl, hafter⟩
      obtain ⟨rfl, -⟩ := act_eq_put _ hc
      exact ⟨before, e.data, after, rfl, fun c hc => spares_iff.mp (hafter c hc)⟩
  · intro c p hc e e' he he'
    cases c with
    | store client' tick' data =>
      rw [act] at hc
      split_ifs at hc
      cases hc
      rfl
    | pruneUpTo tick' =>
      cases hc
      have hsame : e.tick = e'.tick := he.trans he'.symm
      simp [hsame]
    | clearClient client' =>
      cases hc
      rfl

theorem lastStored_of_content (h : content (act client (slotOf tick)) calls = some e)
    (he : e.tick = tick) : LastStored client tick e.data calls := by
  obtain ⟨before, c, after, rfl, hc, hafter⟩ := content_eq_some_iff.mp h
  obtain ⟨rfl, -⟩ := act_eq_put _ hc
  subst he
  refine ⟨before, after, rfl, fun c hc => ?_⟩
  obtain ⟨p, hp, hkept⟩ := hafter c hc
  constructor
  · rw [← spares_iff, hp]
    intro e' he'
    cases c with
    | store client' tick' data =>
      rw [act] at hp
      split_ifs at hp
      cases hp
      rfl
    | pruneUpTo tick' =>
      cases hp
      simpa [he'] using hkept
    | clearClient client' =>
      cases hp
      exact hkept
  · rintro data' rfl
    rw [act, if_pos ⟨rfl, rfl⟩] at hp
    cases hp

theorem ring_spares_iff : (actRing client c).Spares (fun _ => True) ↔ c ≠ .clearClient client := by
  cases c with
  | store client' tick data =>
    rw [actRing]
    split_ifs <;> simp [SlotAct.Spares]
  | pruneUpTo tick => simp [actRing, SlotAct.Spares]
  | clearClient client' => simp [actRing, SlotAct.Spares]

theorem present_iff : Present client calls ↔ (content (actRing client) calls).isSome := by
  have hexists : (∃ e, True ∧ content (actRing client) calls = some e) ↔ _ :=
    exists_content_iff (fun _ => True) fun _ _ _ _ _ _ _ => rfl
  simp only [true_and, ring_spares_iff, ← Option.isSome_iff_exists] at hexists
  rw [hexists]
  constructor
  · rintro ⟨before, tick, data, after, rfl, hafter⟩
    exact ⟨before, _, after, (), rfl, if_pos rfl, fun c hc hclear => hafter (hclear ▸ hc)⟩
  · rintro ⟨before, c, after, u, rfl, hc, hafter⟩
    cases c with
    | store client' tick data =>
      rw [actRing] at hc
      split_ifs at hc with hclient
      subst hclient
      exact ⟨before, tick, data, after, rfl, fun hclear => hafter _ hclear rfl⟩
    | _ => cases hc

/-! ### The ring against the map -/

/-- A slot of the ring against the one of the map: the same entry, or the tick 0. -/
def Matches (entry : Entry) : Option Entry → Prop
  | none => entry.tick = 0
  | some e => entry = e

/-- The ring of a client is there if it is to be there, and its slots match those of the map. -/
def Represents (client : ClientId) (calls : List Call) (b : InputBuffer) : Prop :=
  ((lookup Prod.fst client b.buffers).isSome ↔ (content (actRing client) calls).isSome) ∧
    ∀ i, Matches (b.ring client i) (content (act client i) calls)

theorem Matches.prune {entry : Entry} {held : Option Entry} (h : Matches entry held) (tick : UInt16) :
    Matches (pruneEntry tick entry) (held.filter fun e => !upTo tick e.tick) := by
  cases held with
  | none =>
    have hzero : entry.tick = 0 := h
    have hkept : pruneEntry tick entry = entry := if_neg fun hprune => hprune.1 hzero
    rw [hkept]
    exact hzero
  | some e =>
    obtain rfl : entry = e := h
    by_cases hold : upTo tick entry.tick = true
    · have hgone : (some entry).filter (fun e => !upTo tick e.tick) = none := by simp [hold]
      rw [hgone]
      show (pruneEntry tick entry).tick = 0
      unfold pruneEntry
      split_ifs with hprune
      · rfl
      · by_contra hne
        exact hprune ⟨hne, hold⟩
    · have hkept : (some entry).filter (fun e => !upTo tick e.tick) = some entry := by simp [hold]
      rw [hkept]
      exact if_neg fun hprune => hold hprune.2

theorem ring_of_none {b : InputBuffer} (h : lookup Prod.fst client b.buffers = none) (i : ℕ) :
    b.ring client i = {} := by
  simp [ring, h]

theorem represents_step {b : InputBuffer} (h : Represents client calls b) (c : Call) :
    Represents client (calls ++ [c]) (b.call c) := by
  obtain ⟨hring, hslots⟩ := h
  cases c with
  | store client' tick data =>
    by_cases hclient : client' = client
    · subst hclient
      have hlookup : lookup Prod.fst client' ((b.store client' tick data).buffers) =
          some (client', Function.update (b.ring client') (slotOf tick) ⟨tick, data⟩) :=
        lookup_upsert_self (client', _) b.buffers
      refine ⟨?_, fun i => ?_⟩
      · simp [call, hlookup, actRing, SlotAct.apply]
      · have hslot : (b.store client' tick data).ring client' i =
            Function.update (b.ring client') (slotOf tick) ⟨tick, data⟩ i := by
          simp [ring, hlookup]
        show Matches ((b.store client' tick data).ring client' i) _
        rw [hslot, content_concat, act]
        by_cases hi : slotOf tick = i
        · subst hi
          rw [Function.update_self, if_pos ⟨rfl, rfl⟩]
          rfl
        · rw [Function.update_of_ne fun heq => hi heq.symm, if_neg fun heq => hi heq.2]
          rw [SlotAct.apply_keep_true]
          exact hslots i
    · have hlookup : lookup Prod.fst client ((b.store client' tick data).buffers) =
          lookup Prod.fst client b.buffers := lookup_upsert_ne _ _ hclient
      refine ⟨?_, fun i => ?_⟩
      · simpa [call, hlookup, actRing, hclient, SlotAct.apply] using hring
      · have hslot : (b.store client' tick data).ring client i = b.ring client i := by
          simp [ring, hlookup]
        show Matches ((b.store client' tick data).ring client i) _
        rw [hslot, content_concat, act, if_neg fun heq => hclient heq.1, SlotAct.apply_keep_true]
        exact hslots i
  | pruneUpTo tick =>
    have hlookup : lookup Prod.fst client (b.pruneUpTo tick).buffers =
        (lookup Prod.fst client b.buffers).map fun entry =>
          (entry.1, fun i => pruneEntry tick (entry.2 i)) := lookup_map (fun _ => rfl) client b.buffers
    refine ⟨?_, fun i => ?_⟩
    · simpa [call, hlookup, actRing, SlotAct.apply] using hring
    · have hslot : (b.pruneUpTo tick).ring client i = pruneEntry tick (b.ring client i) := by
        unfold ring
        rw [hlookup]
        rcases lookup Prod.fst client b.buffers with _ | entry
        · rfl
        · rfl
      show Matches ((b.pruneUpTo tick).ring client i) _
      rw [hslot, content_concat]
      exact (hslots i).prune tick
  | clearClient client' =>
    by_cases hclient : client' = client
    · subst hclient
      have hlookup : lookup Prod.fst client' (b.clearClient client').buffers = none :=
        lookup_erased client' b.buffers
      refine ⟨?_, fun i => ?_⟩
      · simp [call, hlookup, actRing, SlotAct.apply]
      · show Matches ((b.clearClient client').ring client' i) _
        rw [ring_of_none hlookup, content_concat]
        simp [act, SlotAct.apply, Matches]
    · have hlookup : lookup Prod.fst client (b.clearClient client').buffers =
          lookup Prod.fst client b.buffers := lookup_erased_ne (Ne.symm hclient) b.buffers
      refine ⟨?_, fun i => ?_⟩
      · simpa [call, hlookup, actRing, hclient, SlotAct.apply] using hring
      · have hslot : (b.clearClient client').ring client i = b.ring client i := by
          simp [ring, hlookup]
        show Matches ((b.clearClient client').ring client i) _
        have hact : act client i (.clearClient client') = .keep fun _ => true := by simp [act, hclient]
        rw [hslot, content_concat, hact, SlotAct.apply_keep_true]
        exact hslots i

theorem represents_run (client : ClientId) (calls : List Call) :
    Represents client calls (run calls) := by
  induction calls using List.reverseRecOn with
  | nil => exact ⟨by simp [run], fun i => rfl⟩
  | append_singleton calls c ih =>
    rw [run_concat]
    exact represents_step ih c

/-! ### Agreement -/

theorem isSome_retrieve (client : ClientId) (tick : UInt16) (b : InputBuffer) :
    (b.retrieve client tick).isSome = b.has client tick := by
  unfold retrieve has
  rcases lookup Prod.fst client b.buffers with _ | ⟨_, buf⟩
  · rfl
  · dsimp only
    split_ifs with htick
    · simp [htick]
    · simp [not_not.mp htick]

theorem has_iff (client : ClientId) (tick : UInt16) (b : InputBuffer) : b.has client tick = true ↔
    (lookup Prod.fst client b.buffers).isSome ∧ (b.ring client (slotOf tick)).tick = tick := by
  unfold has ring
  rcases lookup Prod.fst client b.buffers with _ | ⟨_, buf⟩ <;> simp

theorem ring_of_retrieve {b : InputBuffer} {data : Bytes} (h : b.retrieve client tick = some data) :
    b.ring client (slotOf tick) = ⟨tick, data⟩ := by
  unfold retrieve at h
  unfold ring
  rcases hfind : lookup Prod.fst client b.buffers with _ | ⟨_, buf⟩
  · rw [hfind] at h
    cases h
  · rw [hfind] at h
    dsimp only at h
    split_ifs at h with htick
    rcases hentry : buf (slotOf tick) with ⟨t, d⟩
    rw [hentry] at h htick
    obtain rfl : t = tick := not_not.mp htick
    obtain rfl := Option.some.inj h
    exact hentry

theorem content_act {i : ℕ} (h : content (act client i) calls = some e) :
    slotOf e.tick = i ∧ Holds client e.tick calls ∧ Present client calls := by
  obtain ⟨before, c, after, hcalls, hc, hafter⟩ := content_eq_some_iff.mp h
  obtain ⟨rfl, rfl⟩ := act_eq_put i hc
  refine ⟨rfl, holds_iff.mpr ⟨e, rfl, h⟩, before, e.tick, e.data, after, hcalls, fun hclear => ?_⟩
  obtain ⟨p, hp, hkept⟩ := hafter _ hclear
  cases hp
  simp at hkept

/-- After any calls the buffer is the map that it is to be for a client and a tick, if and only if the
tick is not 0, or nothing was stored for the client since it was cleared, or an input whose tick has the
slot of tick 0 is to be there. -/
theorem bounded_map_iff (calls : List Call) (client : ClientId) (tick : UInt16) :
    IsMap client tick calls ↔
      tick ≠ 0 ∨ ¬Present client calls ∨ ∃ tick', slotOf tick' = 0 ∧ Holds client tick' calls := by
  obtain ⟨hring, hslots⟩ := represents_run client calls
  rw [← present_iff] at hring
  have hhas := has_iff client tick (run calls)
  have hmatch := hslots (slotOf tick)
  rw [hring] at hhas
  rcases hheld : content (act client (slotOf tick)) calls with _ | e
  · rw [hheld] at hmatch
    have hzero : ((run calls).ring client (slotOf tick)).tick = 0 := hmatch
    have hnone : ∀ tick', slotOf tick' = slotOf tick → ¬Holds client tick' calls := by
      intro tick' hslot hholds
      obtain ⟨e, -, he⟩ := holds_iff.mp hholds
      rw [hslot, hheld] at he
      cases he
    rw [hzero] at hhas
    constructor
    · intro hmap
      by_contra hall
      push Not at hall
      obtain ⟨rfl, hpresent, -⟩ := hall
      exact hnone 0 rfl (hmap.has.mp (hhas.mpr ⟨hpresent, rfl⟩))
    · intro hcond
      have hfalse : (run calls).has client tick = false := by
        rw [← Bool.not_eq_true, hhas]
        rintro ⟨hpresent, rfl⟩
        rcases hcond with hne | habsent | ⟨tick', hslot, hholds⟩
        · exact hne rfl
        · exact habsent hpresent
        · exact hnone tick' hslot hholds
      have hgone : (run calls).retrieve client tick = none := by
        rw [← Option.not_isSome_iff_eq_none, isSome_retrieve, hfalse]
        exact Bool.false_ne_true
      refine ⟨?_, ?_, ?_⟩
      · rw [hgone]
        exact iff_of_false Bool.false_ne_true (hnone tick rfl)
      · rw [hfalse]
        exact iff_of_false Bool.false_ne_true (hnone tick rfl)
      · rw [hgone]
        exact fun data h => nomatch h
  · rw [hheld] at hmatch
    have hentry : (run calls).ring client (slotOf tick) = e := hmatch
    obtain ⟨hslot, hholds, hpresent⟩ := content_act hheld
    have hsame : (run calls).has client tick = true ↔ Holds client tick calls := by
      rw [hhas, hentry, holds_iff, hheld]
      simp [hpresent]
    refine iff_of_true ⟨?_, hsame, fun data hdata => ?_⟩ ?_
    · rw [isSome_retrieve]
      exact hsame
    · have hdata := ring_of_retrieve hdata
      rw [hentry] at hdata
      subst hdata
      exact lastStored_of_content hheld rfl
    · by_cases htick : tick = 0
      · subst htick
        exact .inr (.inr ⟨e.tick, hslot, hholds⟩)
      · exact .inl htick

theorem bounded_map_wrap : IsMap 1 65535 [.store 1 65535 [1], .store 1 0 [2], .pruneUpTo 0] :=
  (bounded_map_iff _ 1 65535).mpr (.inl (by decide))

/-- An input for tick 5 is stored, and there is one for tick 0. -/
theorem phantom_input : (run [.store 1 5 [7]]).has 1 0 = true ∧
    (run [.store 1 5 [7]]).retrieve 1 0 = some [] ∧ ¬Holds 1 0 [.store 1 5 [7]] := by
  refine ⟨by decide, by decide, fun hholds => ?_⟩
  obtain ⟨e, -, he⟩ := holds_iff.mp hholds
  cases he

end InputBuffer

end CampelloNet
