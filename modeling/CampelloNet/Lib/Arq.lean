import CampelloNet.Lib.Run
import Mathlib.Algebra.Order.Group.Nat
import Mathlib.Data.List.Nodup

/-!
# Numbered messages over a lossy network

One direction of a channel between two parties. The sender numbers its messages with `seqOf` and
keeps each one until an acknowledgement covers it; the receiver passes every frame that arrives
through a `gate`, which says whether it is delivered, and shows the sender the acknowledgement
`word` of its state. The network may lose, repeat, delay and reorder both: any message sent so far
may arrive at any time, any number of times, and so may any word the receiver has ever shown.

A sender loses nothing when it forgets only messages that were delivered. This reduces to what a
word claims at the moment the receiver first shows it (`erased_subset_delivered`), and a gate that
lets messages through in order discharges that as well (`InOrder.delivered_eq`,
`InOrder.erased_subset_delivered`).
-/

namespace CampelloNet.Lib.Arq

variable {ι α ρ κ : Type*}

/-- Sequence numbers, the receiver's gate, and the meaning of its acknowledgement words. -/
structure Protocol (ι α ρ κ : Type*) where
  seqOf : ℕ → ι
  gate : ρ → ι → α → ρ × Bool
  word : ρ → κ
  acks : κ → ι → Bool

structure State (ι α ρ κ : Type*) where
  /-- everything the sender was given, message `i` under the number `seqOf i` -/
  sent : List α
  pending : List (ι × α)
  receiver : ρ
  delivered : List (ι × α)
  /-- every word the receiver has shown -/
  words : List κ
  /-- what acknowledgements removed from `pending` -/
  erased : List (ι × α)

inductive Act (α κ : Type*)
  /-- the sender is given a message, which it keeps until it is acknowledged if `keep` is set -/
  | send (a : α) (keep : Bool)
  /-- a copy of message `i` arrives -/
  | arrive (i : ℕ)
  /-- a copy of a word arrives -/
  | ack (w : κ)

namespace State

variable (p : Protocol ι α ρ κ) (s : State ι α ρ κ)

def send (a : α) (keep : Bool) : State ι α ρ κ :=
  { s with
    sent := s.sent ++ [a]
    pending := if keep then s.pending ++ [(p.seqOf s.sent.length, a)] else s.pending }

def arrive (sequence : ι) (a : α) : State ι α ρ κ :=
  { s with
    receiver := (p.gate s.receiver sequence a).1
    delivered := if (p.gate s.receiver sequence a).2 then s.delivered ++ [(sequence, a)]
      else s.delivered
    words := p.word (p.gate s.receiver sequence a).1 :: s.words }

def ack (w : κ) : State ι α ρ κ :=
  { s with
    pending := s.pending.filter fun f => !p.acks w f.1
    erased := s.erased ++ s.pending.filter fun f => p.acks w f.1 }

end State

variable [DecidableEq κ]

def step (p : Protocol ι α ρ κ) (s : State ι α ρ κ) : Act α κ → Option (State ι α ρ κ)
  | .send a keep => some (s.send p a keep)
  | .arrive i => s.sent[i]?.map (s.arrive p (p.seqOf i))
  | .ack w => if w ∈ s.words then some (s.ack p w) else none

/-- The state before any message. -/
def init (p : Protocol ι α ρ κ) (receiver : ρ) : State ι α ρ κ :=
  ⟨[], [], receiver, [], [p.word receiver], []⟩

variable {p : Protocol ι α ρ κ} {s t : State ι α ρ κ} {ok : State ι α ρ κ → Act α κ → Prop}

theorem step_arrive {i : ℕ} {a : α} (h : s.sent[i]? = some a) :
    step p s (.arrive i) = some (s.arrive p (p.seqOf i) a) := by
  rw [step, h, Option.map_some]

theorem step_ack {w : κ} (h : w ∈ s.words) : step p s (.ack w) = some (s.ack p w) := if_pos h

/-- The three things a step can do. -/
theorem step_cases {act : Act α κ} (h : step p s act = some t) :
    (∃ a keep, act = .send a keep ∧ t = s.send p a keep) ∨
    (∃ i a, act = .arrive i ∧ s.sent[i]? = some a ∧ t = s.arrive p (p.seqOf i) a) ∨
    (∃ w, act = .ack w ∧ w ∈ s.words ∧ t = s.ack p w) := by
  cases act with
  | send a keep => exact .inl ⟨a, keep, rfl, (Option.some.inj h).symm⟩
  | arrive i =>
    obtain ⟨a, ha, rfl⟩ := Option.map_eq_some_iff.mp h
    exact .inr (.inl ⟨i, a, rfl, ha, rfl⟩)
  | ack w =>
    simp only [step] at h
    split_ifs at h with hw
    exact .inr (.inr ⟨w, rfl, hw, (Option.some.inj h).symm⟩)

theorem length_sent_le {act : Act α κ} (h : step p s act = some t) :
    s.sent.length ≤ t.sent.length := by
  obtain ⟨a, keep, -, rfl⟩ | ⟨i, a, -, -, rfl⟩ | ⟨w, -, -, rfl⟩ := step_cases h <;>
    simp [State.send, State.arrive, State.ack]

/-! ### Every frame is one that was sent -/

/-- The frame of some message in `sent`. -/
def Genuine (p : Protocol ι α ρ κ) (sent : List α) (f : ι × α) : Prop :=
  ∃ i, f.1 = p.seqOf i ∧ sent[i]? = some f.2

omit [DecidableEq κ] in
theorem Genuine.append {sent : List α} {f : ι × α} (h : Genuine p sent f) (l : List α) :
    Genuine p (sent ++ l) f := by
  obtain ⟨i, hi, ha⟩ := h
  exact ⟨i, hi, by rw [List.getElem?_append_left (List.getElem?_eq_some_iff.mp ha).1, ha]⟩

/-- All frames the two parties hold are genuine. -/
structure AllGenuine (p : Protocol ι α ρ κ) (s : State ι α ρ κ) : Prop where
  pending : ∀ f ∈ s.pending, Genuine p s.sent f
  delivered : ∀ f ∈ s.delivered, Genuine p s.sent f
  erased : ∀ f ∈ s.erased, Genuine p s.sent f

theorem AllGenuine.step {act : Act α κ} (hs : AllGenuine p s) (h : step p s act = some t) :
    AllGenuine p t := by
  obtain ⟨a, keep, -, rfl⟩ | ⟨i, a, -, ha, rfl⟩ | ⟨w, -, -, rfl⟩ := step_cases h
  · refine ⟨fun f hf => ?_, fun f hf => (hs.delivered f hf).append _,
      fun f hf => (hs.erased f hf).append _⟩
    cases keep with
    | false => exact (hs.pending f hf).append _
    | true =>
      rcases List.mem_append.mp hf with hf | hf
      · exact (hs.pending f hf).append _
      · obtain rfl := List.mem_singleton.mp hf
        exact ⟨s.sent.length, rfl, by simp [State.send]⟩
  · refine ⟨hs.pending, fun f hf => ?_, hs.erased⟩
    dsimp only [State.arrive] at hf
    split_ifs at hf
    · rcases List.mem_append.mp hf with hf | hf
      · exact hs.delivered f hf
      · obtain rfl := List.mem_singleton.mp hf
        exact ⟨i, rfl, ha⟩
    · exact hs.delivered f hf
  · refine ⟨fun f hf => hs.pending f (List.mem_of_mem_filter hf), hs.delivered, fun f hf => ?_⟩
    rcases List.mem_append.mp hf with hf | hf
    · exact hs.erased f hf
    · exact hs.pending f (List.mem_of_mem_filter hf)

omit [DecidableEq κ] in
theorem allGenuine_init (r : ρ) : AllGenuine p (init p r) := by
  refine ⟨?_, ?_, ?_⟩ <;> simp [init]

/-! ### Sound words -/

/-- Every number below `N` that the word covers has been delivered. -/
def Sound (p : Protocol ι α ρ κ) (N : ℕ) (delivered : List (ι × α)) (w : κ) : Prop :=
  ∀ i < N, p.acks w (p.seqOf i) = true → p.seqOf i ∈ delivered.map Prod.fst

omit [DecidableEq κ] in
theorem Sound.append {N : ℕ} {delivered : List (ι × α)} {w : κ} (h : Sound p N delivered w)
    (l : List (ι × α)) : Sound p N (delivered ++ l) w := fun i hi hw => by
  rw [List.map_append]
  exact List.mem_append_left _ (h i hi hw)

/-- The step shows no word that claims more than what has then been delivered. -/
def SoundStep (p : Protocol ι α ρ κ) (N : ℕ) (s : State ι α ρ κ) (act : Act α κ) : Prop :=
  ∀ i a, act = .arrive i → s.sent[i]? = some a →
    Sound p N
      (if (p.gate s.receiver (p.seqOf i) a).2 then s.delivered ++ [(p.seqOf i, a)] else s.delivered)
      (p.word (p.gate s.receiver (p.seqOf i) a).1)

/-- All words shown are sound, and everything erased was delivered. -/
structure NothingLost (p : Protocol ι α ρ κ) (N : ℕ) (s : State ι α ρ κ) : Prop where
  genuine : AllGenuine p s
  words : ∀ w ∈ s.words, Sound p N s.delivered w
  erased : ∀ f ∈ s.erased, f ∈ s.delivered

omit [DecidableEq κ] in
/-- A genuine frame whose number was delivered was delivered itself. -/
theorem AllGenuine.mem_delivered {N : ℕ} (hs : AllGenuine p s) (hN : s.sent.length ≤ N)
    (hinj : ∀ i < N, ∀ j < N, p.seqOf i = p.seqOf j → i = j) {f : ι × α}
    (hf : Genuine p s.sent f) (h : f.1 ∈ s.delivered.map Prod.fst) : f ∈ s.delivered := by
  obtain ⟨g, hg, hgf⟩ := List.mem_map.mp h
  obtain ⟨i, hi, hfi⟩ := hf
  obtain ⟨j, hj, hgj⟩ := hs.delivered g hg
  have hin : i < N := lt_of_lt_of_le (List.getElem?_eq_some_iff.mp hfi).1 hN
  have hjn : j < N := lt_of_lt_of_le (List.getElem?_eq_some_iff.mp hgj).1 hN
  have hij : i = j := hinj i hin j hjn (by rw [← hi, ← hj, hgf])
  subst hij
  have hfg : f = g := Prod.ext hgf.symm (Option.some.inj (hfi.symm.trans hgj))
  rwa [hfg]

theorem NothingLost.step {N : ℕ} {act : Act α κ} (hs : NothingLost p N s)
    (hinj : ∀ i < N, ∀ j < N, p.seqOf i = p.seqOf j → i = j) (hok : SoundStep p N s act)
    (h : step p s act = some t) (hN : s.sent.length ≤ N) : NothingLost p N t := by
  refine ⟨hs.genuine.step h, ?_, ?_⟩ <;>
    obtain ⟨a, keep, rfl, rfl⟩ | ⟨i, a, rfl, ha, rfl⟩ | ⟨w, rfl, hw, rfl⟩ := step_cases h
  · exact hs.words
  · intro v hv
    rcases List.mem_cons.mp hv with rfl | hv
    · exact hok i a rfl ha
    · dsimp only [State.arrive]
      split_ifs
      · exact (hs.words v hv).append _
      · exact hs.words v hv
  · exact hs.words
  · exact hs.erased
  · intro f hf
    dsimp only [State.arrive]
    split_ifs
    · exact List.mem_append_left _ (hs.erased f hf)
    · exact hs.erased f hf
  · intro f hf
    rcases List.mem_append.mp hf with hf | hf
    · exact hs.erased f hf
    · obtain ⟨hp, hack⟩ := List.mem_filter.mp hf
      obtain ⟨i, hi, hsent⟩ := hs.genuine.pending f hp
      have hin : i < N := lt_of_lt_of_le (List.getElem?_eq_some_iff.mp hsent).1 hN
      refine hs.genuine.mem_delivered hN hinj ⟨i, hi, hsent⟩ ?_
      rw [hi] at hack ⊢
      exact hs.words w hw i hin hack

/-- If the receiver starts with a word that claims nothing and no step shows a word that claims
more than what was delivered, everything the sender has forgotten was delivered. -/
theorem erased_subset_delivered {N : ℕ} {r : ρ}
    (hinj : ∀ i < N, ∀ j < N, p.seqOf i = p.seqOf j → i = j)
    (hinit : ∀ i < N, p.acks (p.word r) (p.seqOf i) = false)
    (h : Run (step p) (SoundStep p N) (init p r) s) (hN : s.sent.length < N) :
    s.erased ⊆ s.delivered := by
  have hinv : NothingLost p N s := by
    refine h.invariant_below (m := fun s => s.sent.length) ⟨?_, ?_, ?_⟩
      (fun _ _ _ _ hu => length_sent_le hu)
      (fun t act u ht hok hu hlt =>
        ht.step hinj hok hu ((length_sent_le hu).trans hlt.le)) hN
    · exact allGenuine_init r
    · intro w hw i hi hack
      obtain rfl := List.mem_singleton.mp hw
      rw [hinit i hi] at hack
      cases hack
    · simp [init]
  exact hinv.erased

/-- A number arrives only as long as nothing has been delivered under it. -/
def FirstArrival (p : Protocol ι α ρ κ) (s : State ι α ρ κ) (act : Act α κ) : Prop :=
  ∀ i, act = .arrive i → p.seqOf i ∉ s.delivered.map Prod.fst

/-- Then nothing is delivered twice. -/
theorem nodup_delivered {r : ρ} (h : Run (step p) (FirstArrival p) (init p r) s) :
    (s.delivered.map Prod.fst).Nodup := by
  refine h.invariant (I := fun s => (s.delivered.map Prod.fst).Nodup) List.nodup_nil
    fun t act u ht hok hu => ?_
  obtain ⟨a, keep, -, rfl⟩ | ⟨i, a, rfl, -, rfl⟩ | ⟨w, -, -, rfl⟩ := step_cases hu
  · exact ht
  · have hnew := hok i rfl
    unfold State.arrive
    dsimp only
    split_ifs
    · rw [List.map_append, List.map_singleton]
      rw [List.nodup_append]
      refine ⟨ht, List.nodup_singleton _, fun x hx y hy heq => ?_⟩
      rw [heq, List.mem_singleton.mp hy] at hx
      exact hnew hx
    · exact ht
  · exact ht

/-! ### Gates that keep the order -/

/-- `At r k` says that `r` is the receiver's state after `k` deliveries. A gate keeps the order
when it delivers message `k` only there, and there claims only messages before `k`. -/
structure InOrder (p : Protocol ι α ρ κ) (N : ℕ) (At : ρ → ℕ → Prop) : Prop where
  deliver : ∀ {r k i a}, At r k → k ≤ N → i < N → (p.gate r (p.seqOf i) a).2 = true →
    i = k ∧ At (p.gate r (p.seqOf i) a).1 (k + 1)
  drop : ∀ {r k i a}, At r k → k ≤ N → i < N → (p.gate r (p.seqOf i) a).2 = false →
    At (p.gate r (p.seqOf i) a).1 k
  acks : ∀ {r k i}, At r k → k ≤ N → i < N → p.acks (p.word r) (p.seqOf i) = true → i < k

/-- The first `k` messages, with their numbers. -/
def firstFrames (p : Protocol ι α ρ κ) (sent : List α) (k : ℕ) : List (ι × α) :=
  (sent.take k).zipIdx.map fun x => (p.seqOf x.2, x.1)

omit [DecidableEq κ] in
theorem firstFrames_append {sent : List α} {k : ℕ} (hk : k ≤ sent.length) (l : List α) :
    firstFrames p (sent ++ l) k = firstFrames p sent k := by
  rw [firstFrames, firstFrames, List.take_append_of_le_length hk]

omit [DecidableEq κ] in
theorem firstFrames_succ {sent : List α} {k : ℕ} {a : α} (h : sent[k]? = some a) :
    firstFrames p sent (k + 1) = firstFrames p sent k ++ [(p.seqOf k, a)] := by
  obtain ⟨hk, rfl⟩ := List.getElem?_eq_some_iff.mp h
  rw [firstFrames, List.take_succ_eq_append_getElem hk, List.zipIdx_append, List.map_append]
  simp [firstFrames, List.length_take, Nat.min_eq_left hk.le]

omit [DecidableEq κ] in
theorem firstFrames_map_snd (sent : List α) (k : ℕ) :
    (firstFrames p sent k).map Prod.snd = sent.take k := by
  rw [firstFrames, List.map_map]
  exact List.zipIdx_map_fst 0 (sent.take k)

omit [DecidableEq κ] in
theorem seqOf_mem_firstFrames {sent : List α} {k i : ℕ} (hi : i < k) (hk : k ≤ sent.length) :
    p.seqOf i ∈ (firstFrames p sent k).map Prod.fst := by
  have hlen : i < (sent.take k).length := by rw [List.length_take]; omega
  refine List.mem_map.mpr ⟨(p.seqOf i, (sent.take k)[i]), ?_, rfl⟩
  refine List.mem_map.mpr ⟨((sent.take k)[i], i), ?_, rfl⟩
  rw [List.mem_zipIdx_iff_getElem?]
  exact List.getElem?_eq_getElem hlen

/-- The receiver has been given a prefix of what was sent and is in the state that belongs to it. -/
structure Prefix (p : Protocol ι α ρ κ) (At : ρ → ℕ → Prop) (s : State ι α ρ κ) (k : ℕ) : Prop where
  le : k ≤ s.sent.length
  receiver : At s.receiver k
  delivered : s.delivered = firstFrames p s.sent k

namespace InOrder

variable {N : ℕ} {At : ρ → ℕ → Prop}

/-- A step keeps the prefix or lengthens it by one, and shows no word that claims too much. -/
theorem step (hord : InOrder p N At) {k : ℕ} {act : Act α κ} (hs : Prefix p At s k)
    (h : Arq.step p s act = some t) (hN : t.sent.length < N) :
    SoundStep p N s act ∧ ∃ k', Prefix p At t k' := by
  obtain ⟨a, keep, rfl, rfl⟩ | ⟨i, a, rfl, ha, rfl⟩ | ⟨w, rfl, hw, rfl⟩ := step_cases h
  · refine ⟨fun i b hb => (by cases hb), k, ?_, hs.receiver, ?_⟩
    · exact hs.le.trans (by simp [State.send])
    · rw [State.send, firstFrames_append hs.le, ← hs.delivered]
  · have hi : i < s.sent.length := (List.getElem?_eq_some_iff.mp ha).1
    have hiN : i < N := hi.trans hN
    have hkN : k ≤ N := hs.le.trans hN.le
    cases hg : (p.gate s.receiver (p.seqOf i) a).2 with
    | true =>
      obtain ⟨rfl, hat⟩ := hord.deliver hs.receiver hkN hiN hg
      refine ⟨fun j b hj hb => ?_, i + 1, hi, hat, ?_⟩
      · obtain rfl : i = j := by cases hj; rfl
        obtain rfl : a = b := Option.some.inj (ha.symm.trans hb)
        rw [if_pos hg, hs.delivered, ← firstFrames_succ ha]
        exact fun l hl hack => seqOf_mem_firstFrames (hord.acks hat (by omega) hl hack) hi
      · simp only [State.arrive, hg, if_true, hs.delivered, firstFrames_succ ha]
    | false =>
      have hat := hord.drop hs.receiver hkN hiN hg
      refine ⟨fun j b hj hb => ?_, k, hs.le, hat, ?_⟩
      · obtain rfl : i = j := by cases hj; rfl
        obtain rfl : a = b := Option.some.inj (ha.symm.trans hb)
        rw [if_neg (by simp [hg]), hs.delivered]
        exact fun l hl hack => seqOf_mem_firstFrames (hord.acks hat hkN hl hack) hs.le
      · simpa [State.arrive, hg] using hs.delivered
  · exact ⟨fun i b hb => (by cases hb), k, hs.le, hs.receiver, hs.delivered⟩

theorem exists_prefix (hord : InOrder p N At) {r : ρ} (hr : At r 0)
    (h : Run (Arq.step p) ok (init p r) s) (hN : s.sent.length < N) : ∃ k, Prefix p At s k := by
  refine h.invariant_below (m := fun s => s.sent.length) (I := fun s => ∃ k, Prefix p At s k)
    ⟨0, le_rfl, hr, rfl⟩ (fun _ _ _ _ hu => length_sent_le hu) ?_ hN
  rintro t act u ⟨k, ht⟩ - hu hlt
  exact (hord.step ht hu hlt).2

/-- What has been delivered is a prefix of what was sent. -/
theorem delivered_prefix (hord : InOrder p N At) {r : ρ} (hr : At r 0)
    (h : Run (Arq.step p) ok (init p r) s) (hN : s.sent.length < N) :
    s.delivered.map Prod.snd <+: s.sent := by
  obtain ⟨k, hk⟩ := hord.exists_prefix hr h hN
  rw [hk.delivered, firstFrames_map_snd]
  exact List.take_prefix k s.sent

/-- The steps of a run of an in-order gate are sound. -/
theorem sound_run (hord : InOrder p N At) {r : ρ} (hr : At r 0)
    (h : Run (Arq.step p) ok (init p r) s) (hN : s.sent.length < N) :
    Run (Arq.step p) (SoundStep p N) (init p r) s := by
  induction h with
  | refl => exact .refl _
  | snoc hrun hok hu ih =>
    have hlt := lt_of_le_of_lt (length_sent_le hu) hN
    obtain ⟨k, hk⟩ := hord.exists_prefix hr hrun hlt
    exact .snoc (ih hlt) (hord.step hk hu hN).1 hu

theorem erased_subset_delivered (hord : InOrder p N At) {r : ρ} (hr : At r 0)
    (hinj : ∀ i < N, ∀ j < N, p.seqOf i = p.seqOf j → i = j)
    (h : Run (Arq.step p) ok (init p r) s) (hN : s.sent.length < N) :
    s.erased ⊆ s.delivered := by
  refine Arq.erased_subset_delivered hinj (fun i hi => ?_) (hord.sound_run hr h hN) hN
  by_contra hne
  exact absurd (hord.acks hr (Nat.zero_le N) hi (by simpa using hne)) (Nat.not_lt_zero i)

end InOrder

end CampelloNet.Lib.Arq
