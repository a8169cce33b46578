import CampelloNet.Transport.EncryptedRun

/-!
# What a rejected packet hides

`pop_receive` takes one packet from the inner transport and fails when it rejects it, as it does when
there was none. Which of the packets behind would be accepted is decided by taking them one after the
other (`Promising`); a failing `pop_receive` leaves none of those if and only if it did not take a
rejected packet in front of one (`popReceive_none_iff`).
-/

namespace CampelloNet.Transport.EncryptedTransport

open Lib Crypto Encrypted

variable {σ τ : Type}

/-- The size of the buffer that the inner transport fills. -/
def roomFor (enc : EncryptedTransport σ) (maxLength : Nat) : Nat :=
  max enc.recvScratch (maxLength + OVERHEAD)

/-- A queued packet as it reaches `pop_receive`. -/
def cut (enc : EncryptedTransport σ) (maxLength : Nat) (q : Bytes × Address) : Bytes :=
  q.1.take (enc.roomFor maxLength)

/-- A queued packet that is authentic, fits and finds the window of its peer open. -/
def Acceptable (enc : EncryptedTransport σ) (maxLength : Nat) (q : Bytes × Address) : Prop :=
  ∃ peer data, enc.Authentic maxLength (enc.cut maxLength q) q.2 peer data ∧
    enc.OpenTo peer (enc.cut maxLength q)

/-- The transport after a queued packet was taken. -/
def after (enc : EncryptedTransport σ) (maxLength : Nat) (q : Bytes × Address) :
    EncryptedTransport σ :=
  { (enc.openReceived maxLength (enc.cut maxLength q) q.2).1 with recvScratch := enc.roomFor maxLength }

/-- Some packet is acceptable when all before it have been taken. -/
def Promising (maxLength : Nat) : EncryptedTransport σ → List (Bytes × Address) → Prop
  | _, [] => False
  | enc, q :: qs => enc.Acceptable maxLength q ∨ Promising maxLength (enc.after maxLength q) qs

/-- No packet that is rejected stands before one that is acceptable. -/
def Unhidden (maxLength : Nat) : EncryptedTransport σ → List (Bytes × Address) → Prop
  | _, [] => True
  | enc, q :: qs =>
    (enc.Acceptable maxLength q → Unhidden maxLength (enc.after maxLength q) qs) ∧
      (¬enc.Acceptable maxLength q → ¬Promising maxLength (enc.after maxLength q) qs)

/-! ### What taking packets depends on -/

structure Alike (enc : EncryptedTransport σ) (enc' : EncryptedTransport τ) : Prop where
  agree : Agree (fun _ => True) enc enc'
  scratch : enc.recvScratch = enc'.recvScratch

theorem Alike.refl (enc : EncryptedTransport σ) : Alike enc enc := ⟨Agree.refl enc, rfl⟩

theorem acceptable_iff {enc : EncryptedTransport σ} {maxLength : Nat} {q : Bytes × Address} :
    enc.Acceptable maxLength q ↔
      (enc.openReceived maxLength (enc.cut maxLength q) q.2).2.isSome := by
  rw [Option.isSome_iff_exists]
  simp only [openReceived_eq_some_iff]
  exact exists_comm

section
variable {enc : EncryptedTransport σ} {enc' : EncryptedTransport τ} (h : Alike enc enc')
  (maxLength : Nat)

include h

theorem Alike.step (q : Bytes × Address) :
    (enc.Acceptable maxLength q ↔ enc'.Acceptable maxLength q) ∧
      Alike (enc.after maxLength q) (enc'.after maxLength q) := by
  have hroom : enc.roomFor maxLength = enc'.roomFor maxLength := by
    unfold roomFor
    rw [h.scratch]
  have hcut : enc.cut maxLength q = enc'.cut maxLength q := by
    unfold cut
    rw [hroom]
  obtain ⟨hout, hnext⟩ := h.agree.openReceived maxLength (enc'.cut maxLength q) q.2
    fun _ _ => trivial
  rw [acceptable_iff, acceptable_iff, hcut, hout]
  refine ⟨Iff.rfl, ?_, hroom⟩
  unfold after
  rw [hcut]
  exact ((agree_inner _ _ _).symm.trans hnext).trans (agree_inner _ _ _)

theorem Alike.promising (qs : List (Bytes × Address)) :
    Promising maxLength enc qs ↔ Promising maxLength enc' qs := by
  induction qs generalizing enc enc' with
  | nil => exact Iff.rfl
  | cons q qs ih =>
    obtain ⟨hacc, hafter⟩ := h.step maxLength q
    exact or_congr hacc (ih hafter)

theorem Alike.unhidden (qs : List (Bytes × Address)) :
    Unhidden maxLength enc qs ↔ Unhidden maxLength enc' qs := by
  induction qs generalizing enc enc' with
  | nil => exact Iff.rfl
  | cons q qs ih =>
    obtain ⟨hacc, hafter⟩ := h.step maxLength q
    unfold Unhidden
    rw [hacc, ih hafter, hafter.promising maxLength qs]

end

/-! ### `pop_receive` on a queue -/

section
variable {T : ITransport σ} {queue : σ → List (Bytes × Address)} (hq : Queued T queue)
  (enc : EncryptedTransport σ) (maxLength : Nat)

include hq

theorem popReceive_of_empty (h : queue enc.inner = []) :
    (enc.popReceive T maxLength).2 = none ∧ queue (enc.popReceive T maxLength).1.inner = [] := by
  obtain ⟨hpop, hleft⟩ := hq.pop_nil (enc.roomFor maxLength) enc.inner h
  refine ⟨?_, by rw [inner_popReceive]; exact hleft⟩
  unfold popReceive
  unfold roomFor at hpop
  dsimp only
  rw [hpop]

/-- The first packet is taken, and returned if it is acceptable. -/
theorem popReceive_of_queue {q : Bytes × Address} {qs : List (Bytes × Address)}
    (h : queue enc.inner = q :: qs) :
    ((enc.popReceive T maxLength).2.isSome ↔ enc.Acceptable maxLength q) ∧
      queue (enc.popReceive T maxLength).1.inner = qs ∧
      Alike (enc.popReceive T maxLength).1 (enc.after maxLength q) := by
  obtain ⟨hpop, hleft⟩ := hq.pop_cons (enc.roomFor maxLength) enc.inner q.1 q.2 qs h
  have hsame := (agree_inner (P := fun _ => True) enc
    (T.popReceive (enc.roomFor maxLength) enc.inner).1 (enc.roomFor maxLength)).openReceived
    maxLength (enc.cut maxLength q) q.2 fun _ _ => trivial
  have hresult : enc.popReceive T maxLength =
      ((openReceived maxLength (enc.cut maxLength q) q.2 { enc with
          inner := (T.popReceive (enc.roomFor maxLength) enc.inner).1
          recvScratch := enc.roomFor maxLength }).1,
        (openReceived maxLength (enc.cut maxLength q) q.2 { enc with
          inner := (T.popReceive (enc.roomFor maxLength) enc.inner).1
          recvScratch := enc.roomFor maxLength }).2.map fun data => (data, q.2)) := by
    unfold popReceive
    unfold roomFor at hpop
    dsimp only
    rw [hpop]
    rfl
  refine ⟨?_, by rw [inner_popReceive]; exact hleft, ?_, ?_⟩
  · rw [hresult, acceptable_iff, Option.isSome_map, ← hsame.1]
  · rw [hresult]
    exact hsame.2.symm.trans (agree_inner _ _ _)
  · rw [hresult]
    exact (frame_openReceived _ _ _ _).2

/-- Taking all that is queued accepts something if and only if the queue is promising. -/
theorem exists_accepted_iff : (∃ n, ∃ a ∈ arrivals T enc (pops maxLength n), a.accepted) ↔
    Promising maxLength enc (queue enc.inner) := by
  generalize hqueue : queue enc.inner = qs
  induction qs generalizing enc with
  | nil =>
    refine iff_of_false ?_ id
    rintro ⟨n, a, ha, -⟩
    have hnone := deliveries_pops hq enc maxLength n (by
      rw [hqueue]
      exact fun q hmem => absurd hmem List.not_mem_nil)
    rw [hqueue, List.take_nil, List.map_nil, List.map_eq_nil_iff] at hnone
    rw [hnone] at ha
    exact List.not_mem_nil ha
  | cons q qs ih =>
    obtain ⟨hacc, hleft, halike⟩ := popReceive_of_queue hq enc maxLength hqueue
    have hpop := (hq.pop_cons (enc.roomFor maxLength) enc.inner q.1 q.2 qs hqueue).1
    have hsucc : ∀ n, arrivals T enc (pops maxLength (n + 1)) =
        ⟨enc, maxLength, enc.cut maxLength q, q.2, (enc.popReceive T maxLength).2⟩ ::
          arrivals T (enc.popReceive T maxLength).1 (pops maxLength n) := by
      intro n
      have harr : arrival T enc (.call (.popReceive maxLength)) =
          some ⟨enc, maxLength, enc.cut maxLength q, q.2, (enc.popReceive T maxLength).2⟩ := by
        show Option.map _ _ = some _
        unfold roomFor at hpop
        rw [hpop]
        rfl
      rw [pops, List.replicate_succ, arrivals, harr]
      rfl
    show _ ↔ enc.Acceptable maxLength q ∨ Promising maxLength (enc.after maxLength q) qs
    rw [← hacc, ← halike.promising maxLength qs, ← ih _ hleft]
    constructor
    · rintro ⟨n, a, ha, haccepted⟩
      cases n with
      | zero => exact absurd ha List.not_mem_nil
      | succ n =>
        rw [hsucc] at ha
        rcases List.mem_cons.mp ha with rfl | ha
        · exact .inl haccepted
        · exact .inr ⟨n, a, ha, haccepted⟩
    · rintro (haccepted | ⟨n, a, ha, haccepted⟩)
      · refine ⟨1, ⟨enc, maxLength, enc.cut maxLength q, q.2, (enc.popReceive T maxLength).2⟩, ?_,
          haccepted⟩
        rw [hsucc]
        exact List.mem_cons_self
      · exact ⟨n + 1, a, hsucc n ▸ List.mem_cons_of_mem _ ha, haccepted⟩

/-- After a failing call nothing acceptable is left if and only if nothing acceptable was hidden. -/
theorem unhidden_of_none (hnone : (enc.popReceive T maxLength).2 = none) :
    ¬Promising maxLength (enc.popReceive T maxLength).1
        (queue (enc.popReceive T maxLength).1.inner) ↔
      Unhidden maxLength enc (queue enc.inner) := by
  rcases hqueue : queue enc.inner with _ | ⟨q, qs⟩
  · rw [(popReceive_of_empty hq enc maxLength hqueue).2]
    exact iff_of_true id trivial
  · obtain ⟨hacc, hrest, halike⟩ := popReceive_of_queue hq enc maxLength hqueue
    have hrejected : ¬enc.Acceptable maxLength q := by
      rw [← hacc, hnone]
      exact Bool.false_ne_true
    rw [hrest, halike.promising]
    exact ⟨fun h => ⟨fun hac => absurd hac hrejected, fun _ => h⟩, fun h => h.2 hrejected⟩

/-- A successful call hides nothing. -/
theorem unhidden_of_some (hsome : (enc.popReceive T maxLength).2.isSome) :
    Unhidden maxLength (enc.popReceive T maxLength).1
        (queue (enc.popReceive T maxLength).1.inner) ↔
      Unhidden maxLength enc (queue enc.inner) := by
  rcases hqueue : queue enc.inner with _ | ⟨q, qs⟩
  · rw [(popReceive_of_empty hq enc maxLength hqueue).1] at hsome
    cases hsome
  · obtain ⟨hacc, hrest, halike⟩ := popReceive_of_queue hq enc maxLength hqueue
    have haccepted := hacc.mp hsome
    rw [hrest, halike.unhidden]
    exact ⟨fun h => ⟨fun _ => h, fun hrejected => absurd haccepted hrejected⟩,
      fun h => h.1 haccepted⟩

/-- A failing `pop_receive` leaves nothing that would be accepted, unless it took a rejected packet in
front of something acceptable. -/
theorem popReceive_none_iff :
    ((enc.popReceive T maxLength).2 = none →
        ∀ n, ∀ a ∈ arrivals T (enc.popReceive T maxLength).1 (pops maxLength n), ¬a.accepted) ↔
      ¬∃ q qs, queue enc.inner = q :: qs ∧ ¬enc.Acceptable maxLength q ∧
        Promising maxLength (enc.after maxLength q) qs := by
  have hleft : (∀ n, ∀ a ∈ arrivals T (enc.popReceive T maxLength).1 (pops maxLength n),
      ¬a.accepted) ↔ ¬Promising maxLength (enc.popReceive T maxLength).1
        (queue (enc.popReceive T maxLength).1.inner) := by
    rw [← exists_accepted_iff hq]
    simp only [not_exists, not_and]
  rw [hleft]
  rcases hqueue : queue enc.inner with _ | ⟨q, qs⟩
  · rw [(popReceive_of_empty hq enc maxLength hqueue).2]
    simp [Promising]
  · obtain ⟨hacc, hrest, halike⟩ := popReceive_of_queue hq enc maxLength hqueue
    rw [hrest, halike.promising, ← Option.not_isSome_iff_eq_none, hacc]
    constructor
    · rintro h ⟨q', qs', heq, hrejected, hpromising⟩
      obtain ⟨rfl, rfl⟩ := List.cons.inj heq
      exact h hrejected hpromising
    · exact fun h hrejected hpromising => h ⟨q, qs, rfl, hrejected, hpromising⟩

end

end CampelloNet.Transport.EncryptedTransport
